import StyleLex.LiteralScripts
import StyleLex.Proofs.LongestRuns

/-!
# Forms of literal scripts

A form lists every script that a builder can give, with what the text ahead is in each case. A proof
about all scripts goes through the forms and never opens a builder.
-/
namespace StyleLex.Script

variable {rest : Text} {next : Text → Script}

inductive SpacesForm (rest : Text) (next : Text → Script) : Script → Prop where
  | spaces {blank tail : Text} (munch : rest.Munch isSpace blank tail) :
      SpacesForm rest next (.skip blank (next tail))

theorem skipSpaces_form : SpacesForm rest next (skipSpaces rest next) := .spaces (Text.munch _ _)

inductive SigilForm (kind : Kind) (c : Char) (rest : Text) (next : Text → Script) : Script → Prop where
  | nameless (munch : rest.Munch isNameChar [] rest) :
      SigilForm kind c rest next (.fail [c] (.unexpected rest))
  | named {name tail : Text} (munch : rest.Munch isNameChar name tail) (ne : name ≠ []) :
      SigilForm kind c rest next (.emit kind (c :: name) (next tail))

theorem sigil_form (kind : Kind) (c : Char) : SigilForm kind c rest next (sigil kind c rest next) := by
  rw [sigil]
  split
  case isTrue h => exact .nameless (Text.munch_nil h)
  case isFalse h => exact .named (Text.munch _ _) h

inductive QuotedForm (quote : Char) (rest : Text) (next : Text → Script) : Script → Prop where
  | unclosed (open_ : quote ∉ rest) :
      QuotedForm quote rest next (.fail [quote] ⟨.unterminatedLiteral quote, .lexeme⟩)
  | closed {body tail : Text} (split : rest = body ++ quote :: tail) (first : quote ∉ body) :
      QuotedForm quote rest next
        (.skip [quote] <| .emit .quotedString body <| .skip [quote] <| next tail)

theorem quoted_form (quote : Char) : QuotedForm quote rest next (quoted quote rest next) := by
  rw [quoted]
  split
  case h_1 h => exact .unclosed (Text.not_mem_of_upTo?_eq_none h)
  case h_2 h =>
    obtain ⟨hmem, hsplit⟩ := Text.exists_of_upTo?_eq_some h
    exact .closed hsplit hmem

inductive UnitForm (rest : Text) (next : Text → Script) : Script → Prop where
  | percent {tail : Text} (ahead : rest = '%' :: tail) :
      UnitForm rest next (.emit (.unit .percent) ['%'] (next tail))
  | none (munch : rest.Munch Char.isAlpha [] rest) (ahead : rest.head? ≠ some '%') :
      UnitForm rest next (next rest)
  | known {letters tail : Text} {u : NumberUnit} (munch : rest.Munch Char.isAlpha letters tail)
      (ne : letters ≠ []) (known : NumberUnit.ofSuffix? letters = some u) :
      UnitForm rest next (.emit (.unit u) letters (next tail))
  | unknown {letters tail : Text} (munch : rest.Munch Char.isAlpha letters tail)
      (ne : letters ≠ []) (unknown : NumberUnit.ofSuffix? letters = Option.none) :
      UnitForm rest next (.fail letters ⟨.invalidNumberFormat, .lexeme⟩)

theorem unit_form : UnitForm rest next (unit rest next) := by
  unfold unit
  split
  case h_1 t => exact .percent rfl
  case h_2 hpercent =>
    have hhead : rest.head? ≠ some '%' := by
      intro h
      obtain ⟨t, rfl⟩ := List.head?_eq_some_iff.1 h
      exact hpercent t rfl
    dsimp only
    split
    case isTrue h => exact .none (Text.munch_nil h) hhead
    case isFalse h =>
      split
      case h_1 hu => exact .known (Text.munch _ _) h hu
      case h_2 hu => exact .unknown (Text.munch _ _) h hu

/-- A sign, if there is one, and all the digits behind it. -/
structure Whole (rest sgn digits tail : Text) : Prop where
  sign : sgn = [] ∨ sgn = ['-']
  split : rest = sgn ++ (digits ++ tail)
  munch : (digits ++ tail).Munch Char.isDigit digits tail

theorem sign_eq (t : Text) : sign t = [] ∨ sign t = ['-'] := by
  rw [sign]
  split <;> simp

theorem sign_append_unsigned (t : Text) : sign t ++ unsigned t = t := by
  rw [unsigned, sign]
  split
  case isTrue h =>
    obtain ⟨u, rfl⟩ := List.head?_eq_some_iff.1 h
    rfl
  case isFalse => rfl

theorem wholePart_append_drop (t : Text) :
    wholePart t ++ (unsigned t).dropWhile Char.isDigit = t := by
  rw [wholePart, List.append_assoc, List.takeWhile_append_dropWhile, sign_append_unsigned]

theorem drop_wholePart (t : Text) :
    t.drop (wholePart t).length = (unsigned t).dropWhile Char.isDigit := by
  have h := congrArg (List.drop (wholePart t).length) (wholePart_append_drop t)
  rwa [List.drop_left, eq_comm] at h

theorem whole_wholePart (t : Text) :
    Whole t (sign t) ((unsigned t).takeWhile Char.isDigit) ((unsigned t).dropWhile Char.isDigit) where
  sign := sign_eq t
  split := by rw [List.takeWhile_append_dropWhile, sign_append_unsigned]
  munch := by
    have h := Text.munch Char.isDigit (unsigned t)
    rwa [← h.split]

inductive NumberForm (rest : Text) (next : Text → Script) : Script → Prop where
  | malformed {sgn digits t fraction behind : Text} (whole : Whole rest sgn digits ('.' :: t))
      (munch : t.Munch Char.isDigit fraction behind)
      (bad : fraction = [] ∨ fractionAhead behind = true) :
      NumberForm rest next (.fail (sgn ++ digits ++ '.' :: fraction) ⟨.invalidNumberFormat, .lexeme⟩)
  | float {sgn digits t fraction behind : Text} {s : Script} (whole : Whole rest sgn digits ('.' :: t))
      (munch : t.Munch Char.isDigit fraction behind) (ne : fraction ≠ [])
      (only : fractionAhead behind = false) (unit : UnitForm behind next s) :
      NumberForm rest next (.emit .float (sgn ++ digits ++ '.' :: fraction) s)
  | integer {sgn digits tail : Text} {s : Script} (whole : Whole rest sgn digits tail)
      (ne : digits ≠ []) (ahead : tail.head? ≠ some '.') (unit : UnitForm tail next s) :
      NumberForm rest next (.emit .integer (sgn ++ digits) s)

/-- A number ahead that has no digits in front of a point has a point. -/
theorem digits_ne_nil {t : Text} (h : numberAhead t = true)
    (hpoint : ((unsigned t).dropWhile Char.isDigit).head? ≠ some '.') :
    (unsigned t).takeWhile Char.isDigit ≠ [] := by
  intro hnil
  have hm := Text.munch_nil hnil
  have htail : unsigned t = (unsigned t).dropWhile Char.isDigit := by
    simpa [hnil] using (Text.munch Char.isDigit (unsigned t)).split
  rw [← htail] at hpoint
  cases hu : unsigned t with
  | nil => simp [numberAhead, hu, digitAhead, fractionAhead] at h
  | cons c u =>
    have hc : c.isDigit = false := hm.stop c (by simp [hu])
    have hdot : c ≠ '.' := by simpa [hu] using hpoint
    simp [numberAhead, hu, digitAhead, hc, fractionAhead, hdot] at h

theorem number_form (h : numberAhead rest = true) : NumberForm rest next (number rest next) := by
  have hw := whole_wholePart rest
  rw [number]
  dsimp only
  rw [drop_wholePart]
  split
  case h_1 t ht =>
    rw [ht] at hw
    split
    case isTrue hbad => exact .malformed hw (Text.munch _ _) hbad
    case isFalse hgood =>
      obtain ⟨hne, honly⟩ := not_or.1 hgood
      exact .float hw (Text.munch _ _) hne (by simpa using honly) unit_form
  case h_2 hdot =>
    have hpoint : ((unsigned rest).dropWhile Char.isDigit).head? ≠ some '.' := by
      intro hp
      obtain ⟨u, hu⟩ := List.head?_eq_some_iff.1 hp
      exact hdot u hu
    exact .integer hw (digits_ne_nil h hpoint) hpoint unit_form

inductive HexColorForm (rest : Text) (next : Text → Script) : Script → Prop where
  | color {digits tail : Text} (munch : rest.Munch isNameChar digits tail)
      (size : digits.length = 3 ∨ digits.length = 6) (hex : ∀ c ∈ digits, isHexDigit c = true) :
      HexColorForm rest next (.emit .hexColor ('#' :: digits) (next tail))
  | malformed {digits tail : Text} (munch : rest.Munch isNameChar digits tail) :
      HexColorForm rest next (.fail ('#' :: digits) ⟨.invalidHexColor, .lexeme⟩)

theorem hexColor_form : HexColorForm rest next (hexColor rest next) := by
  rw [hexColor]
  split
  case isTrue h => exact .color (Text.munch _ _) h.1 (List.all_eq_true.1 h.2)
  case isFalse => exact .malformed (Text.munch _ _)

/-- `w` is the word that `rest` begins with, and `tail` stands behind it. -/
structure Word (inCall : Bool) (rest w tail : Text) : Prop where
  split : rest = w ++ tail
  inside : ∀ c ∈ w, endsWord inCall c = false
  stop : ∀ c t, tail = c :: t → endsWord inCall c = true ∨ interpolationAhead tail = true
  whole : tail.head? = some '{' → w.getLast? ≠ some '#'

theorem word_word (inCall : Bool) (t : Text) :
    Word inCall t (word inCall t) (t.drop (word inCall t).length) := by
  induction t with
  | nil => exact ⟨rfl, by simp [word], by simp [word], by simp [word]⟩
  | cons c t ih =>
    by_cases h : (endsWord inCall c || interpolationAhead (c :: t)) = true
    · have hw : word inCall (c :: t) = [] := by simp only [word, h, if_true]
      rw [hw]
      refine ⟨rfl, by simp, ?_, by simp⟩
      intro c' t' he
      obtain ⟨rfl, rfl⟩ := List.cons.inj he
      simpa using h
    · have hw : word inCall (c :: t) = c :: word inCall t := by simp only [word, h]; rfl
      rw [hw]
      refine ⟨congrArg (c :: ·) ih.split, ?_, ih.stop, ?_⟩
      · intro c' hc'
        rcases List.mem_cons.1 hc' with rfl | hc'
        · simp_all
        · exact ih.inside c' hc'
      · intro hbrace hlast
        cases hword : word inCall t with
        | nil =>
          -- The hash is the last character of the word, so the brace stands directly behind it.
          rw [hword] at hlast hbrace
          obtain rfl : c = '#' := by simpa using hlast
          obtain ⟨t, rfl⟩ := List.head?_eq_some_iff.1 hbrace
          exact h (by simp [interpolationAhead])
        | cons d w =>
          rw [hword] at hlast
          exact ih.whole hbrace (by rw [hword]; exact hlast)

inductive ConstantForm (inCall : Bool) (rest : Text) (next : Text → Script) : Script → Prop where
  | none (word : Word inCall rest [] rest) : ConstantForm inCall rest next (.fail [] (.unexpected rest))
  | word {w tail : Text} (word : Word inCall rest w tail) (ne : w ≠ []) :
      ConstantForm inCall rest next (.emit .constant w (next tail))

theorem constant_form (inCall : Bool) : ConstantForm inCall rest next (constant inCall rest next) := by
  have hw := word_word inCall rest
  rw [constant]
  split
  case isTrue h =>
    rw [h] at hw
    exact .none hw
  case isFalse h => exact .word hw h

end StyleLex.Script

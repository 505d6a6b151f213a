import StyleLex.Proofs.PlainRuns
import StyleLex.Proofs.WrittenValues

/-!
# Written values are tokenized

A literal ends in front of a character that ends a word. So the literals are read one by one, and calls
and interpolations by induction over the value, in every state that reads values.
-/
namespace StyleLex

open Script

variable {c : Config} {st after : State} {ms : List Mode} {g : Compound} {inCall apart : Bool}
  {t y : Text} {ks : List (Kind × Text)} {a : Char} {v : View}

namespace Script

theorem component_named (v : View) (after : State) (t : Text) :
    component v after ('$' :: t) = sigil .variableName '$' t fun _ => .goto after := rfl

theorem component_interpolation (v : View) (after : State) (t : Text) :
    component v after ('#' :: '{' :: t) = openInterpolation := rfl

theorem component_comma (v : View) (after : State) (t : Text) :
    component v after (',' :: t) = .emit .comma [','] (.goto after) := rfl

theorem component_call (v : View) (after : State) (t : Text) :
    component v after ('(' :: t) =
      (.enter .functionArguments <| .emit .parenStart ['('] <| .goto .value) := rfl

theorem component_color (h : t.head? ≠ some '{') :
    component v after ('#' :: t) = hexColor t fun _ => .goto after := by
  have hplain : ¬interpolationAhead ('#' :: t) = true := by
    rw [interpolationAhead_cons]
    exact fun ahead => h ahead.2
  rw [component, if_neg (by decide), if_neg hplain, if_pos rfl]

theorem component_quoted (h : isQuote a = true) :
    component v after (a :: t) = quoted a t fun _ => .goto after := by
  have hquote : a = '"' ∨ a = '\'' := by
    simpa [isQuote] using h
  rcases hquote with rfl | rfl <;> rfl

/-- The characters that stand for something else than a number or a word. -/
def isOther (inCall : Bool) (a : Char) : Bool :=
  a = '$' || a = '#' || endsWord inCall a

theorem component_of_not_isOther (h : isOther v.inCall a = false) (after : State) (t : Text) :
    component v after (a :: t) = if numberAhead (a :: t) then number (a :: t) fun _ => .goto after
      else constant v.inCall (a :: t) fun _ => .goto after := by
  have hne (b : Char) (hb : ∀ i, isOther i b = true) : a ≠ b := by
    rintro rfl
    rw [hb] at h
    cases h
  have hplain : ¬interpolationAhead (a :: t) = true := by
    rw [interpolationAhead_cons]
    exact fun ahead => hne '#' (fun _ => rfl) ahead.1
  have hquote : ¬isQuote a = true := by
    intro hquote
    simp [isOther, endsWord, hquote] at h
  rw [component, if_neg (hne '$' fun _ => rfl), if_neg hplain, if_neg (hne '#' fun _ => rfl),
    if_neg hquote, if_neg (hne ',' fun _ => rfl), if_neg (hne '(' fun _ => rfl)]
  by_cases hsemicolon : a = ';'
  · subst hsemicolon
    have hinCall : v.inCall = true := by
      simpa [isOther, endsWord, isQuote, isSpace] using h
    rw [if_pos ⟨rfl, hinCall⟩]
    rfl
  · have hbrackets : ¬(a = '{' ∨ a = '}' ∨ a = ')' ∨ a = ';') := by
      rintro (ha | ha | ha | ha)
      · exact hne '{' (fun _ => rfl) ha
      · exact hne '}' (fun _ => rfl) ha
      · exact hne ')' (fun _ => rfl) ha
      · exact hsemicolon ha
    rw [if_neg fun h => hsemicolon h.1, if_neg hbrackets]

/-- A part of a value may begin with this character. -/
structure Starts (inCall : Bool) (a : Char) : Prop where
  space : isSpace a = false
  brace : a ≠ '}'
  paren : a ≠ ')'
  semicolon : a = ';' → inCall = true

theorem starts_of_not_isOther (h : isOther inCall a = false) : Starts inCall a := by
  simp only [isOther, endsWord, Bool.or_eq_false_iff, decide_eq_false_iff_not] at h
  grind [Starts]

theorem starts_of_sign (h : a = ',' ∨ a = '(' ∨ a = '#') : Starts inCall a := by
  rcases h with rfl | rfl | rfl <;> exact ⟨rfl, by decide, by decide, fun h => absurd h (by decide)⟩

theorem value_of_starts {blank : Text} (munch : v.rest.Munch isSpace blank (a :: t))
    (starts : Starts v.inCall a) : value v = .skip blank (component v .value (a :: t)) := by
  have hcall : ¬(a = ';' ∧ (!v.inCall) = true) := by
    rintro ⟨ha, hinCall⟩
    rw [starts.semicolon ha] at hinCall
    cases hinCall
  rw [value, skipSpaces_of_munch munch]
  dsimp only
  rw [if_neg fun h => starts.brace h.1, if_neg hcall, if_neg fun h => starts.brace h.1,
    if_neg starts.brace, if_neg fun h => starts.paren h.1]

theorem interpolation_of_starts {blank : Text} (tokens : v.config.interpolation = .tokens)
    (munch : v.rest.Munch isSpace blank (a :: t)) (starts : Starts v.inCall a) :
    interpolation v = .skip blank (component v .interpolation (a :: t)) := by
  rw [interpolation, tokens]
  dsimp only
  rw [skipSpaces_of_munch munch]
  dsimp only
  rw [if_neg starts.brace]

theorem isUpper_iff : a.isUpper = true ↔ a.val ≥ 'A'.val ∧ a.val ≤ 'Z'.val := by
  delta Char.isUpper
  rw [decide_eq_true_eq]

theorem isLower_iff : a.isLower = true ↔ a.val ≥ 'a'.val ∧ a.val ≤ 'z'.val := by
  delta Char.isLower
  simp only [Bool.and_eq_true, decide_eq_true_eq]

theorem isAlpha_eq (a : Char) : a.isAlpha = (a.isUpper || a.isLower) := rfl

theorem toLower_of_not_isUpper (h : ¬a.isUpper = true) : a.toLower = a := by
  unfold Char.toLower
  split
  case isTrue hupper => exact absurd (isUpper_iff.2 hupper) h
  case isFalse => rfl

theorem isLower_toLower (h : a.isUpper = true) : a.toLower.isLower = true := by
  have hupper := isUpper_iff.1 h
  unfold Char.toLower
  rw [dif_pos hupper, isLower_iff]
  simp only [UInt32.le_iff_toNat_le] at hupper ⊢
  simp at hupper ⊢
  omega

theorem isAlpha_toLower (a : Char) : a.toLower.isAlpha = a.isAlpha := by
  by_cases h : a.isUpper = true
  · simp [isAlpha_eq, h, isLower_toLower h]
  · rw [toLower_of_not_isUpper h]

theorem fractionAhead_of_ne (h : t.head? ≠ some '.') : fractionAhead t = false := by
  unfold fractionAhead
  split
  case h_1 => exact absurd rfl h
  case h_2 => rfl

theorem exists_of_digitAhead (h : digitAhead t = true) :
    ∃ d u, t = d :: u ∧ Char.isDigit d = true := by
  cases t with
  | nil => cases h
  | cons d u => exact ⟨d, u, rfl, h⟩

theorem isAlpha_of_isDigit (h : a.isDigit = true) : a.isAlpha = false := by
  have hstart := isNameStart_of_isDigit h
  simp only [isNameStart, Bool.or_eq_false_iff] at hstart
  exact hstart.1.1

theorem isNameChar_of_isHexDigit (h : isHexDigit a = true) : isNameChar a = true := by
  simp only [isHexDigit, Bool.or_eq_true, Bool.and_eq_true, decide_eq_true_eq] at h
  rcases h with (hdigit | hlower) | hupper
  · exact isNameChar_of_isDigit hdigit
  · apply isNameChar_of_isAlpha
    rw [isAlpha_eq, Bool.or_eq_true, isLower_iff]
    simp [Char.le_def, UInt32.le_iff_toNat_le] at hlower ⊢
    omega
  · apply isNameChar_of_isAlpha
    rw [isAlpha_eq, Bool.or_eq_true, isUpper_iff]
    simp [Char.le_def, UInt32.le_iff_toNat_le] at hupper ⊢
    omega

/-- All the characters that end a word. -/
def wordEnds : Text :=
  [' ', '\t', '\n', '\r', '\x0c', '"', '\'', '{', '}', '(', ')', ',', ';']

theorem mem_of_endsWord (h : endsWord inCall a = true) : a ∈ wordEnds := by
  simp only [endsWord, isQuote, isSpace, Bool.or_eq_true, Bool.and_eq_true, decide_eq_true_eq] at h
  simp only [wordEnds, List.mem_cons, List.not_mem_nil, or_false]
  grind

theorem mem_of_isOther (h : isOther inCall a = true) : a ∈ '$' :: '#' :: wordEnds := by
  simp only [isOther, Bool.or_eq_true, decide_eq_true_eq] at h
  simp only [List.mem_cons]
  rcases h with (rfl | rfl) | h
  · simp
  · simp
  · exact .inr (.inr (mem_of_endsWord h))

theorem not_isOther_of_number (ha : a = '-' ∨ a.isDigit = true ∨ a = '.') :
    isOther inCall a = false := by
  have hothers : ∀ b ∈ '$' :: '#' :: wordEnds, ¬(b = '-' ∨ b.isDigit = true ∨ b = '.') :=
    List.all_iff_forall_prop.1 rfl
  by_contra hother
  exact hothers a (mem_of_isOther (by simpa using hother)) ha

end Script

/-- What stands behind ends a literal, and opens no block. -/
def Text.Ended (inCall : Bool) (y : Text) : Prop :=
  ∀ a, y.head? = some a → endsWord inCall a = true ∧ a ≠ '{'

theorem Text.Ended.stops {p : Char → Bool} (h : y.Ended inCall) (hp : ∀ a ∈ wordEnds, p a = false) :
    y.Stops p := fun a ha => hp a (mem_of_endsWord (h a ha).1)

theorem Text.Ended.head?_ne (h : y.Ended inCall) (ha : a ∉ wordEnds) : y.head? ≠ some a :=
  fun hhead => ha (mem_of_endsWord (h a hhead).1)

theorem Text.ended_cons (h : endsWord inCall a = true) (ne : a ≠ '{') (t : Text) :
    Text.Ended inCall (a :: t) := by
  rintro b ⟨⟩
  exact ⟨h, ne⟩

namespace Written

variable {next : Text → Script}

namespace Numeral

variable (x : Numeral)

theorem exists_unsigned :
    ∃ a u, x.whole.text ++ x.fraction = a :: u ∧ (a.isDigit = true ∨ a = '.') := by
  cases hwhole : x.whole.text with
  | nil =>
    obtain ⟨digits, hfraction⟩ := Option.ne_none_iff_exists'.1 (x.digits.resolve_left fun h => h hwhole)
    exact ⟨'.', digits.text, by simp [fraction, hfraction], .inr rfl⟩
  | cons a u =>
    refine ⟨a, u ++ x.fraction, rfl, .inl (x.whole.inside a ?_)⟩
    simp [hwhole]

theorem exists_print : ∃ a u, x.print = a :: u ∧ (a = '-' ∨ a.isDigit = true ∨ a = '.') := by
  obtain ⟨a, u, hsplit, ha⟩ := x.exists_unsigned
  rw [print, sign, hsplit]
  cases x.negative with
  | false => exact ⟨a, u, rfl, .inr ha⟩
  | true => exact ⟨'-', a :: u, rfl, .inl rfl⟩

theorem unsigned_print (y : Text) : Script.sign (x.print ++ y) = x.sign ∧
    unsigned (x.print ++ y) = x.whole.text ++ (x.fraction ++ y) := by
  obtain ⟨a, u, hsplit, ha⟩ := x.exists_unsigned
  have hminus : a ≠ '-' := by
    rintro rfl
    rcases ha with ha | ha <;> cases ha
  rw [← List.append_assoc x.whole.text, print, hsplit, sign]
  cases x.negative <;> simp [Script.sign, unsigned, hminus]

/-- The digits in front of the point end at the point, or where the number ends. -/
theorem munch_whole (digit : y.Stops Char.isDigit) :
    (x.whole.text ++ (x.fraction ++ y)).Munch Char.isDigit x.whole.text (x.fraction ++ y) := by
  apply x.whole.munch
  rw [fraction]
  cases x.fraction? with
  | none => exact digit
  | some digits => exact Text.stops_cons rfl _

theorem wholePart_print (digit : y.Stops Char.isDigit) :
    wholePart (x.print ++ y) = x.sign ++ x.whole.text := by
  rw [wholePart, (x.unsigned_print y).1, (x.unsigned_print y).2, (x.munch_whole digit).takeWhile_eq.1]

theorem dropWhile_print (digit : y.Stops Char.isDigit) :
    (unsigned (x.print ++ y)).dropWhile Char.isDigit = x.fraction ++ y := by
  rw [(x.unsigned_print y).2, (x.munch_whole digit).takeWhile_eq.2]

theorem numberAhead_print (digit : y.Stops Char.isDigit) : numberAhead (x.print ++ y) = true := by
  by_cases hwhole : x.whole.text = []
  · obtain ⟨digits, hfraction⟩ := Option.ne_none_iff_exists'.1 (x.digits.resolve_left fun h => h hwhole)
    apply numberAhead_of_fraction (u := digits.text ++ y)
    · rw [x.dropWhile_print digit, fraction, hfraction]
      rfl
    · rw [(digits.munch digit).takeWhile_eq.1]
      exact digits.ne
  · apply numberAhead_of_digits
    rwa [(x.unsigned_print y).2, (x.munch_whole digit).takeWhile_eq.1]

/-- Where no second fraction follows, the numeral is handed over as it is written. -/
theorem number_print (digit : y.Stops Char.isDigit) (point : y.head? ≠ some '.') :
    Script.number (x.print ++ y) next = .emit x.kind x.print (unit y next) := by
  have hdrop := x.dropWhile_print digit
  have hwhole := x.wholePart_print digit
  cases hfraction : x.fraction? with
  | none =>
    have hprint : x.print = x.sign ++ x.whole.text := by simp [print, fraction, hfraction]
    have hkind : x.kind = .integer := by simp [kind, hfraction]
    rw [fraction, hfraction, Option.elim_none, List.nil_append] at hdrop
    rw [number_of_ne (by rwa [hdrop]), hdrop, hwhole, hkind, ← hprint]
  | some digits =>
    have hprint : x.print = x.sign ++ x.whole.text ++ '.' :: digits.text := by
      simp [print, fraction, hfraction]
    have hkind : x.kind = .float := by simp [kind, hfraction]
    have hmunch := digits.munch digit
    have honly : ¬(digits.text = [] ∨ fractionAhead y = true) := by
      rw [not_or, fractionAhead_of_ne point]
      exact ⟨digits.ne, by decide⟩
    rw [fraction, hfraction, Option.elim_some, List.cons_append] at hdrop
    rw [number_of_point hdrop, hmunch.takeWhile_eq.1, hmunch.takeWhile_eq.2, if_neg honly, hwhole,
      hkind, ← hprint]

theorem expects (digit : y.Stops Char.isDigit) (point : y.head? ≠ some '.')
    (h : (unit y next).Expects c ⟨ms, g, y⟩ ks) :
    (Script.number (x.print ++ y) next).Expects c ⟨ms, g, x.print ++ y⟩ ((x.kind, x.print) :: ks) := by
  rw [x.number_print digit point]
  exact h.emit

/-- A numeral is read as a number, whatever state goes on behind it. -/
theorem component_numeral (v : View) (after : State) (digit : y.Stops Char.isDigit) :
    component v after (x.print ++ y) = Script.number (x.print ++ y) fun _ => .goto after := by
  obtain ⟨a, u, hprint, ha⟩ := x.exists_print
  have hahead := x.numberAhead_print digit
  rw [hprint, List.cons_append] at hahead ⊢
  rw [component_of_not_isOther (not_isOther_of_number ha), if_pos hahead]

end Numeral

namespace UnitName

variable (x : UnitName)

theorem ofSuffix?_text : NumberUnit.ofSuffix? x.text = some x.unit := by
  rw [NumberUnit.ofSuffix?, x.spelt]
  cases x.unit <;> decide

/-- A unit is a percent sign or letters. -/
theorem percent_or_letters : (x.text = ['%'] ∧ x.unit = .percent) ∨
    (x.text ≠ [] ∧ ∀ a ∈ x.text, a.isAlpha = true) := by
  have hsuffix : x.unit = .percent ∨
      (x.unit.suffix.toList ≠ [] ∧ ∀ a ∈ x.unit.suffix.toList, a.isAlpha = true) := by
    cases x.unit <;> first | exact .inl rfl | exact .inr ⟨by decide, List.all_iff_forall_prop.1 rfl⟩
  rcases hsuffix with hunit | ⟨ne, hletters⟩
  · have hspelt : x.text.map Char.toLower = ['%'] := by
      rw [x.spelt, hunit]
      rfl
    obtain ⟨a, u, htext, ha, hu⟩ := List.map_eq_cons_iff.1 hspelt
    obtain rfl : u = [] := List.map_eq_nil_iff.1 hu
    have hupper : ¬a.isUpper = true := by
      intro hupper
      have hlower := isLower_toLower hupper
      rw [ha] at hlower
      cases hlower
    rw [toLower_of_not_isUpper hupper] at ha
    exact .inl ⟨by rw [htext, ha], hunit⟩
  · rw [← x.spelt] at ne hletters
    refine .inr ⟨by simpa using ne, fun a ha => ?_⟩
    rw [← isAlpha_toLower]
    exact hletters _ (List.mem_map_of_mem ha)

end UnitName

/-- A unit, or none, behind a number. -/
theorem expects_unit (x? : Option UnitName) (ended : y.Ended inCall)
    (h : (next y).Expects c ⟨ms, g, y⟩ ks) :
    (unit (x?.elim [] UnitName.text ++ y) next).Expects c ⟨ms, g, x?.elim [] UnitName.text ++ y⟩
      (x?.elim [] (fun u => [(.unit u.unit, u.text)]) ++ ks) := by
  have halpha : y.Stops Char.isAlpha := ended.stops (List.all_iff_forall_prop.1 rfl)
  have hpercent : y.head? ≠ some '%' := ended.head?_ne (by decide)
  cases x? with
  | none =>
    have munch : Text.Munch Char.isAlpha y [] y := ⟨rfl, nofun, halpha⟩
    rw [Option.elim_none, Option.elim_none, List.nil_append,
      unit_of_none munch.takeWhile_eq.1 hpercent]
    exact h
  | some x =>
    rw [Option.elim_some, Option.elim_some]
    rcases x.percent_or_letters with ⟨htext, hunit⟩ | ⟨ne, hletters⟩
    · rw [htext, hunit]
      exact h.emit
    · rw [unit_of_munch ⟨rfl, hletters, halpha⟩ ne x.ofSuffix?_text]
      exact h.emit

/-- What a unit begins with, or what stands there without one. -/
theorem head_unit (x? : Option UnitName) (ended : y.Ended inCall)
    (h : (x?.elim [] UnitName.text ++ y).head? = some a) :
    a ∈ wordEnds ∨ a = '%' ∨ a.isAlpha = true := by
  cases x? with
  | none => exact .inl (mem_of_endsWord (ended a h).1)
  | some x =>
    rw [Option.elim_some] at h
    rcases x.percent_or_letters with ⟨htext, -⟩ | ⟨ne, hinside⟩
    · rw [htext] at h
      exact .inr (.inl (Option.some.inj h).symm)
    · obtain ⟨b, u, htext⟩ := List.exists_cons_of_ne_nil ne
      rw [htext] at h
      obtain rfl : b = a := Option.some.inj h
      refine .inr (.inr (hinside b ?_))
      simp [htext]

theorem stops_unit (x? : Option UnitName) (ended : y.Ended inCall) :
    Text.Stops Char.isDigit (x?.elim [] UnitName.text ++ y) := by
  have hends : ∀ b ∈ wordEnds, b.isDigit = false := List.all_iff_forall_prop.1 rfl
  intro a ha
  rcases head_unit x? ended ha with h | rfl | halpha
  · exact hends a h
  · rfl
  · exact apart_symm (fun _ => isAlpha_of_isDigit) a halpha

theorem unit_ne_point (x? : Option UnitName) (ended : y.Ended inCall) :
    (x?.elim [] UnitName.text ++ y).head? ≠ some '.' := by
  intro hhead
  rcases head_unit x? ended hhead with h | h | h <;> revert h <;> decide

namespace PlainWord

variable (x : PlainWord inCall)

theorem endsWord_inside (ha : a ∈ x.text) : endsWord inCall a = false := by
  obtain ⟨hspace, hquote, hmem, hsemicolon⟩ := x.inside a ha
  simp only [List.mem_cons, List.not_mem_nil, or_false, not_or] at hmem
  have hcall : a = ';' → (!inCall) = false := fun h => by simp [hsemicolon h]
  simpa [endsWord, hspace, hquote, hmem] using hcall

theorem word (ended : y.Ended inCall) : Script.Word inCall (x.text ++ y) x.text y where
  split := rfl
  inside := fun a ha => x.endsWord_inside ha
  stop := by
    rintro a t rfl
    exact .inl (ended a rfl).1
  whole := fun hbrace => absurd rfl (ended _ hbrace).2

theorem not_numberAhead (ended : y.Ended inCall) : numberAhead (x.text ++ y) = false := by
  have hdigit (u : Text) : digitAhead (u ++ y) = digitAhead u := by
    cases u with
    | nil =>
      cases y with
      | nil => rfl
      | cons a t => exact ended.stops (p := Char.isDigit) (List.all_iff_forall_prop.1 rfl) a rfl
    | cons a u => rfl
  have hfraction (u : Text) : fractionAhead (u ++ y) = fractionAhead u := by
    cases u with
    | nil => exact fractionAhead_of_ne (ended.head?_ne (by decide))
    | cons a u =>
      by_cases ha : a = '.'
      · subst ha
        exact hdigit u
      · simp [fractionAhead, ha]
  by_contra ahead
  apply x.unnumbered
  rw [Bool.not_eq_false, numberAhead, unsigned_append x.ne, hdigit, hfraction, Bool.or_eq_true] at ahead
  have hsplit := sign_append_unsigned x.text
  rcases ahead with ahead | ahead
  · obtain ⟨d, u, hunsigned, hd⟩ := exists_of_digitAhead ahead
    rw [hunsigned] at hsplit
    exact ⟨_, [], d, u, sign_eq x.text, .inl rfl, hd, hsplit.symm⟩
  · unfold fractionAhead at ahead
    split at ahead
    case h_1 hunsigned =>
      obtain ⟨d, u, rfl, hd⟩ := exists_of_digitAhead ahead
      rw [hunsigned] at hsplit
      exact ⟨_, ['.'], d, u, sign_eq x.text, .inr rfl, hd, hsplit.symm⟩
    case h_2 => cases ahead

/-- A word begins with no character that stands for something else. -/
theorem not_isOther {u : Text} (htext : x.text = a :: u) : isOther inCall a = false := by
  obtain ⟨hdollar, hhash⟩ := x.start a (by rw [htext]; rfl)
  have hends := x.endsWord_inside (a := a) (by rw [htext]; exact List.mem_cons_self)
  simp [isOther, hdollar, hhash, hends]

theorem component_word (hv : v.inCall = inCall) (after : State) (ended : y.Ended inCall) :
    component v after (x.text ++ y) = .emit .constant x.text (.goto after) := by
  obtain ⟨a, u, htext⟩ := List.exists_cons_of_ne_nil x.ne
  have hahead := x.not_numberAhead ended
  have hconstant : constant inCall (x.text ++ y) (fun _ => .goto after) =
      .emit .constant x.text (.goto after) := constant_of_word (x.word ended) x.ne
  rw [← hconstant]
  rw [htext, List.cons_append] at hahead ⊢
  rw [component_of_not_isOther (hv ▸ x.not_isOther htext), if_neg (by simp [hahead]), hv]

end PlainWord

/-- The digits of a color open no interpolation. -/
theorem hexDigits_ne_brace (digits : Chars isHexDigit) (ne : digits.text ≠ []) (y : Text) :
    (digits.text ++ y).head? ≠ some '{' := by
  have hinside := digits.inside
  obtain ⟨a, u, htext⟩ := List.exists_cons_of_ne_nil ne
  intro hbrace
  rw [htext] at hinside hbrace
  obtain rfl : a = '{' := Option.some.inj hbrace
  cases hinside '{' List.mem_cons_self

namespace Literal

theorem expects (x : Literal inCall) (hv : v.inCall = inCall) (ended : y.Ended inCall)
    (behind : after.Expects c ⟨ms, g, y⟩ ks) :
    (component v after (x.print ++ y)).Expects c ⟨ms, g, x.print ++ y⟩ (x.spelled ++ ks) := by
  have hname : y.Stops isNameChar := ended.stops (List.all_iff_forall_prop.1 rfl)
  cases x with
  | named name =>
    rw [print, List.cons_append, component_named]
    exact expects_sigil name hname (.goto behind)
  | color digits size =>
    have hne : digits.text ≠ [] := by
      rintro hnil
      simp [hnil] at size
    have hdigits : ∀ a ∈ digits.text, isNameChar a = true :=
      fun a ha => isNameChar_of_isHexDigit (digits.inside a ha)
    rw [print, List.cons_append, component_color (hexDigits_ne_brace digits hne y),
      hexColor_of_munch ⟨rfl, hdigits, hname⟩ size digits.inside]
    apply Script.Expects.emit (t := '#' :: digits.text)
    exact .goto behind
  | string text =>
    have hprint : text.print ++ y = text.quote :: (text.body ++ text.quote :: y) := by
      simp [QuotedText.print]
    rw [print, hprint, component_quoted text.isQuote_quote, ← hprint]
    exact expects_quoted text (.goto behind)
  | number numeral unit? =>
    have hdigit := stops_unit unit? ended
    rw [print, spelled, List.append_assoc, numeral.component_numeral v after hdigit]
    exact numeral.expects hdigit (unit_ne_point unit? ended) (expects_unit unit? ended (.goto behind))
  | word text =>
    rw [print, text.component_word hv after ended]
    exact .emit (.goto behind)

end Literal

theorem Literal.exists_print (x : Literal inCall) : ∃ a u, x.print = a :: u ∧ Starts inCall a := by
  cases x with
  | named name => exact ⟨_, _, rfl, rfl, by decide, by decide, fun h => absurd h (by decide)⟩
  | color digits size => exact ⟨_, _, rfl, rfl, by decide, by decide, fun h => absurd h (by decide)⟩
  | string text =>
    have hquote : text.quote = '"' ∨ text.quote = '\'' := by
      simpa [isQuote] using text.isQuote_quote
    refine ⟨_, _, rfl, ?_⟩
    rcases hquote with h | h <;> rw [h] <;> exact ⟨rfl, by decide, by decide, fun h => absurd h (by decide)⟩
  | number numeral unit? =>
    obtain ⟨a, u, hprint, ha⟩ := numeral.exists_print
    refine ⟨a, _, by rw [print, hprint, List.cons_append], starts_of_not_isOther ?_⟩
    exact not_isOther_of_number ha
  | word text =>
    obtain ⟨a, u, htext⟩ := List.exists_cons_of_ne_nil text.ne
    exact ⟨a, u, htext, starts_of_not_isOther (text.not_isOther htext)⟩

/-- The states that read a value, inside of a call or not, up to the character that closes it. -/
inductive Reading (c : Config) : Bool → State → List Mode → Char → Prop where
  | value {ms : List Mode} : Reading c false .value (.value :: ms) ';'
  | call {ms : List Mode} : Reading c true .value (.functionArguments :: ms) ')'
  | interpolation {ms : List Mode} (tokens : c.interpolation = .tokens) :
      Reading c false .interpolation (.interpolation :: ms) '}'

namespace Reading

variable {q : Char}

theorem resume (h : Reading c inCall st ms q) : State.ofMode (topMode ms) = st := by
  cases h <;> rfl

theorem running (h : Reading c inCall st ms q) : st ≠ .done := by
  cases h <;> decide

theorem top_ne (h : Reading c inCall st ms q) : topMode ms ≠ .selector := by
  cases h <;> exact nofun

theorem ended (h : Reading c inCall st ms q) (y : Text) : Text.Ended inCall (q :: y) := by
  cases h <;> exact Text.ended_cons rfl (by decide) y

/-- Spaces in front of a part of a value are passed over. -/
theorem script_eq (h : Reading c inCall st ms q) (gap : Spaces) (starts : Starts inCall a) (t : Text) :
    ∃ v : View, v.inCall = inCall ∧ ofState st (Outlook.view c ⟨ms, g, gap.text ++ a :: t⟩) =
      .skip gap.text (component v st (a :: t)) := by
  have munch := gap.munch (Text.stops_cons starts.space t)
  cases h with
  | value | call => exact ⟨_, rfl, value_of_starts munch starts⟩
  | interpolation tokens => exact ⟨_, rfl, interpolation_of_starts tokens munch starts⟩

theorem expects_component (h : Reading c inCall st ms q) (gap : Spaces) (starts : Starts inCall a)
    (hs : ∀ v : View, v.inCall = inCall → (component v st (a :: t)).Expects c ⟨ms, g, a :: t⟩ ks) :
    st.Expects c ⟨ms, g, gap.text ++ a :: t⟩ ks := by
  obtain ⟨v, hv, hscript⟩ := h.script_eq (g := g) gap starts t
  apply State.expects_of_script h.running
  rw [hscript]
  exact (hs v hv).skip

/-- A literal is read with the spaces in front of it. -/
theorem expects_literal (h : Reading c inCall st ms q) (x : Literal inCall) (gap : Spaces)
    (ended : y.Ended inCall) (behind : st.Expects c ⟨ms, g, y⟩ ks) :
    st.Expects c ⟨ms, g, gap.text ++ (x.print ++ y)⟩ (x.spelled ++ ks) := by
  obtain ⟨a, u, hprint, starts⟩ := x.exists_print
  have hsplit : x.print ++ y = a :: (u ++ y) := by rw [hprint, List.cons_append]
  rw [hsplit]
  apply h.expects_component gap starts
  intro v hv
  rw [← hsplit]
  exact x.expects hv ended behind

/-- Behind the parenthesis of a call the value around it goes on. -/
theorem expects_call_end (h : Reading c inCall st ms q) (gap : Spaces)
    (behind : st.Expects c ⟨ms, g, y⟩ ks) :
    State.value.Expects c ⟨.functionArguments :: ms, g, gap.text ++ ')' :: y⟩
      ((.parenEnd, [')']) :: ks) := by
  have munch := gap.munch (Text.stops_cons (show isSpace ')' = false from rfl) y)
  have hscript : Script.value (Outlook.view c ⟨.functionArguments :: ms, g, gap.text ++ ')' :: y⟩) =
      .skip gap.text (.emit .parenEnd [')'] <| .leave .resume) := by
    rw [Script.value, Outlook.view_rest, skipSpaces_of_munch munch]
    rfl
  apply State.expects_of_script (by decide)
  rw [ofState, hscript]
  apply Script.Expects.skip
  apply Script.Expects.emit (t := [')'])
  rw [← h.resume] at behind
  exact .leave (.resume behind)

theorem expects_interpolation_end (tokens : c.interpolation = .tokens)
    (h : Reading c inCall st ms q) (gap : Spaces) (behind : st.Expects c ⟨ms, g, y⟩ ks) :
    State.interpolation.Expects c ⟨.interpolation :: ms, g, gap.text ++ '}' :: y⟩
      ((.interpolationEnd, ['}']) :: ks) := by
  have munch := gap.munch (Text.stops_cons (show isSpace '}' = false from rfl) y)
  have hplain : (Outlook.view c ⟨.interpolation :: ms, g, gap.text ++ '}' :: y⟩).outer ≠ .selector :=
    h.top_ne
  have hscript :
      Script.interpolation (Outlook.view c ⟨.interpolation :: ms, g, gap.text ++ '}' :: y⟩) =
        .skip gap.text (.emit .interpolationEnd ['}'] <| .leave .resume) := by
    rw [Script.interpolation, Outlook.view_config, tokens]
    dsimp only
    rw [Outlook.view_rest, skipSpaces_of_munch munch]
    dsimp only
    rw [if_pos rfl, closeInterpolation, if_neg hplain]
  apply State.expects_of_script (by decide)
  rw [ofState, hscript]
  apply Script.Expects.skip
  apply Script.Expects.emit (t := ['}'])
  rw [← h.resume] at behind
  exact .leave (.resume behind)

end Reading

namespace Value

variable {q : Char}

/-- Where no part of a value may stand directly, a literal has ended. -/
theorem ended (x : Value inCall false) (h : y.Ended inCall) : Text.Ended inCall (x.print ++ y) := by
  cases x with
  | nothing => exact h
  | spaces gap rest =>
    obtain ⟨a, u, htext, ha⟩ := gap.exists_cons
    rw [print, htext]
    apply Text.ended_cons (endsWord_of_isSpace ha)
    rintro rfl
    cases ha
  | comma rest => exact Text.ended_cons rfl (by decide) _

theorem expects (x : Value inCall apart) (tokens : c.interpolation = .tokens)
    (h : Reading c inCall st ms q) (gap : Spaces)
    (behind : ∀ gap : Spaces, st.Expects c ⟨ms, g, gap.text ++ q :: y⟩ ks) :
    st.Expects c ⟨ms, g, gap.text ++ (x.print ++ q :: y)⟩ (x.spelled ++ ks) := by
  induction x generalizing st ms q y ks gap with
  | nothing => exact behind gap
  | spaces more rest ih =>
    rw [print, List.append_assoc, ← List.append_assoc gap.text]
    exact ih h (gap.append more.toChars) behind
  | comma rest ih =>
    rw [print, List.cons_append]
    apply h.expects_component gap (starts_of_sign (.inl rfl))
    intro v hv
    rw [component_comma]
    apply Script.Expects.emit (t := [','])
    exact .goto (ih h (.nil _) behind)
  | literal x rest ih =>
    rw [print, spelled, List.append_assoc, List.append_assoc]
    exact h.expects_literal x gap (rest.ended (h.ended y)) (ih h (.nil _) behind)
  | call word? inside rest ihInside ihRest =>
    have hcall (gap : Spaces) : st.Expects c
        ⟨ms, g, gap.text ++ '(' :: (inside.print ++ ')' :: (rest.print ++ q :: y))⟩
        ((.parenStart, ['(']) :: (inside.spelled ++ (.parenEnd, [')']) :: (rest.spelled ++ ks))) := by
      apply h.expects_component gap (starts_of_sign (.inr (.inl rfl)))
      intro v hv
      rw [component_call]
      apply Script.Expects.enter
      apply Script.Expects.emit (t := ['('])
      refine .goto (ihInside .call (.nil _) fun gap => ?_)
      exact h.expects_call_end gap (ihRest h (.nil _) behind)
    cases word? with
    | none =>
      simpa [print, spelled] using hcall gap
    | some word =>
      have hword := h.expects_literal (.word word) gap (Text.ended_cons rfl (by decide) _)
        (hcall (.nil _))
      simpa [print, spelled, Literal.print, Literal.spelled] using hword
  | interpolation inside rest ihInside ihRest =>
    have hprint : (inside.print ++ '}' :: rest.print) ++ q :: y =
        inside.print ++ '}' :: (rest.print ++ q :: y) := by simp
    have hspelled : (inside.spelled ++ (.interpolationEnd, ['}']) :: rest.spelled) ++ ks =
        inside.spelled ++ (.interpolationEnd, ['}']) :: (rest.spelled ++ ks) := by simp
    rw [print, spelled, List.cons_append, List.cons_append, List.cons_append, hprint, hspelled]
    apply h.expects_component gap (starts_of_sign (.inr (.inr rfl)))
    intro v hv
    rw [component_interpolation]
    apply Script.Expects.enter
    apply Script.Expects.emit (t := ['#', '{'])
    refine .goto (ihInside (.interpolation tokens) (.nil _) fun gap => ?_)
    exact h.expects_interpolation_end tokens gap (ihRest h (.nil _) behind)

end Value

theorem expects_semicolon (gap : Spaces) :
    State.value.Expects c ⟨[.value], g, gap.text ++ [';']⟩ [(.semicolon, [';'])] := by
  have hdone : State.statement.Expects c ⟨[], g, []⟩ [] :=
    State.expects_of_script (by decide) (.skip (t := []) (.goto (State.expects_done c _)))
  have munch := gap.munch (Text.stops_cons (show isSpace ';' = false from rfl) [])
  have hscript : Script.value (Outlook.view c ⟨[.value], g, gap.text ++ [';']⟩) =
      .skip gap.text (.emit .semicolon [';'] <| .leave .resume) := by
    rw [Script.value, Outlook.view_rest, skipSpaces_of_munch munch]
    rfl
  apply State.expects_of_script (by decide)
  rw [ofState, hscript]
  apply Script.Expects.skip
  apply Script.Expects.emit (t := [';'])
  exact .leave (.resume hdone)

/-- The variable and the colon in front of a value. -/
theorem expects_assignment (name : Name)
    (behind : State.value.Expects c ⟨[.value], g, y⟩ ks) :
    State.statement.Expects c ⟨[], g, '$' :: (name.text ++ ':' :: y)⟩
      ((.variableName, '$' :: name.text) :: (.colon, [':']) :: ks) := by
  have hassignment : State.assignment.Expects c ⟨[], g, '$' :: (name.text ++ ':' :: y)⟩
      ((.variableName, '$' :: name.text) :: (.colon, [':']) :: ks) := by
    apply State.expects_of_script (by decide)
    apply expects_sigil name (Text.stops_cons rfl y)
    apply Script.Expects.skip (t := [])
    apply Script.Expects.emit (t := [':'])
    exact .enter (.goto behind)
  apply State.expects_of_script (by decide)
  apply Script.Expects.skip (t := [])
  exact .goto hassignment

end Written

/-- Every value in front of a semicolon is tokenized, and to the tokens expected of it. -/
theorem tokenize_value (requireSemicolon : Bool) (name : Name) (x : Written.Value false true) :
    ∃ ts, tokenize ⟨requireSemicolon, .tokens⟩ ('$' :: (name.text ++ ':' :: (x.print ++ [';']))) =
        .ok ts ∧
      ts.map (fun t => (t.kind, t.text)) =
        (.variableName, '$' :: name.text) :: (.colon, [':']) ::
          (x.spelled ++ [(.semicolon, [';'])]) := by
  apply tokenize_of_expects
  apply Written.expects_assignment
  apply x.expects rfl .value (.nil _)
  exact Written.expects_semicolon

end StyleLex

import StyleLex.Proofs.DeclarationShapes
import StyleLex.Proofs.LocalStates
import StyleLex.Proofs.UnpartedHashes

/-!
# Scans over text with spaces put in

Behind `x` the spaces `w` are put in. A scan that finds all it looks for in `x` finds the same, and so
does one that spaces end.
-/
namespace StyleLex

namespace Text

/-- Spaces, at least one. -/
structure Blank (w : Text) : Prop where
  ne : w ≠ []
  inside : ∀ a ∈ w, isSpace a = true

variable {w x y b run tail blank : Text} {p : Char → Bool} {a q : Char}

theorem Blank.head (h : w.Blank) : ∃ a t, w = a :: t ∧ isSpace a = true := by
  obtain ⟨a, t, rfl⟩ := List.exists_cons_of_ne_nil h.ne
  exact ⟨a, t, rfl, h.inside a List.mem_cons_self⟩

/-- The character behind a place is the same with spaces put in further on, or else it is a space. -/
theorem Blank.head?_append (h : w.Blank) (b : Text) (ha : (y ++ (w ++ b)).head? = some a) :
    (y ++ b).head? = some a ∨ isSpace a = true := by
  cases y with
  | nil =>
    obtain ⟨c, t, rfl, hc⟩ := h.head
    obtain rfl : c = a := Option.some.inj ha
    exact .inr hc
  | cons c y => exact .inl ha

theorem Blank.head?_ne (h : w.Blank) (ha : isSpace a = false) (hy : (y ++ b).head? ≠ some a) :
    (y ++ (w ++ b)).head? ≠ some a := by
  intro hhead
  rcases h.head?_append b hhead with hb | hspace
  · exact hy hb
  · rw [ha] at hspace
    cases hspace

theorem Blank.not_mem (h : w.Blank) (ha : isSpace a = false) : a ∉ w := by
  intro hmem
  rw [h.inside a hmem] at ha
  cases ha

/-- A run of characters that are no spaces ends where it did. -/
theorem Munch.respace (h : (run ++ y ++ b).Munch p run tail) (hw : w.Blank)
    (hp : ∀ a, isSpace a = true → p a = false) :
    tail = y ++ b ∧ (run ++ y ++ (w ++ b)).Munch p run (y ++ (w ++ b)) := by
  obtain ⟨split, inside, stop⟩ := h
  rw [List.append_assoc] at split
  obtain rfl := List.append_cancel_left split
  refine ⟨rfl, List.append_assoc _ _ _, inside, fun a ha => ?_⟩
  rcases hw.head?_append b ha with hb | hspace
  · exact stop a hb
  · exact hp a hspace

/-- The spaces ahead take in the spaces that are put in, or they end in front of them. -/
theorem Munch.spaces (h : (x ++ b).Munch isSpace blank tail) (hw : w.Blank) :
    (∃ r, blank = x ++ r ∧ (x ++ (w ++ b)).Munch isSpace (x ++ (w ++ r)) tail) ∨
      ∃ y, y ≠ [] ∧ x = blank ++ y ∧ tail = y ++ b ∧
        (x ++ (w ++ b)).Munch isSpace blank (y ++ (w ++ b)) := by
  obtain ⟨split, inside, stop⟩ := h
  have habsorbed {r : Text} (hblank : blank = x ++ r) (hb : b = r ++ tail) :
      blank = x ++ r ∧ (x ++ (w ++ b)).Munch isSpace (x ++ (w ++ r)) tail := by
    subst hblank hb
    refine ⟨rfl, ⟨by simp, fun a ha => ?_, stop⟩⟩
    simp only [List.mem_append] at inside ha
    rcases ha with ha | ha | ha
    · exact inside a (.inl ha)
    · exact hw.inside a ha
    · exact inside a (.inr ha)
  rcases List.append_eq_append_iff.1 split with ⟨r, hblank, hb⟩ | ⟨y, hx, htail⟩
  · exact .inl ⟨r, habsorbed hblank hb⟩
  · cases y with
    | nil => exact .inl ⟨[], habsorbed (by rw [hx, List.append_nil, List.append_nil]) htail.symm⟩
    | cons c y =>
      refine .inr ⟨c :: y, List.cons_ne_nil c y, hx, htail, ?_, inside, ?_⟩
      · rw [hx, List.append_assoc]
      · intro a ha
        exact stop a (by rw [htail]; exact ha)

theorem upTo?_of_not_mem {t : Text} (h : q ∉ t) : t.upTo? [q] = none := by
  induction t with
  | nil => simp [upTo?]
  | cons c t ih =>
    rw [List.mem_cons, not_or] at h
    simp [upTo?, h.1, ih h.2]

theorem upTo?_split (h : q ∉ run) (t : Text) : (run ++ q :: t).upTo? [q] = some run := by
  induction run with
  | nil => simp [upTo?]
  | cons c run ih =>
    rw [List.mem_cons, not_or] at h
    simp [upTo?, h.1, ih h.2]

theorem Unparted.suffix (h : x.Unparted b) (hy : y <:+ x) : y.Unparted b := by
  obtain ⟨u, rfl⟩ := hy
  intro hbrace hlast
  refine h hbrace ?_
  rw [List.getLast?_append, hlast, Option.some_or]

end Text

namespace RuleShape

variable {w y b : Text} {q : Char}

theorem behind_suffix (q : Char) (t : Text) : behind q t <:+ t :=
  (List.tail_suffix _).trans (List.dropWhile_suffix _)

theorem ofText_spaces (h : ∀ a ∈ w, isSpace a = true) (t : Text) : ofText (w ++ t) = ofText t := by
  induction w with
  | nil => rfl
  | cons a w ih =>
    have ha : isSpace a = true := h a List.mem_cons_self
    have hne {c : Char} (hc : isSpace c = false) : a ≠ c := by
      rintro rfl
      rw [ha] at hc
      cases hc
    have hquote : isQuote a = false := by
      simp [isQuote, hne (c := '"') (by decide), hne (c := '\'') (by decide)]
    rw [List.cons_append, ofText_plain (hne (by decide)) (hne (by decide)) (hne (by decide)) hquote
      (fun hash => absurd hash (hne (by decide)))]
    exact ih fun b hb => h b (List.mem_cons_of_mem a hb)

/-- Spaces do not change the shape of a rule, as long as they do not part a hash from its brace. -/
theorem ofText_respace (hw : w.Blank) (plain : y.Unparted b) :
    ofText (y ++ (w ++ b)) = ofText (y ++ b) := by
  induction h : y.length using Nat.strongRecOn generalizing y with
  | _ n ih =>
  subst h
  cases y with
  | nil => exact ofText_spaces hw.inside b
  | cons a y =>
    have hplain : Text.Unparted y b := plain.suffix (List.suffix_cons a y)
    -- Behind a quote or the end of an interpolation the scan is further on.
    have hbehind {q : Char} (hq : isSpace q = false) :
        ofText (behind q (y ++ (w ++ b))) = ofText (behind q (y ++ b)) := by
      by_cases hmem : q ∈ y
      · rw [behind_append hmem, behind_append hmem]
        refine ih _ ?_ (hplain.suffix (behind_suffix q y)) rfl
        have hle := length_behind_le q y
        rw [List.length_cons]
        omega
      · rw [behind_append_of_not_mem hmem, behind_append_of_not_mem hmem,
          behind_append_of_not_mem (hw.not_mem hq)]
    rw [List.cons_append, List.cons_append]
    by_cases hopen : a = '{'
    · subst hopen
      rw [ofText, ofText, if_pos rfl, if_pos rfl]
    by_cases hend : a = ';' ∨ a = '}'
    · rw [ofText_of_end hend, ofText_of_end hend]
    by_cases hquote : isQuote a = true
    · rw [ofText_quote hquote, ofText_quote hquote]
      refine hbehind ?_
      simp only [isQuote, Bool.or_eq_true, decide_eq_true_eq] at hquote
      rcases hquote with rfl | rfl <;> decide
    rw [not_or] at hend
    rw [Bool.not_eq_true] at hquote
    by_cases hash : a = '#' ∧ (y ++ b).head? = some '{'
    · obtain ⟨rfl, hbrace⟩ := hash
      cases y with
      | nil => exact absurd rfl (plain hbrace)
      | cons c y =>
        obtain rfl : c = '{' := Option.some.inj hbrace
        have hrest := hbehind (q := '}') (by decide)
        rw [List.cons_append, List.cons_append, behind_cons (by decide),
          behind_cons (by decide)] at hrest
        rw [List.cons_append, List.cons_append, ofText_interpolation, ofText_interpolation]
        exact hrest
    · have hash' (ha : a = '#') : (y ++ b).head? ≠ some '{' := fun hb => hash ⟨ha, hb⟩
      rw [ofText_plain hopen hend.2 hend.1 hquote hash',
        ofText_plain hopen hend.2 hend.1 hquote fun ha => hw.head?_ne (by decide) (hash' ha)]
      exact ih _ (Nat.lt_succ_self _) hplain rfl

end RuleShape

namespace Script

open Text

variable {w x y b t u tail : Text} {a : Char} {k : Kind} {inCall : Bool}

theorem not_isNameChar_of_isSpace (h : isSpace a = true) : isNameChar a = false :=
  isNameChar_of_mem_seams a (mem_seams_of_isSpace h)

theorem not_isDigit_of_isSpace (h : isSpace a = true) : a.isDigit = false :=
  isDigit_of_mem_seams a (mem_seams_of_isSpace h)

theorem not_isAlpha_of_isSpace (h : isSpace a = true) : a.isAlpha = false :=
  isAlpha_of_mem_seams a (mem_seams_of_isSpace h)

theorem not_isUnquotedChar_of_isSpace (h : isSpace a = true) : isUnquotedChar a = false := by
  simp [isUnquotedChar, h]

theorem interpolationAhead_cons : interpolationAhead (a :: t) = true ↔ a = '#' ∧ t.head? = some '{' := by
  constructor
  · intro h
    unfold interpolationAhead at h
    split at h
    case h_1 heq =>
      obtain ⟨rfl, rfl⟩ := List.cons.inj heq
      exact ⟨rfl, rfl⟩
    case h_2 => cases h
  · rintro ⟨rfl, hbrace⟩
    obtain ⟨t, rfl⟩ := List.head?_eq_some_iff.1 hbrace
    rfl

/-- Spaces never make an interpolation out of a hash. -/
theorem interpolationAhead_respace (hw : w.Blank) (ne : y ≠ [])
    (h : interpolationAhead (y ++ b) = false) : interpolationAhead (y ++ (w ++ b)) = false := by
  obtain ⟨a, y, rfl⟩ := List.exists_cons_of_ne_nil ne
  rw [← Bool.not_eq_true, List.cons_append, interpolationAhead_cons, not_and] at h ⊢
  exact fun ha => hw.head?_ne (by decide) (h ha)

theorem endsWord_of_isSpace (h : isSpace a = true) : endsWord inCall a = true := by
  simp [endsWord, h]

theorem Word.respace (h : Word inCall (u ++ y ++ b) u tail) (hw : w.Blank)
    (plain : (u ++ y).Unparted b) :
    tail = y ++ b ∧ Word inCall (u ++ y ++ (w ++ b)) u (y ++ (w ++ b)) := by
  obtain ⟨split, inside, stop, whole⟩ := h
  rw [List.append_assoc] at split
  obtain rfl := List.append_cancel_left split
  refine ⟨rfl, List.append_assoc _ _ _, inside, fun c t ht => ?_, fun hbrace => ?_⟩
  · cases y with
    | nil =>
      obtain ⟨c', t', rfl, hc⟩ := hw.head
      obtain ⟨rfl, -⟩ := List.cons.inj ht
      exact .inl (endsWord_of_isSpace hc)
    | cons c' y =>
      obtain ⟨rfl, -⟩ := List.cons.inj ht
      refine (stop c' _ rfl).imp_right fun ahead => ?_
      obtain ⟨rfl, hbrace⟩ := interpolationAhead_cons.1 ahead
      cases y with
      | nil =>
        -- The word would end in front of a hash whose brace stands behind the place.
        exact absurd (by simp) (plain hbrace)
      | cons c y => exact interpolationAhead_cons.2 ⟨rfl, hbrace⟩
  · rcases hw.head?_append b hbrace with hb | hspace
    · exact whole hb
    · cases hspace

theorem Word.word_eq (h : Word inCall t u tail) : word inCall t = u := by
  induction u generalizing t with
  | nil =>
    obtain rfl : t = tail := h.split
    cases t with
    | nil => rfl
    | cons c t =>
      have hstop := h.stop c t rfl
      rw [word, if_pos (by simpa using hstop)]
  | cons c u ih =>
    obtain ⟨rfl, inside, stop, whole⟩ := h
    have hc : endsWord inCall c = false := inside c List.mem_cons_self
    have hplain : ¬interpolationAhead (c :: (u ++ tail)) = true := by
      rw [interpolationAhead_cons]
      rintro ⟨rfl, hbrace⟩
      cases u with
      | nil => exact whole hbrace rfl
      | cons d u =>
        obtain rfl : d = '{' := Option.some.inj hbrace
        have hinside := inside '{' (by simp)
        cases hinside
    have hword : Word inCall (u ++ tail) u tail := by
      refine ⟨rfl, fun d hd => inside d (List.mem_cons_of_mem c hd), stop, fun hbrace hlast => ?_⟩
      refine whole hbrace ?_
      rw [List.getLast?_cons, hlast]
      rfl
    rw [List.cons_append, word, if_neg (by simp [hc, hplain]), ih hword]

theorem digitAhead_respace (hw : w.Blank) (h : digitAhead (y ++ b) = false) :
    digitAhead (y ++ (w ++ b)) = false := by
  cases hy : (y ++ (w ++ b)).head? with
  | none => rw [digitAhead, hy]; rfl
  | some a =>
    rw [digitAhead, hy]
    rcases hw.head?_append b hy with hb | hspace
    · rwa [digitAhead, hb] at h
    · exact not_isDigit_of_isSpace hspace

theorem fractionAhead_respace (hw : w.Blank) (h : fractionAhead (y ++ b) = false) :
    fractionAhead (y ++ (w ++ b)) = false := by
  cases y with
  | nil =>
    obtain ⟨a, t, rfl, ha⟩ := hw.head
    have hdot : a ≠ '.' := by
      rintro rfl
      cases ha
    simp [fractionAhead, hdot]
  | cons a y =>
    by_cases ha : a = '.'
    · subst ha
      exact digitAhead_respace hw h
    · simp [fractionAhead, ha]

/-- Spaces never make a number out of a word. -/
theorem numberAhead_respace (hw : w.Blank) (ne : x ≠ []) (h : numberAhead (x ++ b) = false) :
    numberAhead (x ++ (w ++ b)) = false := by
  rw [numberAhead, unsigned_append ne, Bool.or_eq_false_iff] at h ⊢
  exact ⟨digitAhead_respace hw h.1, fractionAhead_respace hw h.2⟩

theorem numberAhead_of_digits (h : (unsigned t).takeWhile Char.isDigit ≠ []) :
    numberAhead t = true := by
  cases hu : unsigned t with
  | nil => simp [hu] at h
  | cons a u =>
    by_cases ha : a.isDigit = true
    · simp [numberAhead, hu, digitAhead, ha]
    · simp [hu, ha] at h

theorem numberAhead_of_fraction (h : (unsigned t).dropWhile Char.isDigit = '.' :: u)
    (hu : u.takeWhile Char.isDigit ≠ []) : numberAhead t = true := by
  by_cases hdigits : (unsigned t).takeWhile Char.isDigit = []
  · have hsplit := (munch_nil hdigits).takeWhile_eq.2
    rw [h] at hsplit
    cases u with
    | nil => exact absurd rfl hu
    | cons a u =>
      have ha : a.isDigit = true := by
        by_contra hne
        simp [hne] at hu
      simp [numberAhead, ← hsplit, fractionAhead, digitAhead, ha]
  · exact numberAhead_of_digits hdigits

/-- The sign and the digits of a number end where they did. -/
theorem wholePart_respace (hw : w.Blank) (ne : x ≠ []) (hx : x = wholePart (x ++ b) ++ y) :
    (unsigned (x ++ (w ++ b))).takeWhile Char.isDigit = (unsigned (x ++ b)).takeWhile Char.isDigit ∧
      (unsigned (x ++ b)).dropWhile Char.isDigit = y ++ b ∧
      (unsigned (x ++ (w ++ b))).dropWhile Char.isDigit = y ++ (w ++ b) := by
  have hunsigned : unsigned x = (unsigned x ++ b).takeWhile Char.isDigit ++ y := by
    have hsigned : sign x ++ unsigned x = sign x ++ ((unsigned x ++ b).takeWhile Char.isDigit ++ y) := by
      rw [sign_append_unsigned, ← List.append_assoc]
      rwa [wholePart, sign_append ne, unsigned_append ne] at hx
    exact List.append_cancel_left hsigned
  have munch := munch Char.isDigit (unsigned x ++ b)
  rw [unsigned_append ne, unsigned_append ne]
  generalize (unsigned x ++ b).takeWhile Char.isDigit = digits at hunsigned munch
  rw [hunsigned] at munch ⊢
  obtain ⟨htail, munch'⟩ := munch.respace hw fun _ => not_isDigit_of_isSpace
  exact ⟨munch'.takeWhile_eq.1, htail, munch'.takeWhile_eq.2⟩

theorem upToClosing_respace {depth : Nat} (h : upToClosing depth (u ++ ')' :: t) = some u)
    (t' : Text) : upToClosing depth (u ++ ')' :: t') = some u := by
  induction u generalizing depth with
  | nil =>
    cases depth with
    | zero => rfl
    | succ depth => simp [upToClosing] at h
  | cons c u ih =>
    have hcons {d : Nat} (hd : (upToClosing d (u ++ ')' :: t)).map (c :: ·) = some (c :: u)) :
        (upToClosing d (u ++ ')' :: t')).map (c :: ·) = some (c :: u) := by
      obtain ⟨v, hv, heq⟩ := Option.map_eq_some_iff.1 hd
      obtain rfl := (List.cons.inj heq).2
      rw [ih hv, Option.map_some]
    rw [List.cons_append] at h ⊢
    unfold upToClosing at h ⊢
    split at h
    case isTrue hc =>
      rw [if_pos hc]
      cases depth with
      | zero => cases h
      | succ depth => exact hcons h
    case isFalse hc =>
      rw [if_neg hc]
      split at h
      case isTrue hopen =>
        rw [if_pos hopen]
        exact hcons h
      case isFalse hopen =>
        rw [if_neg hopen]
        exact hcons h

end Script

end StyleLex

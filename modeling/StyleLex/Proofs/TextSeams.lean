import Mathlib.Data.Bool.AllAny
import StyleLex.CharClass
import StyleLex.LiteralScripts
import StyleLex.Proofs.LongestRuns

/-!
# Seams between texts

A text that ends at a seam ends every name, number and word in it, so what is found there does not
depend on the text behind it.
-/
namespace StyleLex

/-- Characters that end a name and a number. -/
def seams : Text := [';', '}', '{', ' ', '\t', '\n', '\r', '\x0c']

theorem mem_seams_of_isSpace {a : Char} (h : isSpace a = true) : a ∈ seams := by
  simp only [isSpace, Bool.or_eq_true, decide_eq_true_eq] at h
  simp only [seams, List.mem_cons]
  grind

theorem isNameChar_of_mem_seams : ∀ a ∈ seams, isNameChar a = false :=
  List.all_iff_forall_prop.1 rfl

theorem isDigit_of_mem_seams : ∀ a ∈ seams, a.isDigit = false :=
  List.all_iff_forall_prop.1 rfl

theorem isAlpha_of_mem_seams : ∀ a ∈ seams, a.isAlpha = false :=
  List.all_iff_forall_prop.1 rfl

theorem not_mem_seams_of_isQuote {a : Char} (h : isQuote a = true) : a ∉ seams := by
  have hall : ∀ b ∈ seams, isQuote b = false := List.all_iff_forall_prop.1 rfl
  intro hmem
  rw [hall a hmem] at h
  cases h

namespace Text

/-- `w` ends at a seam. More text, such as `x`, is known behind it only if that is an opening brace. -/
structure Seam (x w : Text) : Prop where
  ends : ∃ u e, w = u ++ [e] ∧ e ∈ seams ∧ (e = '{' ∨ x = [])

variable {x y w u : Text} {a : Char} {p : Char → Bool}

theorem Seam.ne_nil (h : Seam x w) : w ≠ [] := by
  obtain ⟨u, e, rfl, -⟩ := h
  simp

theorem Seam.suffix (h : Seam x (u ++ w)) (hw : w ≠ []) : Seam x w := by
  obtain ⟨u', e, heq, he⟩ := h
  obtain ⟨v, b, rfl⟩ : ∃ v b, w = v ++ [b] := by
    rcases List.eq_nil_or_concat w with hnil | ⟨v, b, hv⟩
    · exact absurd hnil hw
    · exact ⟨v, b, by rw [hv, List.concat_eq_append]⟩
  rw [← List.append_assoc] at heq
  obtain ⟨-, hb⟩ := List.append_inj' heq rfl
  cases hb
  exact ⟨v, _, rfl, he⟩

/-- The first character is the seam itself, or there is more in front of the seam. -/
theorem Seam.cons (h : Seam x (a :: w)) : Seam x w ∨ w = [] ∧ a ∈ seams ∧ (a = '{' ∨ x = []) := by
  by_cases hw : w = []
  · subst hw
    obtain ⟨u, e, heq, he⟩ := h
    have hone : [] ++ [a] = u ++ [e] := heq
    obtain ⟨-, ha⟩ := List.append_inj' hone rfl
    cases ha
    exact .inr ⟨rfl, he⟩
  · exact .inl (Seam.suffix (u := [a]) h hw)

theorem Seam.of_cons (h : Seam x (a :: w)) (ha : a ∉ seams) : Seam x w := by
  rcases h.cons with h | ⟨-, hseam, -⟩
  · exact h
  · exact absurd hseam ha

theorem Seam.dropWhile_ne_nil (h : Seam x w) (hp : ∀ a ∈ seams, p a = false) :
    w.dropWhile p ≠ [] := by
  obtain ⟨u, e, rfl, he, -⟩ := h
  intro hnil
  have hall := List.dropWhile_eq_nil_iff.1 hnil e (by simp)
  rw [hp e he] at hall
  cases hall

theorem takeWhile_append_of_ne_nil (h : w.dropWhile p ≠ []) (y : Text) :
    (w ++ y).takeWhile p = w.takeWhile p ∧ (w ++ y).dropWhile p = w.dropWhile p ++ y := by
  have hm := munch p w
  refine Munch.takeWhile_eq ⟨?_, hm.inside, ?_⟩
  · rw [← List.append_assoc, ← hm.split]
  · intro a ha
    obtain ⟨b, t, ht⟩ := List.exists_cons_of_ne_nil h
    rw [ht] at ha
    exact hm.stop a (by rw [ht]; exact ha)

theorem Seam.dropWhile (h : Seam x w) (hne : w.dropWhile p ≠ []) : Seam x (w.dropWhile p) :=
  Seam.suffix (u := w.takeWhile p) (by rwa [List.takeWhile_append_dropWhile]) hne

/-- Behind a character that is found, the seam is still ahead. -/
theorem Seam.behind (h : Seam x (u ++ a :: w)) (ha : a ∉ seams) : Seam x w :=
  (h.suffix (List.cons_ne_nil a w)).of_cons ha

/-- Spaces end in front of the seam, or they are all there is. -/
theorem Seam.spaces (h : Seam x w) : w.dropWhile isSpace ≠ [] ∨ w.dropWhile isSpace = [] ∧ x = [] := by
  by_cases hne : w.dropWhile isSpace = []
  · obtain ⟨u, e, rfl, he, hx⟩ := h
    have hspace := List.dropWhile_eq_nil_iff.1 hne e (by simp)
    refine .inr ⟨hne, hx.resolve_left ?_⟩
    rintro rfl
    cases hspace
  · exact .inl hne

theorem upTo?_append {q : Char} {b : Text} (h : w.upTo? [q] = some b) (y : Text) :
    (w ++ y).upTo? [q] = some b := by
  induction w generalizing b with
  | nil => simp [upTo?] at h
  | cons c w ih =>
    by_cases hc : q = c
    · simpa [upTo?, hc] using h
    · obtain ⟨b', hb', rfl⟩ : ∃ b', upTo? w [q] = some b' ∧ c :: b' = b := by
        simpa [upTo?, hc] using h
      simp [upTo?, hc, ih hb']

theorem upTo?_append_of_none {q : Char} (h : w.upTo? [q] = none) (y : Text) :
    (w ++ y).upTo? [q] = (y.upTo? [q]).map (w ++ ·) := by
  induction w with
  | nil => simp
  | cons c w ih =>
    by_cases hc : q = c
    · simp [upTo?, hc] at h
    · have hw : upTo? w [q] = none := by simpa [upTo?, hc] using h
      simp [upTo?, hc, ih hw, Function.comp_def]

end Text

namespace Script

open Text

variable {x w : Text}

theorem digitAhead_append (h : w ≠ []) (y : Text) : digitAhead (w ++ y) = digitAhead w := by
  obtain ⟨a, t, rfl⟩ := List.exists_cons_of_ne_nil h
  rfl

theorem fractionAhead_append (h : Seam x w) (y : Text) : fractionAhead (w ++ y) = fractionAhead w := by
  obtain ⟨a, t, rfl⟩ := List.exists_cons_of_ne_nil h.ne_nil
  by_cases ha : a = '.'
  · subst ha
    exact digitAhead_append (h.of_cons (by decide)).ne_nil y
  · simp [fractionAhead, ha]

theorem sign_append (h : w ≠ []) (y : Text) : sign (w ++ y) = sign w := by
  obtain ⟨a, t, rfl⟩ := List.exists_cons_of_ne_nil h
  rfl

/-- Behind the sign of a number the seam is still ahead. -/
theorem seam_unsigned (h : Seam x w) : Seam x (unsigned w) := by
  obtain ⟨a, t, rfl⟩ := List.exists_cons_of_ne_nil h.ne_nil
  by_cases ha : a = '-'
  · subst ha
    exact h.of_cons (by decide)
  · simpa [unsigned, sign, ha] using h

theorem unsigned_append (h : w ≠ []) (y : Text) : unsigned (w ++ y) = unsigned w ++ y := by
  obtain ⟨a, t, rfl⟩ := List.exists_cons_of_ne_nil h
  by_cases ha : a = '-' <;> simp [unsigned, sign, ha]

theorem numberAhead_append (h : Seam x w) (y : Text) : numberAhead (w ++ y) = numberAhead w := by
  have hunsigned := seam_unsigned h
  rw [numberAhead, unsigned_append h.ne_nil, digitAhead_append hunsigned.ne_nil,
    fractionAhead_append hunsigned, numberAhead]

theorem interpolationAhead_append (h : Seam x w) (y : Text) :
    interpolationAhead (w ++ y) = interpolationAhead w := by
  obtain ⟨a, t, rfl⟩ := List.exists_cons_of_ne_nil h.ne_nil
  by_cases ha : a = '#'
  · subst ha
    obtain ⟨b, t, rfl⟩ := List.exists_cons_of_ne_nil (h.of_cons (by decide)).ne_nil
    by_cases hb : b = '{' <;> simp [interpolationAhead, hb]
  · simp [interpolationAhead, ha]

/-- A word ends in front of the seam, or the seam is a semicolon in a call. -/
theorem word_append (inCall : Bool) (h : Seam x w) :
    w.drop (word inCall w).length ≠ [] ∧ (∀ y, word inCall (w ++ y) = word inCall w) ∨
      word inCall w = w ∧ x = [] := by
  induction w with
  | nil => exact absurd rfl h.ne_nil
  | cons a w ih =>
    have hahead (y : Text) : interpolationAhead (a :: (w ++ y)) = interpolationAhead (a :: w) :=
      interpolationAhead_append h y
    by_cases hstop : (endsWord inCall a || interpolationAhead (a :: w)) = true
    · refine .inl ⟨?_, fun y => ?_⟩
      · simp [word, hstop]
      · simp only [List.cons_append, word, hahead y, hstop, if_true]
    · rcases h.cons with h | ⟨rfl, hseam, hx⟩
      · rcases ih h with ⟨hne, hy⟩ | ⟨hw, hx⟩
        · refine .inl ⟨?_, fun y => ?_⟩
          · simpa [word, hstop] using hne
          · simp only [List.cons_append, word, hahead y, hstop, hy y]
        · exact .inr ⟨by simp [word, hstop, hw], hx⟩
      · refine .inr ⟨by simp [word, hstop], hx.resolve_left ?_⟩
        rintro rfl
        exact hstop rfl

end Script

end StyleLex

import StyleLex.RuleShape
import StyleLex.Proofs.LiteralForms

/-!
# Shapes that later text does not change

A block stays a block with more text behind it. A declaration stays one if its end is in sight.
-/
namespace StyleLex

namespace RuleShape

variable {t u y : Text} {a q : Char}

theorem behind_append (h : q ∈ t) (y : Text) : behind q (t ++ y) = behind q t ++ y := by
  induction t with
  | nil => cases h
  | cons a t ih =>
    by_cases ha : a = q
    · simp [behind, ha]
    · have ht : q ∈ t := (List.mem_cons.1 h).resolve_left (Ne.symm ha)
      simpa [behind, ha] using ih ht

theorem behind_of_not_mem (h : q ∉ t) : behind q t = [] := by
  have hall : t.dropWhile (· ≠ q) = [] := by
    rw [List.dropWhile_eq_nil_iff]
    intro a ha
    simpa using fun heq : a = q => h (heq ▸ ha)
  rw [behind, hall, List.tail_nil]

theorem behind_split (h : q ∉ u) (t : Text) : behind q (u ++ q :: t) = t := by
  induction u with
  | nil => simp [behind]
  | cons a u ih =>
    rw [List.mem_cons, not_or] at h
    simpa [behind, Ne.symm h.1] using ih h.2

theorem behind_cons (h : a ≠ q) (t : Text) : behind q (a :: t) = behind q t := by
  simp [behind, h]

theorem behind_append_of_not_mem (h : q ∉ u) (t : Text) : behind q (u ++ t) = behind q t := by
  induction u with
  | nil => rfl
  | cons a u ih =>
    rw [List.mem_cons, not_or] at h
    rw [List.cons_append, behind_cons (Ne.symm h.1), ih h.2]

theorem ofText_interpolation (t : Text) : ofText ('#' :: '{' :: t) = ofText (behind '}' t) := by
  rw [ofText]
  simp [behind_cons]

theorem ofText_quote (h : isQuote q = true) (t : Text) : ofText (q :: t) = ofText (behind q t) := by
  simp only [isQuote, Bool.or_eq_true, decide_eq_true_eq] at h
  rw [ofText]
  rcases h with rfl | rfl <;> simp [isQuote]

theorem ofText_plain (open_ : a ≠ '{') (close : a ≠ '}') (semicolon : a ≠ ';')
    (quote : isQuote a = false) (hash : a = '#' → t.head? ≠ some '{') :
    ofText (a :: t) = ofText t := by
  rw [ofText]
  simp only [open_, close, semicolon, quote, or_self, if_false, Bool.false_eq_true]
  split
  case isTrue h => exact absurd h.2 (hash h.1)
  case isFalse => rfl

theorem ofText_of_end (h : a = ';' ∨ a = '}') (t : Text) : ofText (a :: t) = .declaration := by
  rw [ofText]
  rcases h with rfl | rfl <;> simp

theorem mem_of_behind (h : ofText (behind q t) = .block) : q ∈ t := by
  by_contra hq
  rw [behind_of_not_mem hq, ofText] at h
  cases h

/-- What makes a block is found in front of the text that is added. -/
theorem block_append (h : ofText t = .block) (y : Text) : ofText (t ++ y) = .block := by
  fun_induction ofText t with
  | case1 => cases h
  | case2 => rw [List.cons_append, ofText, if_pos rfl]
  | case3 => cases h
  | case4 a t _ _ hash ih =>
    obtain ⟨rfl, hopen⟩ := hash
    obtain ⟨t, rfl⟩ := List.head?_eq_some_iff.1 hopen
    have hmem := mem_of_behind h
    rw [List.cons_append, List.cons_append, ofText_interpolation, ← behind_cons (a := '{') (by decide),
      ← List.cons_append, behind_append hmem]
    exact ih h
  | case5 a t _ _ _ quote ih =>
    rw [List.cons_append, ofText_quote quote, behind_append (mem_of_behind h)]
    exact ih h
  | case6 a t open_ ends hash quote ih =>
    rw [not_or] at ends
    rw [List.cons_append, ofText_plain open_ ends.2 ends.1 (by simpa using quote)]
    · exact ih h
    · intro ha hhead
      cases t with
      | nil =>
        rw [ofText] at h
        cases h
      | cons b t => exact hash ⟨ha, hhead⟩

/-- A declaration whose end is in sight, whatever stands behind the text. -/
def Declares (t : Text) : Prop := ∀ y, ofText (t ++ y) = .declaration

theorem Declares.ne_nil (h : Declares t) : t ≠ [] := by
  rintro rfl
  have hblock := h ['{']
  rw [List.nil_append, ofText, if_pos rfl] at hblock
  cases hblock

theorem declares_of_end (h : a = ';' ∨ a = '}') (t : Text) : Declares (a :: t) :=
  fun _ => ofText_of_end h _

theorem Declares.head?_ne (h : Declares t) : t.head? ≠ some '{' := by
  intro hhead
  obtain ⟨u, rfl⟩ := List.head?_eq_some_iff.1 hhead
  have hblock := h []
  rw [List.append_nil, ofText, if_pos rfl] at hblock
  cases hblock

theorem Declares.cons (h : Declares t) (open_ : a ≠ '{') (quote : isQuote a = false) :
    Declares (a :: t) := by
  by_cases hend : a = ';' ∨ a = '}'
  · exact declares_of_end hend t
  · rw [not_or] at hend
    intro y
    rw [List.cons_append, ofText_plain open_ hend.2 hend.1 quote]
    · exact h y
    · obtain ⟨b, u, rfl⟩ := List.exists_cons_of_ne_nil h.ne_nil
      exact fun _ => h.head?_ne

theorem Declares.quoted (h : Declares t) (quote : isQuote q = true) (hu : q ∉ u) :
    Declares (q :: (u ++ q :: t)) := by
  intro y
  rw [List.cons_append, ofText_quote quote, List.append_assoc, List.cons_append, behind_split hu]
  exact h y

theorem declares_interpolation (hmem : '}' ∈ t) (h : Declares (behind '}' t)) :
    Declares ('#' :: '{' :: t) := by
  intro y
  rw [List.cons_append, List.cons_append, ofText_interpolation, behind_append hmem]
  exact h y

end RuleShape

end StyleLex

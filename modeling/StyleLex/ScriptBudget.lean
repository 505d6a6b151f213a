import StyleLex.StatementScripts

/-!
# A budget for scripts

A script that does not end the run leaves a smaller budget than the text and the modes it began with,
because it moves over text, closes a mode, or goes from a statement or a value to a state that must.
-/
namespace StyleLex

namespace State

/-- The budget of a state in front of `n` characters, with `d` modes open. -/
def budget : State → Nat → Nat → Nat
  | .done, _, _ => 0
  | .value, n, d => 5 * n + d + 4
  | .statement, n, d => 5 * n + d + 3
  | .atRule, n, d | .assignment, n, d | .property, n, d | .selector, n, d | .attribute, n, d
  | .pseudoArguments, n, d | .interpolation, n, d => 5 * n + d + 1

theorem budget_le (s : State) (n d : Nat) : s.budget n d ≤ 5 * n + d + 4 := by
  cases s <;> simp only [budget] <;> omega

end State

namespace Script

/-- The budget left behind a script, or more, if `n` characters were ahead and `d` modes open. -/
def left : Script → Nat → Nat → Nat
  | .skip t s, n, d => s.left (n - t.length) d
  | .emit _ t s, n, d => s.left (n - t.length) d
  | .enter _ s, n, d => s.left n (d + 1)
  | .leave s, n, d => s.left n (d - 1)
  | .note _ s, n, d => s.left n d
  | .goto s, n, d => s.budget n d
  | .resume, n, d => 5 * n + d + if d = 0 then 3 else 4
  | .fail _ _, _, _ => 0

theorem left_skipSpaces (rest : Text) (next : Text → Script) (d : Nat) :
    (skipSpaces rest next).left rest.length d =
      (next (rest.dropWhile isSpace)).left (rest.dropWhile isSpace).length d := by
  rw [skipSpaces, left, Text.length_sub_takeWhile]

variable {rest : Text} {next : Text → Script} {B d : Nat}

theorem left_sigil_lt (k : Kind) (c : Char) (hB : 0 < B)
    (h : ∀ r : Text, r.length ≤ rest.length → (next r).left r.length d < B) :
    (sigil k c rest next).left (rest.length + 1) d < B := by
  unfold sigil
  dsimp only
  split
  · simpa [left] using hB
  · have he : rest.length + 1 - (c :: rest.takeWhile isNameChar).length =
        (rest.dropWhile isNameChar).length := by
      rw [← Text.length_sub_takeWhile, List.length_cons]
      omega
    rw [left, he]
    exact h _ (Text.length_dropWhile_le _ _)

theorem left_quoted_lt (q : Char) (hB : 0 < B)
    (h : ∀ r : Text, r.length ≤ rest.length → (next r).left r.length d < B) :
    (quoted q rest next).left (rest.length + 1) d < B := by
  unfold quoted
  split
  · simpa [left] using hB
  · rename_i body _
    have he : rest.length + 1 - [q].length - body.length - [q].length =
        (rest.drop (body.length + 1)).length := by
      rw [List.length_drop, List.length_singleton]
      omega
    rw [left, left, left, he]
    exact h _ (by rw [List.length_drop]; omega)

theorem left_hexColor_lt (hB : 0 < B)
    (h : ∀ r : Text, r.length ≤ rest.length → (next r).left r.length d < B) :
    (hexColor rest next).left (rest.length + 1) d < B := by
  unfold hexColor
  dsimp only
  split
  · have he : rest.length + 1 - ('#' :: rest.takeWhile isNameChar).length =
        (rest.dropWhile isNameChar).length := by
      rw [← Text.length_sub_takeWhile, List.length_cons]
      omega
    rw [left, he]
    exact h _ (Text.length_dropWhile_le _ _)
  · simpa [left] using hB

theorem left_constant_lt (inCall : Bool) (hB : 0 < B)
    (h : ∀ r : Text, r.length < rest.length → (next r).left r.length d < B) :
    (constant inCall rest next).left rest.length d < B := by
  unfold constant
  dsimp only
  split
  · simpa [left] using hB
  · rename_i hw
    rw [left, ← List.length_drop]
    refine h _ ?_
    have hp := List.length_pos_iff.2 hw
    cases rest with
    | nil => exact absurd rfl hw
    | cons c t =>
      rw [List.length_drop, List.length_cons]
      omega

theorem left_unit_lt (hB : 0 < B)
    (h : ∀ r : Text, r.length ≤ rest.length → (next r).left r.length d < B) :
    (unit rest next).left rest.length d < B := by
  unfold unit
  split
  · rename_i t
    have := h t (by simp)
    simpa [left] using this
  · dsimp only
    split
    · exact h rest (Nat.le_refl _)
    · split
      · rw [left, Text.length_sub_takeWhile]
        exact h _ (Text.length_dropWhile_le _ _)
      · simpa [left] using hB

private theorem wholePart_pos (ha : numberAhead rest = true)
    (hp : ∀ t, rest.drop (wholePart rest).length = '.' :: t → False) :
    0 < (wholePart rest).length := by
  refine Nat.pos_of_ne_zero fun h0 => ?_
  have he := List.length_eq_zero_iff.1 h0
  rw [h0, List.drop_zero] at hp
  obtain ⟨hs, hd⟩ := List.append_eq_nil_iff.1 he
  rw [numberAhead, unsigned, hs, List.length_nil, List.drop_zero] at ha
  rw [unsigned, hs, List.length_nil, List.drop_zero] at hd
  cases rest with
  | nil => simp [digitAhead, fractionAhead] at ha
  | cons c t =>
    have hc : c.isDigit = false := by
      by_cases hc : c.isDigit
      · simp [hc] at hd
      · simpa using hc
    have hdot : c ≠ '.' := fun e => hp t (by rw [e])
    unfold fractionAhead at ha
    split at ha <;> simp_all [digitAhead]

theorem left_number_lt (ha : numberAhead rest = true) (hB : 0 < B)
    (h : ∀ r : Text, r.length < rest.length → (next r).left r.length d < B) :
    (number rest next).left rest.length d < B := by
  unfold number
  dsimp only
  split
  · rename_i t ht
    have hl := congrArg List.length ht
    rw [List.length_drop, List.length_cons] at hl
    split
    · simpa [left] using hB
    · have he : rest.length - (wholePart rest ++ '.' :: t.takeWhile Char.isDigit).length =
          (t.dropWhile Char.isDigit).length := by
        rw [← Text.length_sub_takeWhile, List.length_append, List.length_cons]
        omega
      rw [left, he]
      refine left_unit_lt hB fun r hr => h r ?_
      have := Text.length_dropWhile_le Char.isDigit t
      omega
  · rename_i hdot
    have hp := wholePart_pos ha hdot
    rw [left, ← List.length_drop]
    refine left_unit_lt hB fun r hr => h r ?_
    rw [List.length_drop] at hr
    cases rest with
    | nil => simp [numberAhead, unsigned, digitAhead, fractionAhead] at ha
    | cons c t => rw [List.length_cons] at *; omega

theorem left_goto_le (s : State) (n d : Nat) : (goto s).left n d ≤ 5 * n + d + 4 := s.budget_le n d

theorem left_resume_le (n d : Nat) : resume.left n d ≤ 5 * n + d + 4 := by
  rw [left]
  split <;> omega

end Script

end StyleLex

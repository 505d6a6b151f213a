import StyleLex.ScriptBudget

/-! # Values and interpolations spend their budget -/
namespace StyleLex.Script

variable {rest : Text} {B d : Nat}

/-- A component moves ahead, and opens at most one mode. -/
theorem left_component_lt (v : View) (after : State) (hB : 0 < B)
    (h : ∀ n, n < rest.length → 5 * n + d + 5 < B) :
    (component v after rest).left rest.length d < B := by
  have hgoto : ∀ n, n < rest.length → (goto after).left n d < B := fun n hn => by
    have := left_goto_le after n d
    have := h n hn
    omega
  unfold component
  split
  · simpa [left] using hB
  · rename_i c t
    rw [List.length_cons] at h hgoto
    have hle : ∀ r : Text, r.length ≤ t.length → (goto after).left r.length d < B :=
      fun r hr => hgoto _ (by omega)
    have hlt : ∀ r : Text, r.length < (c :: t).length → (goto after).left r.length d < B :=
      fun r hr => hgoto _ hr
    split
    · exact left_sigil_lt _ _ hB hle
    split
    · have := h (t.length - 1) (by omega)
      simp only [openInterpolation, left, State.budget, List.length_cons, List.length_nil]
      omega
    split
    · exact left_hexColor_lt hB hle
    split
    · exact left_quoted_lt _ hB hle
    split
    · exact hgoto _ (by simp)
    split
    · have := h t.length (by omega)
      simp only [left, State.budget, List.length_cons, List.length_nil]
      omega
    split
    · exact left_constant_lt _ hB hlt
    split
    · simpa [left] using hB
    split
    · rename_i hn
      exact left_number_lt hn hB hlt
    · exact left_constant_lt _ hB hlt

theorem left_value_lt (v : View) (d : Nat) :
    (value v).left v.rest.length d < 5 * v.rest.length + d + 4 := by
  have hl := Text.length_dropWhile_le isSpace v.rest
  rw [value, left_skipSpaces]
  generalize v.rest.dropWhile isSpace = rest at hl ⊢
  cases rest with
  | nil => simp [left]
  | cons c t =>
    rw [List.length_cons] at *
    dsimp only
    split
    · simp [left]
    split
    · have := left_resume_le t.length (d - 1)
      simp only [left, List.length_singleton, Nat.add_sub_cancel] at *
      omega
    split
    · simp [left]
    split
    · simp only [left]
      split <;> omega
    split
    · have := left_resume_le t.length (d - 1)
      simp only [left, List.length_singleton, Nat.add_sub_cancel] at *
      omega
    · refine left_component_lt v .value (by omega) fun n hn => ?_
      rw [List.length_cons] at hn
      omega

theorem left_closeInterpolation_le (v : View) (n d : Nat) :
    (closeInterpolation v).left n d ≤ 5 * (n - 1) + d + 4 := by
  have := left_resume_le (n - 1) (d - 1)
  unfold closeInterpolation
  split <;> simp only [left, List.length_singleton] at * <;> omega

theorem left_interpolation_lt (v : View) (d : Nat) :
    (interpolation v).left v.rest.length d < 5 * v.rest.length + d + 1 := by
  unfold interpolation
  split
  · split
    · simp [left]
    · rename_i body hb
      obtain ⟨r, hr⟩ := Text.upTo?_eq_append hb
      have hlen := congrArg List.length hr
      have := left_closeInterpolation_le v (v.rest.length - body.length) d
      simp only [List.length_append, List.length_singleton] at hlen
      rw [left]
      omega
  · have hl := Text.length_dropWhile_le isSpace v.rest
    rw [left_skipSpaces]
    generalize v.rest.dropWhile isSpace = rest at hl ⊢
    cases rest with
    | nil => simp [left]
    | cons c t =>
      rw [List.length_cons] at *
      dsimp only
      split
      · have := left_closeInterpolation_le v (t.length + 1) d
        omega
      · refine left_component_lt v .interpolation (by omega) fun n hn => ?_
        rw [List.length_cons] at hn
        omega

end StyleLex.Script

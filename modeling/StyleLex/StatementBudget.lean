import StyleLex.SelectorBudget

/-! # Statements, and so all states, spend their budget -/
namespace StyleLex.Script

theorem left_statement_lt (v : View) (d : Nat) :
    (statement v).left v.rest.length d < 5 * v.rest.length + d + 3 := by
  have hl := Text.length_dropWhile_le isSpace v.rest
  rw [statement, left_skipSpaces]
  generalize v.rest.dropWhile isSpace = rest at hl ⊢
  cases rest with
  | nil => dsimp only; split <;> simp [left, State.budget]
  | cons c t =>
    have hgo : ∀ n, n < t.length + 1 → (goto .statement).left n d < 5 * v.rest.length + d + 3 :=
      fun n hn => by
        rw [List.length_cons] at hl
        simp only [left, State.budget]
        omega
    rw [List.length_cons] at *
    dsimp only
    split
    · simp only [left, State.budget]; omega
    split
    · simp only [left, State.budget]; omega
    split
    · simp only [left, State.budget, List.length_cons, List.length_nil]; omega
    split
    · split
      · have := left_resume_le t.length (d - 1)
        simp only [left, List.length_singleton, Nat.add_sub_cancel] at *
        omega
      · simp [left]
    split
    · exact left_quoted_lt _ (by omega) fun r hr => hgo _ (by omega)
    split
    · rename_i hc
      exact left_number_lt (numberAhead_of_isDigit hc t) (by omega) fun r hr =>
        hgo _ (by simpa using hr)
    split
    · simp only [left, State.budget]; omega
    split
    · simp only [left, State.budget]; omega
    · simp [left]

theorem left_colon_le (rest : Text) (d : Nat) :
    (colon rest).left rest.length d ≤ 5 * rest.length + d := by
  have hl := Text.length_dropWhile_le isSpace rest
  rw [colon, left_skipSpaces]
  split
  · rename_i t ht
    rw [ht, List.length_cons] at hl
    rw [ht]
    simp only [left, State.budget, List.length_cons, List.length_nil]
    omega
  · simp [left]

theorem left_atRule_lt (v : View) (d : Nat) :
    (atRule v).left v.rest.length d < 5 * v.rest.length + d + 1 := by
  unfold atRule
  cases v.rest with
  | nil => simp [left]
  | cons c t =>
    dsimp only
    split
    · rename_i k hk
      have hne : t.takeWhile isNameChar ≠ [] := fun e => by rw [e] at hk; simp [atKeyword?] at hk
      have hpos := List.length_pos_iff.2 hne
      have hn := Text.length_sub_takeWhile isNameChar t
      have hl := Text.length_dropWhile_le isNameChar t
      simp only [left, State.budget, List.length_cons]
      omega
    · simp [left]

theorem left_assignment_lt (v : View) (d : Nat) :
    (assignment v).left v.rest.length d < 5 * v.rest.length + d + 1 := by
  unfold assignment
  cases v.rest with
  | nil => simp [left]
  | cons c t =>
    rw [List.length_cons]
    exact left_sigil_lt _ _ (by omega) fun r hr => by
      have := left_colon_le r d
      omega

theorem left_property_lt (v : View) (d : Nat) :
    (property v).left v.rest.length d < 5 * v.rest.length + d + 1 := by
  unfold property
  cases v.rest with
  | nil => simp [left]
  | cons c t =>
    dsimp only
    split
    · have := left_colon_le (t.dropWhile isNameChar) d
      have := Text.length_dropWhile_le isNameChar t
      rw [left, List.length_cons, List.length_cons, Nat.add_sub_add_right, Text.length_sub_takeWhile]
      omega
    · simp [left]

/-- Every state but the last one spends some of its budget. -/
theorem left_ofState_lt {s : State} (hs : s ≠ .done) (v : View) (d : Nat) :
    (ofState s v).left v.rest.length d < s.budget v.rest.length d := by
  cases s with
  | statement => exact left_statement_lt v d
  | atRule => exact left_atRule_lt v d
  | assignment => exact left_assignment_lt v d
  | property => exact left_property_lt v d
  | selector => exact left_selector_lt v d
  | «attribute» => exact left_attributeGroup_lt v d
  | pseudoArguments => exact left_pseudoArguments_lt v d
  | value => exact left_value_lt v d
  | interpolation => exact left_interpolation_lt v d
  | done => exact absurd rfl hs

end StyleLex.Script

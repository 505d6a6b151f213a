import StyleLex.ValueBudget

/-! # Selectors spend their budget -/
namespace StyleLex.Script

theorem left_pseudoName_lt (colons rest : Text) (hc : colons ≠ []) (d : Nat) :
    (pseudoName colons rest).left (colons.length + rest.length) d <
      5 * (colons.length + rest.length) + d + 1 := by
  have hn := Text.length_sub_takeWhile isNameChar rest
  have hname := Text.length_dropWhile_le isNameChar rest
  have hpos := List.length_pos_iff.2 hc
  unfold pseudoName
  dsimp only
  split
  · simp [left]
  · rw [left, noteSimple, left, List.length_append, Nat.add_sub_add_left, hn]
    split <;> simp only [left, State.budget, List.length_cons, List.length_nil] <;> omega

theorem left_pseudo_lt (t : Text) (d : Nat) :
    (pseudo t).left (t.length + 1) d < 5 * (t.length + 1) + d + 1 := by
  unfold pseudo
  split
  · rename_i t
    have := left_pseudoName_lt [':', ':'] t (by simp) d
    simpa [Nat.add_comm, Nat.add_left_comm] using this
  · have := left_pseudoName_lt [':'] t (by simp) d
    simpa [Nat.add_comm] using this

theorem left_simpleSelector_lt (c : Char) (t : Text) (d : Nat) :
    (simpleSelector c t).left (t.length + 1) d < 5 * (t.length + 1) + d + 1 := by
  have hsigil : ∀ k, (sigil k c t fun _ => noteSimple k (goto .selector)).left (t.length + 1) d <
      5 * (t.length + 1) + d + 1 := fun k =>
    left_sigil_lt k c (by omega) fun r hr => by
      simp only [noteSimple, left, State.budget]
      omega
  unfold simpleSelector
  split
  · simp only [left, State.budget, List.length_cons, List.length_nil]
    omega
  split
  · exact left_pseudo_lt t d
  split
  · exact hsigil _
  split
  · exact hsigil _
  split
  · simp only [noteSimple, left, State.budget, List.length_cons, List.length_nil]
    omega
  split <;>
  · simp only [noteSimple, left, State.budget, List.length_cons]
    omega

theorem left_compoundPart_lt (v : View) (c : Char) (t : Text) (d : Nat) :
    (compoundPart v c t).left (t.length + 1) d < 5 * (t.length + 1) + d + 1 := by
  have hs := left_simpleSelector_lt c t d
  unfold compoundPart
  split
  · simp only [openInterpolation, left, State.budget, List.length_cons, List.length_nil]
    omega
  split
  · simp only [noteSimple, left, State.budget, List.length_cons]
    omega
  split
  · unfold glue
    split
    · simpa [left] using hs
    · exact hs
  · simp [left]

theorem left_selector_lt (v : View) (d : Nat) :
    (selector v).left v.rest.length d < 5 * v.rest.length + d + 1 := by
  have hn := Text.length_sub_takeWhile isSpace v.rest
  have hl := Text.length_dropWhile_le isSpace v.rest
  unfold selector
  dsimp only
  generalize v.rest.dropWhile isSpace = rest at hn hl ⊢
  cases rest with
  | nil => simp [left]
  | cons c t =>
    rw [List.length_cons] at *
    dsimp only
    split
    · have ht := Text.length_dropWhile_le isSpace t
      rw [left, left, hn, List.length_singleton, Nat.add_sub_cancel, left_skipSpaces]
      simp only [left, State.budget]
      omega
    split
    · rw [left, hn]
      simp only [left, State.budget, List.length_cons, List.length_nil]
      omega
    split
    · rw [left, hn]
      simp only [left, State.budget, List.length_cons, List.length_nil]
      omega
    split
    · rename_i hb
      have := List.length_pos_iff.2 hb.1
      rw [left, hn]
      simp only [left, State.budget]
      omega
    · have := left_compoundPart_lt v c t d
      rw [left, hn]
      omega

theorem left_attributeEnd_le (v : View) (rest : Text) (d : Nat) :
    (attributeEnd v rest).left rest.length d ≤ 5 * rest.length + d := by
  unfold attributeEnd
  split
  · simp only [left, State.budget, List.length_cons, List.length_nil]
    omega
  · simp [left]

theorem left_attributeValue_le (v : View) (rest : Text) (d : Nat) :
    (attributeValue v rest).left rest.length d ≤ 5 * rest.length + d := by
  have hend : ∀ r : Text, (skipSpaces r (attributeEnd v)).left r.length d ≤ 5 * r.length + d :=
    fun r => by
      have := left_attributeEnd_le v (r.dropWhile isSpace) d
      have := Text.length_dropWhile_le isSpace r
      rw [left_skipSpaces]
      omega
  unfold attributeValue
  dsimp only
  split
  · simp [left]
  · rename_i c t
    split
    · refine Nat.le_of_lt_succ (left_quoted_lt _ (by omega) fun r hr => ?_)
      have := hend r
      rw [List.length_cons]
      omega
    split
    · simp [left]
    · have := hend ((c :: t).dropWhile isUnquotedChar)
      have := Text.length_dropWhile_le isUnquotedChar (c :: t)
      rw [left, Text.length_sub_takeWhile]
      omega

theorem left_attributeTest_le (v : View) (rest : Text) (d : Nat) :
    (attributeTest v rest).left rest.length d ≤ 5 * rest.length + d := by
  unfold attributeTest
  split
  · exact left_attributeEnd_le v rest d
  · rename_i text kind _
    have := left_attributeValue_le v ((rest.drop text.length).dropWhile isSpace) d
    have := Text.length_dropWhile_le isSpace (rest.drop text.length)
    have hd : (rest.drop text.length).length ≤ rest.length := by rw [List.length_drop]; omega
    rw [left, ← List.length_drop, left_skipSpaces]
    omega

theorem left_attributeGroup_lt (v : View) (d : Nat) :
    (attributeGroup v).left v.rest.length d < 5 * v.rest.length + d + 1 := by
  have hl := Text.length_dropWhile_le isSpace v.rest
  rw [attributeGroup, left_skipSpaces]
  generalize v.rest.dropWhile isSpace = rest at hl ⊢
  dsimp only
  split
  · simp [left]
  · have := left_attributeTest_le v ((rest.dropWhile isNameChar).dropWhile isSpace) d
    have := Text.length_dropWhile_le isSpace (rest.dropWhile isNameChar)
    have := Text.length_dropWhile_le isNameChar rest
    rw [left, Text.length_sub_takeWhile, left_skipSpaces]
    omega

private theorem length_upToClosing_lt {depth : Nat} {t s : Text}
    (h : upToClosing depth t = some s) : s.length < t.length := by
  induction t generalizing depth s with
  | nil => simp [upToClosing] at h
  | cons c t ih =>
    unfold upToClosing at h
    split at h
    · split at h
      · simp_all
      · obtain ⟨u, hu, rfl⟩ := Option.map_eq_some_iff.1 h
        simpa using ih hu
    split at h <;>
    · obtain ⟨u, hu, rfl⟩ := Option.map_eq_some_iff.1 h
      simpa using ih hu

theorem left_closeArguments_le (v : View) (n d : Nat) :
    (closeArguments v).left n d ≤ 5 * (n - 1) + d + 4 := by
  have := left_resume_le (n - 1) (d - 1)
  simp only [closeArguments, left, List.length_singleton] at *
  omega

theorem left_pseudoArguments_lt (v : View) (d : Nat) :
    (pseudoArguments v).left v.rest.length d < 5 * v.rest.length + d + 1 := by
  unfold pseudoArguments
  split
  · simp [left]
  · rename_i h
    have := length_upToClosing_lt h
    have := left_closeArguments_le v v.rest.length d
    simp only [List.length_nil] at *
    omega
  · rename_i arguments _ h
    have := length_upToClosing_lt h
    have := left_closeArguments_le v (v.rest.length - arguments.length) d
    rw [left]
    omega

end StyleLex.Script

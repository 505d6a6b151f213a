import StyleLex.Proofs.ShapesInBytes

/-!
# What stands in front of the brace of a nested rule

In front of the character that tells the shape of a rule, the text splits into single characters, quoted
strings and interpolations.
-/
namespace StyleLex.RuleShape

variable {behind p r t : Text} {d : Char}

/-- A piece of text that is passed over as a whole in front of the text `behind`. -/
inductive Piece (behind : Text) : Text → Prop where
  | single {a : Char} (plain : a ∉ ['{', '}', ';', '"', '\''])
      (hash : a = '#' → behind.head? ≠ some '{') : Piece behind [a]
  | quoted {q : Char} {body : Text} (quote : q = '"' ∨ q = '\'') (first : q ∉ body) :
      Piece behind (q :: (body ++ [q]))
  | interpolation {body : Text} (first : '}' ∉ body) :
      Piece behind ('#' :: '{' :: (body ++ ['}']))

/-- The text splits into pieces in front of the character `d`. -/
inductive Pieces (d : Char) : Text → Prop where
  | nil : Pieces d []
  | cons {w t : Text} (piece : Piece (t ++ [d]) w) (pieces : Pieces d t) : Pieces d (w ++ t)

/-- A piece in front of `t` does not count for the shape. -/
theorem Piece.ofText_append (h : Piece behind p) (hhead : t.head? = behind.head?) :
    ofText (p ++ t) = ofText t := by
  cases h with
  | single plain hash =>
    simp only [List.mem_cons, List.not_mem_nil, or_false, not_or] at plain
    obtain ⟨brace, close, semicolon, double, single⟩ := plain
    refine ofText_plain brace close semicolon (by simp [isQuote, double, single]) fun ha => ?_
    change t.head? ≠ some '{'
    rw [hhead]
    exact hash ha
  | quoted quote first =>
    rw [List.cons_append, ofText_quote (by simpa [isQuote] using quote), List.append_assoc,
      List.singleton_append, behind_split first]
  | interpolation first =>
    rw [List.cons_append, List.cons_append, ofText_interpolation, List.append_assoc,
      List.singleton_append, behind_split first]

theorem Pieces.ofText_append (h : Pieces d p) (u : Text) :
    ofText (p ++ d :: u) = ofText (d :: u) := by
  induction h with
  | nil => rfl
  | @cons w t piece _ ih =>
    have hhead : (t ++ d :: u).head? = (t ++ [d]).head? := by cases t <;> rfl
    rw [List.append_assoc, piece.ofText_append hhead, ih]

/-- A text that opens a block has an opening brace behind a number of pieces. -/
theorem exists_pieces (h : ofText r = .block) : ∃ p u, r = p ++ '{' :: u ∧ Pieces '{' p := by
  fun_induction ofText r with
  | case1 => cases h
  | case2 t => exact ⟨[], t, rfl, .nil⟩
  | case3 => cases h
  | case4 a t _ _ hash ih =>
    obtain ⟨rfl, hopen⟩ := hash
    obtain ⟨t, rfl⟩ := List.head?_eq_some_iff.1 hopen
    rw [behind_cons (by decide)] at h ih
    obtain ⟨body, v, rfl, first⟩ := List.eq_append_cons_of_mem (mem_of_behind h)
    rw [behind_split first] at h ih
    obtain ⟨p, u, rfl, pieces⟩ := ih h
    exact ⟨_, u, by simp, .cons (.interpolation first) pieces⟩
  | case5 q t _ _ _ quote ih =>
    obtain ⟨body, v, rfl, first⟩ := List.eq_append_cons_of_mem (mem_of_behind h)
    rw [behind_split first] at h ih
    obtain ⟨p, u, rfl, pieces⟩ := ih h
    exact ⟨_, u, by simp, .cons (.quoted (by simpa [isQuote] using quote) first) pieces⟩
  | case6 a t brace ends hash quote ih =>
    obtain ⟨p, u, rfl, pieces⟩ := ih h
    rw [not_or] at ends
    have hhead : (p ++ ['{']).head? = (p ++ '{' :: u).head? := by cases p <;> rfl
    have hquote : a ≠ '"' ∧ a ≠ '\'' := by simpa [isQuote] using quote
    have hsingle : Piece (p ++ ['{']) [a] :=
      .single (by simp [brace, ends, hquote]) fun ha hopen => hash ⟨ha, hhead ▸ hopen⟩
    exact ⟨a :: p, u, rfl, .cons hsingle pieces⟩

/-- A text opens a block if a brace stands in it behind a number of pieces, and else it declares. Its
bytes tell the same, and every slice that is taken of them is in range. What the bytes of other than
ASCII characters are makes no difference, and neither does what stands behind the brace or the
semicolon that ends the search. -/
theorem shape_by_pieces (r : Text) :
    r.utf8.shape? = some (ofText r) ∧
      (ofText r = .block ↔ ∃ p u, r = p ++ '{' :: u ∧ Pieces '{' p) ∧
      (ofText r = .declaration ↔ ¬ ∃ p u, r = p ++ '{' :: u ∧ Pieces '{' p) ∧
      (∀ b : Bytes, List.Forall₂ Bytes.Alike r.utf8 b → b.shape? = some (ofText r)) ∧
      ∀ p d u, r = p ++ d :: u → d ∈ ['{', ';', '}'] → Pieces d p →
        ∀ u', ofText (p ++ d :: u') = ofText r := by
  have hbytes : r.utf8.shape? = some (ofText r) := Bytes.shapeFrom?_utf8 [] r
  have hblock : ofText r = .block ↔ ∃ p u, r = p ++ '{' :: u ∧ Pieces '{' p := by
    refine ⟨exists_pieces, ?_⟩
    rintro ⟨p, u, rfl, pieces⟩
    rw [pieces.ofText_append, ofText, if_pos rfl]
  refine ⟨hbytes, hblock, ?_, ?_, ?_⟩
  · rw [← hblock]
    cases ofText r <;> simp
  · intro b halike
    rw [← hbytes]
    exact Bytes.shapeFrom?_alike halike 0
  · rintro p d u rfl hd pieces u'
    rw [pieces.ofText_append, pieces.ofText_append]
    simp only [List.mem_cons, List.not_mem_nil, or_false] at hd
    rcases hd with rfl | hend
    · rw [ofText, ofText, if_pos rfl, if_pos rfl]
    · rw [ofText_of_end hend, ofText_of_end hend]

end StyleLex.RuleShape

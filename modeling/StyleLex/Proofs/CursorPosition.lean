import StyleLex.Cursor

/-!
# Where the pending lexeme stands

Both ends of the pending lexeme have the byte offset and the line of their place in the text.
-/
namespace StyleLex.Cursor

/-- The pending lexeme stands in `source` right behind `before`. -/
structure Stands (source before : Text) (c : Cursor) : Prop where
  split : source = before ++ (c.lexeme ++ c.rest)
  start : c.start = before.byteSize
  startLine : c.startLine = 1 + before.newlines
  pos : c.pos = (before ++ c.lexeme).byteSize
  line : c.line = 1 + (before ++ c.lexeme).newlines

theorem stands_ofText (source : Text) : (ofText source).Stands source [] where
  split := rfl
  start := rfl
  startLine := rfl
  pos := rfl
  line := rfl

variable {source before t tail : Text} {c : Cursor}

theorem Stands.pos_le (h : c.Stands source before) : c.pos ≤ source.byteSize := by
  rw [h.pos, h.split, ← List.append_assoc, Text.byteSize_append (before ++ c.lexeme)]
  exact Nat.le_add_right _ _

@[simp] theorem lexeme_advance (t : Text) (c : Cursor) : (c.advance t).lexeme = c.lexeme ++ t := by
  simp [lexeme, advance]

@[simp] theorem lexeme_ignore (c : Cursor) : c.ignore.lexeme = [] := rfl

theorem Stands.advance (h : c.Stands source before) (ahead : c.rest = t ++ tail) :
    (c.advance t).Stands source before where
  split := by
    rw [h.split, lexeme_advance, rest_advance, ahead, List.drop_left, List.append_assoc]
  start := h.start
  startLine := h.startLine
  pos := by
    have hpos : (c.advance t).pos = c.pos + t.byteSize := rfl
    rw [hpos, h.pos, lexeme_advance, ← List.append_assoc, Text.byteSize_append _ t]
  line := by
    have hline : (c.advance t).line = c.line + t.newlines := rfl
    rw [hline, h.line, lexeme_advance, ← List.append_assoc, Text.newlines_append _ t, Nat.add_assoc]

theorem Stands.ignore (h : c.Stands source before) :
    c.ignore.Stands source (before ++ c.lexeme) where
  split := by
    rw [lexeme_ignore, rest_ignore, List.nil_append, List.append_assoc]
    exact h.split
  start := h.pos
  startLine := h.line
  pos := by
    rw [lexeme_ignore, List.append_nil]
    exact h.pos
  line := by
    rw [lexeme_ignore, List.append_nil]
    exact h.line

/-- Nothing is said about what may be unread. -/
theorem Stands.withUnread (h : c.Stands source before) (b : Bool) :
    ({ c with unread := b } : Cursor).Stands source before :=
  ⟨h.split, h.start, h.startLine, h.pos, h.line⟩

theorem Stands.next (h : c.Stands source before) : c.next.2.Stands source before := by
  rw [Cursor.next]
  split
  case h_1 => exact h.withUnread false
  case h_2 a tail ahead => exact (Stands.advance (t := [a]) h ahead).withUnread true

theorem Stands.accept (h : c.Stands source before) (set : Text) :
    (c.accept set).2.Stands source before := by
  rw [Cursor.accept]
  split
  · exact h.next
  · exact h

theorem Stands.eatText (h : c.Stands source before) (t : Text) :
    (c.eatText t).2.Stands source before := by
  rw [Cursor.eatText]
  split
  case isTrue hahead =>
    obtain ⟨tail, ahead⟩ := List.isPrefixOf_iff_prefix.1 hahead
    exact (h.advance ahead.symm).withUnread false
  case isFalse => exact h

theorem Stands.eatWhile (h : c.Stands source before) (p : Char → Bool) :
    (c.eatWhile p).2.Stands source before :=
  (h.advance List.takeWhile_append_dropWhile.symm).withUnread _

theorem Stands.til (h : c.Stands source before) (d : Text) : (c.til d).2.Stands source before := by
  rw [Cursor.til]
  split
  case h_1 => exact h
  case h_2 t ht =>
    obtain ⟨tail, ahead⟩ := Text.upTo?_eq_append ht
    rw [List.append_assoc] at ahead
    exact (h.advance ahead).withUnread false

section Last

variable {a : Char} {p : Text}

/-! The last character of the pending lexeme ends where the cursor stands. -/

theorem Stands.split_last (h : c.Stands source before) (last : c.pending = a :: p) :
    source = before ++ p.reverse ++ a :: c.rest := by
  rw [h.split, lexeme, last, List.reverse_cons, List.append_assoc, List.append_assoc,
    List.singleton_append]

theorem Stands.pos_last (h : c.Stands source before) (last : c.pending = a :: p) :
    c.pos = (before ++ p.reverse).byteSize + a.utf8Size := by
  rw [h.pos, lexeme, last, List.reverse_cons, ← List.append_assoc, Text.byteSize_append,
    Text.byteSize_cons, Text.byteSize_nil, Nat.add_zero]

theorem Stands.line_last (h : c.Stands source before) (last : c.pending = a :: p) :
    c.line = 1 + (before ++ p.reverse).newlines + Text.newlines [a] := by
  rw [h.line, lexeme, last, List.reverse_cons, ← List.append_assoc, Text.newlines_append _ [a],
    Nat.add_assoc]

theorem backup_of_unread (unread : c.unread = true) (last : c.pending = a :: p) :
    c.backup = (true, { c with
      rest := a :: c.rest
      pending := p
      pos := c.pos - a.utf8Size
      line := c.line - Text.newlines [a]
      unread := false }) := by
  rw [Cursor.backup, unread, last]

end Last

/-- The character that is unread goes back to the text ahead. -/
theorem Stands.backup (h : c.Stands source before) : c.backup.2.Stands source before := by
  rw [Cursor.backup]
  split
  case h_1 a p _ last =>
    exact {
      split := by
        rw [h.split_last last, List.append_assoc]
        rfl
      start := h.start
      startLine := h.startLine
      pos := Nat.sub_eq_of_eq_add (h.pos_last last)
      line := Nat.sub_eq_of_eq_add (h.line_last last) }
  case h_2 => exact h

end StyleLex.Cursor

import StyleLex.Proofs.CursorPosition
import StyleLex.Proofs.Utf8Text

/-!
# Cursors keep their places

A cursor over bytes stands where the cursor over text stands. The size that it remembers is that of the
last character of the pending lexeme, or cannot be used. So none of its slices, indices and differences
is out of range, and its offsets are always boundaries.
-/
namespace StyleLex

variable {β : Type} {source before t tail : Text} {a : Char} {c : Cursor} {b : ByteCursor}

/-- What an offset and a line say of the text in front of them. -/
structure Place (source : Text) (offset line : Nat) : Prop where
  le : offset ≤ source.byteSize
  boundary : source.utf8.isBoundary offset = true
  line : line = 1 + Bytes.newlines (source.utf8.take offset)

/-- The cursor behind characters that are read one by one. -/
def ByteCursor.readAll (t : Text) (b : ByteCursor) : ByteCursor := t.foldl (fun b a => b.pass a) b

theorem place_behind (t u : Text) : Place (t ++ u) t.byteSize (1 + t.newlines) where
  le := by simp
  boundary := Bytes.isBoundary_utf8.2 ⟨t, u, rfl, rfl⟩
  line := by rw [Text.utf8_append, ← Text.length_utf8 t, List.take_left, Text.newlines_utf8]

namespace Cursor

/-- Both ends of the pending lexeme have their places, and the cursor knows the end of the source. -/
structure Sound (source : Text) (c : Cursor) : Prop where
  start_le : c.start ≤ c.pos
  start : Place source c.start c.startLine
  pos : Place source c.pos c.line
  eof : c.isEof = true ↔ c.pos = source.byteSize

theorem Stands.sound (h : c.Stands source before) : c.Sound source := by
  have hsplit : source = before ++ c.lexeme ++ c.rest := by rw [h.split, List.append_assoc]
  refine ⟨?_, ?_, ?_, ?_⟩
  · rw [h.start, h.pos, Text.byteSize_append]
    exact Nat.le_add_right _ _
  · rw [h.start, h.startLine, h.split]
    exact place_behind before _
  · rw [h.pos, h.line, hsplit]
    exact place_behind (before ++ c.lexeme) _
  · rw [isEof, List.isEmpty_iff, h.pos, hsplit, Text.byteSize_append (before ++ c.lexeme)]
    rw [← Text.byteSize_eq_zero]
    omega

/-- What the remembered size is to the pending lexeme. A size that is left over from a lexeme that was
dropped would lead to a place in front of the pending one. -/
inductive Slot (c : Cursor) : Nat → Prop where
  | full {a : Char} {p : Text} (unread : c.unread = true) (last : c.pending = a :: p) :
      Slot c a.utf8Size
  | empty (unread : c.unread = false) : Slot c 0
  | left {n : Nat} (unread : c.unread = false) (dropped : c.pending = []) (le : n ≤ c.pos) : Slot c n

/-- The cursor over bytes stands where the cursor over text does. -/
structure Matches (source : Text) (c : Cursor) (b : ByteCursor) : Prop where
  stands : ∃ before, c.Stands source before
  source : b.source = source.utf8
  start : b.start = c.start
  startLine : b.startLine = c.startLine
  pos : b.pos = c.pos
  line : b.line = c.line
  slot : c.Slot b.lastWidth

/-- A part of an operation has a result, and it is that of the cursor over text. -/
def Agrees (source : Text) (r : Option (β × ByteCursor)) (r' : β × Cursor) : Prop :=
  ∃ b, r = some (r'.1, b) ∧ r'.2.Matches source b

theorem matches_ofText (source : Text) : (ofText source).Matches source (.ofText source) :=
  ⟨⟨[], stands_ofText source⟩, rfl, rfl, rfl, rfl, rfl, .empty rfl⟩

theorem Stands.start_eq_pos (h : c.Stands source before) (dropped : c.pending = []) :
    c.start = c.pos := by
  rw [h.start, h.pos, lexeme, dropped, List.reverse_nil, List.append_nil]

theorem Slot.ignore {n : Nat} (h : c.Slot n) (hs : c.Stands source before) : c.ignore.Slot n := by
  refine .left rfl rfl ?_
  change n ≤ c.pos
  cases h with
  | full _ last =>
    have hpos := hs.pos_last last
    omega
  | empty => exact Nat.zero_le _
  | left _ _ le => exact le

namespace Matches

theorem rest? (h : c.Matches source b) : b.rest? = some c.rest.utf8 := by
  obtain ⟨before, hs⟩ := h.stands
  have hsplit : source = before ++ c.lexeme ++ (c.rest ++ []) := by
    rw [hs.split, List.append_nil, List.append_assoc]
  have hslice := Bytes.slice?_utf8 (before ++ c.lexeme) c.rest []
  rw [← hsplit, ← hs.pos] at hslice
  rw [ByteCursor.rest?, h.source, h.pos, Text.length_utf8, ← hslice, hs.split, List.append_assoc]

theorem lexeme? (h : c.Matches source b) : b.lexeme? = some c.lexeme.utf8 := by
  obtain ⟨before, hs⟩ := h.stands
  have hslice := Bytes.slice?_utf8 before c.lexeme c.rest
  rw [← hs.split, ← hs.start, ← hs.pos] at hslice
  rw [ByteCursor.lexeme?, h.source, h.start, h.pos, hslice]

theorem peek? (h : c.Matches source b) : b.peek? = some c.peek := by
  rw [ByteCursor.peek?, h.rest?, Option.bind_some, Bytes.first?_utf8, List.head?_eq_getElem?, peek]

theorem peekSecond? (h : c.Matches source b) : b.peekSecond? = some c.peekSecond := by
  rw [ByteCursor.peekSecond?, h.rest?, Option.bind_some, Bytes.second?_utf8, peekSecond]

theorem startsWith? (h : c.Matches source b) (t : Text) :
    b.startsWith? t = some (c.startsWith t) := by
  rw [ByteCursor.startsWith?, h.rest?, Option.map_some, Bytes.isPrefixOf_utf8, startsWith]

/-- Nothing can be unread after the cursor moved over a text. -/
theorem advance (h : c.Matches source b) (ahead : c.rest = t ++ tail) :
    ({ c.advance t with unread := false } : Cursor).Matches source (b.advance t.utf8) := by
  obtain ⟨before, hs⟩ := h.stands
  refine ⟨⟨before, (hs.advance ahead).withUnread false⟩, h.source, h.start, h.startLine, ?_, ?_,
    .empty rfl⟩
  · simp [ByteCursor.advance, Cursor.advance, h.pos]
  · simp [ByteCursor.advance, Cursor.advance, h.line]

theorem pass (h : c.Matches source b) (ahead : c.rest = a :: tail) :
    c.next.2.Matches source (b.pass a) := by
  obtain ⟨before, hs⟩ := h.stands
  have hnext : c.next.2 = { c.advance [a] with unread := true } := by rw [Cursor.next, ahead]
  rw [hnext]
  have hstands := (Stands.advance (t := [a]) hs ahead).withUnread true
  refine ⟨⟨before, hstands⟩, h.source, h.start, h.startLine, ?_, ?_, .full rfl rfl⟩
  · simp [ByteCursor.pass, Cursor.advance, h.pos]
  · rw [ByteCursor.pass, h.line]
    by_cases ha : a = '\n' <;> simp [ha, Cursor.advance, Text.newlines_cons]

theorem next?_of_cons (h : c.Matches source b) (ahead : c.rest = a :: tail) :
    b.next? = some (some a, b.pass a) := by
  rw [ByteCursor.next?, h.peek?, peek, ahead]
  rfl

theorem next? (h : c.Matches source b) : Agrees source b.next? c.next := by
  cases hrest : c.rest with
  | nil =>
    obtain ⟨before, hs⟩ := h.stands
    have hnext : c.next = (none, { c with unread := false }) := by rw [Cursor.next, hrest]
    rw [Agrees, ByteCursor.next?, h.peek?, peek, hrest, hnext]
    exact ⟨_, rfl, ⟨before, hs.withUnread false⟩, h.source, h.start, h.startLine, h.pos, h.line,
      .empty rfl⟩
  | cons a tail =>
    have hanswer : c.next.1 = some a := by rw [Cursor.next, hrest]
    rw [Agrees, h.next?_of_cons hrest, hanswer]
    exact ⟨_, rfl, h.pass hrest⟩

theorem accept? (h : c.Matches source b) (set : Text) :
    Agrees source (b.accept? set) (c.accept set) := by
  obtain ⟨b', hnext, h'⟩ := h.next?
  rw [Agrees, ByteCursor.accept?, h.peek?, hnext, Cursor.accept]
  simp only [Option.bind_eq_bind, Option.bind_some]
  cases hset : c.peek.any set.contains with
  | true => exact ⟨b', rfl, h'⟩
  | false => exact ⟨b, rfl, h⟩

theorem eatText? (h : c.Matches source b) (t : Text) :
    Agrees source (b.eatText? t) (c.eatText t) := by
  rw [Agrees, ByteCursor.eatText?, h.startsWith?, Cursor.eatText]
  simp only [Option.bind_eq_bind, Option.bind_some]
  cases ht : c.startsWith t with
  | true =>
    obtain ⟨tail, ahead⟩ := List.isPrefixOf_iff_prefix.1 ht
    exact ⟨_, rfl, h.advance ahead.symm⟩
  | false => exact ⟨b, rfl, h⟩

/-- The search among bytes stops where the search among characters does. -/
theorem til? (h : c.Matches source b) (d : Text) : Agrees source (b.til? d) (c.til d) := by
  rw [Agrees, ByteCursor.til?, h.rest?, Cursor.til]
  simp only [Option.bind_eq_bind, Option.bind_some, Bytes.find?_utf8]
  cases hfound : c.rest.upTo? d with
  | none => exact ⟨b, rfl, h⟩
  | some t =>
    obtain ⟨tail, ahead⟩ := Text.upTo?_eq_append hfound
    rw [List.append_assoc] at ahead
    have htake : Bytes.take? c.rest.utf8 t.byteSize = some t.utf8 := by
      rw [Bytes.take?, ahead, Text.utf8_append, ← Text.length_utf8 t, List.take_left]
      simp
    have hmatches := h.advance ahead
    simp only [Option.map_some, htake, Option.bind_some]
    refine ⟨b.advance t.utf8, ?_, hmatches⟩
    rw [hmatches.pos]
    rfl

theorem ignore (h : c.Matches source b) : c.ignore.Matches source b.ignore := by
  obtain ⟨before, hs⟩ := h.stands
  exact ⟨⟨_, hs.ignore⟩, h.source, h.pos, h.line, h.pos, h.line, h.slot.ignore hs⟩

/-- Characters that are read one by one leave the last of them to be unread. -/
theorem readAll (h : c.Matches source b) (ahead : c.rest = t ++ tail) :
    ({ c.advance t with unread := c.unread || !t.isEmpty } : Cursor).Matches source
      (b.readAll t) := by
  induction t generalizing c b with
  | nil =>
    have hstays : ({ c.advance [] with unread := c.unread || false } : Cursor) = c := by simp
    rw [← hstays] at h
    exact h
  | cons a t ih =>
    have hrest : c.rest = a :: (t ++ tail) := ahead
    have hnext : ({ c.advance (a :: t) with unread := c.unread || true } : Cursor) =
        { c.next.2.advance t with unread := c.next.2.unread || !t.isEmpty } := by
      simp [next, hrest, Cursor.advance, Text.newlines_cons, Nat.add_assoc]
    have hall := ih (h.pass hrest) (by rw [next, hrest]; simp [hrest])
    rw [← hnext] at hall
    exact hall

/-- The loop over single characters reads the longest run of characters in `p`. -/
theorem readWhile? (h : c.Matches source b) (p : Char → Bool) :
    b.readWhile? p = some (b.readAll (c.rest.takeWhile p)) := by
  induction hrest : c.rest generalizing c b with
  | nil =>
    rw [ByteCursor.readWhile?_eq, h.peek?, peek, hrest]
    rfl
  | cons a tail ih =>
    rw [ByteCursor.readWhile?_eq, h.peek?, peek, hrest, List.getElem?_cons_zero]
    by_cases ha : p a = true
    · simp only [ha, if_true, List.takeWhile_cons]
      exact ih (h.pass hrest) (by rw [next, hrest]; simp [hrest])
    · simp only [ha, if_false, Bool.false_eq_true, List.takeWhile_cons]
      rfl

theorem eatWhile?_eq (h : c.Matches source b) (p : Char → Bool) :
    b.eatWhile? p = some ((c.eatWhile p).1, b.readAll (c.rest.takeWhile p)) := by
  have h' := h.readAll (List.takeWhile_append_dropWhile (p := p) (l := c.rest)).symm
  have hsub : sub? (b.readAll (c.rest.takeWhile p)).pos b.pos = some (c.eatWhile p).1 := by
    rw [sub?, h'.pos, h.pos, Cursor.advance, if_pos (Nat.le_add_right _ _), Nat.add_sub_cancel_left]
    rfl
  rw [ByteCursor.eatWhile?, h.readWhile? p]
  simp [hsub]

theorem eatWhile? (h : c.Matches source b) (p : Char → Bool) :
    Agrees source (b.eatWhile? p) (c.eatWhile p) :=
  ⟨_, h.eatWhile?_eq p, h.readAll List.takeWhile_append_dropWhile.symm⟩

theorem ignoreWhile? (h : c.Matches source b) (p : Char → Bool) :
    Agrees source (b.ignoreWhile? p) (c.ignoreWhile p) := by
  obtain ⟨b', heat, h'⟩ := h.eatWhile? p
  refine ⟨b'.ignore, ?_, h'.ignore⟩
  rw [ByteCursor.ignoreWhile?, heat]
  rfl

theorem backup?_of_not_unread (h : c.Matches source b) (unread : c.unread = false)
    (kept : b.backup? = some (false, b)) : Agrees source b.backup? c.backup := by
  have hback : c.backup = (false, c) := by rw [Cursor.backup, unread]
  rw [hback]
  exact ⟨b, kept, h⟩

/-- The character that is unread ends where the cursor stands, and begins in the pending lexeme. -/
theorem backup?_eq_of_last {p : Text} (h : c.Matches source b) (last : c.pending = a :: p)
    (width : b.lastWidth = a.utf8Size) :
    b.backup? = some (true, { b with
      pos := c.pos - a.utf8Size
      line := c.line - Text.newlines [a]
      lastWidth := 0 }) := by
  obtain ⟨before, hs⟩ := h.stands
  have hpos := hs.pos_last last
  have hline := hs.line_last last
  have hwidth : b.lastWidth ≠ 0 := by
    rw [width]
    exact a.utf8Size_pos.ne'
  have hsub : sub? b.pos b.lastWidth = some (c.pos - a.utf8Size) := by
    rw [sub?, width, h.pos, if_pos (by omega)]
  have hstart : ¬ c.pos - a.utf8Size < b.start := by
    rw [h.start, hs.start, hpos, Nat.add_sub_cancel_right, Text.byteSize_append]
    omega
  obtain ⟨first, hat, hascii⟩ := Bytes.exists_getElem?_utf8 (before ++ p.reverse) a c.rest
  have hfirst : first = Bytes.newline ↔ a = '\n' := hascii '\n' (by decide)
  have hindex : b.source[c.pos - a.utf8Size]? = some first := by
    rw [h.source, hs.split_last last, hpos, Nat.add_sub_cancel_right]
    exact hat
  have hlineBefore :
      ByteCursor.lineBefore? first b.line = some (c.line - Text.newlines [a]) := by
    rw [ByteCursor.lineBefore?, h.line, Text.newlines_cons]
    by_cases ha : a = '\n'
    · rw [if_pos (hfirst.2 ha), if_pos ha, sub?, if_pos (by omega)]
      rfl
    · rw [if_neg (mt hfirst.1 ha), if_neg ha]
      rfl
  rw [ByteCursor.backup?, if_neg hwidth]
  simp only [Option.bind_eq_bind, hsub, Option.bind_some, hstart, if_false, hindex, hlineBefore]
  rfl

theorem backup?_of_unread {p : Text} (h : c.Matches source b) (unread : c.unread = true)
    (last : c.pending = a :: p) (width : b.lastWidth = a.utf8Size) :
    Agrees source b.backup? c.backup := by
  obtain ⟨before, hs⟩ := h.stands
  have hback := backup_of_unread unread last
  have hstands := hs.backup
  rw [Agrees, h.backup?_eq_of_last last width]
  rw [hback] at hstands ⊢
  exact ⟨_, rfl, ⟨before, hstands⟩, h.source, h.start, h.startLine, rfl, rfl, .empty rfl⟩

theorem backup? (h : c.Matches source b) : Agrees source b.backup? c.backup := by
  have hslot := h.slot
  generalize hwidth : b.lastWidth = n at hslot
  cases hslot with
  | full unread last => exact h.backup?_of_unread unread last hwidth
  | empty unread =>
    exact h.backup?_of_not_unread unread (by rw [ByteCursor.backup?, if_pos hwidth])
  | left unread dropped le =>
    refine h.backup?_of_not_unread unread ?_
    rw [ByteCursor.backup?, hwidth]
    split
    case isTrue => rfl
    case isFalse hn =>
      have hlt : c.pos - n < c.start := by
        obtain ⟨before, hs⟩ := h.stands
        have hstart := hs.start_eq_pos dropped
        omega
      simp [sub?, h.pos, h.start, le, hlt]

end Matches

/-- Two cursors stand at the same places, and so do the copies of them that were put aside. -/
structure MatchesBoth (source : Text) (s : Checkpoint Cursor) (s' : Checkpoint ByteCursor) :
    Prop where
  current : s.current.Matches source s'.current
  saved : s.saved.Matches source s'.saved

theorem matchesBoth_start (source : Text) :
    MatchesBoth source (.new (ofText source)) (.new (.ofText source)) :=
  ⟨matches_ofText source, matches_ofText source⟩

variable {s : Checkpoint Cursor} {s' : Checkpoint ByteCursor}

theorem MatchesBoth.edit (h : MatchesBoth source s s') {r : Option (β × ByteCursor)}
    {f : Cursor → β × Cursor} (hr : Agrees source r (f s.current)) (answer : β → ByteCursor.Answer) :
    ∃ q, ByteCursor.edit answer s' r = some (answer (f s.current).1, q) ∧
      MatchesBoth source (s.edit f).2 q := by
  obtain ⟨b, rfl, hb⟩ := hr
  exact ⟨_, rfl, hb, h.saved⟩

theorem MatchesBoth.run (h : MatchesBoth source s s') (o : Operation) :
    ∃ q, ByteCursor.run? s' o = some (.ofAnswer (o.run s).1, q) ∧
      MatchesBoth source (o.run s).2 q := by
  cases o with
  | next => exact h.edit (f := next) h.current.next? .char
  | backup => exact h.edit (f := backup) h.current.backup? .verdict
  | accept set => exact h.edit (f := accept set) (h.current.accept? set) .verdict
  | eatText t => exact h.edit (f := eatText t) (h.current.eatText? t) .verdict
  | eatWhile p => exact h.edit (f := eatWhile p) (h.current.eatWhile? p) .size
  | til d => exact h.edit (f := til d) (h.current.til? d) .position
  | ignoreSpaces =>
    exact h.edit (f := ignoreWhile isSpace) (h.current.ignoreWhile? isSpace) .verdict
  | peek => exact ⟨s', by rw [ByteCursor.run?, h.current.peek?]; rfl, h⟩
  | peekSecond => exact ⟨s', by rw [ByteCursor.run?, h.current.peekSecond?]; rfl, h⟩
  | startsWith t => exact ⟨s', by rw [ByteCursor.run?, h.current.startsWith?]; rfl, h⟩
  | rest => exact ⟨s', by rw [ByteCursor.run?, h.current.rest?]; rfl, h⟩
  | lexeme => exact ⟨s', by rw [ByteCursor.run?, h.current.lexeme?]; rfl, h⟩
  | ignore => exact ⟨_, rfl, h.current.ignore, h.saved⟩
  | takeLexeme =>
    refine ⟨⟨s'.current.ignore, s'.saved⟩, ?_, h.current.ignore, h.saved⟩
    rw [ByteCursor.run?, h.current.lexeme?, h.current.start, h.current.startLine]
    rfl
  | save => exact ⟨_, rfl, h.current, h.current⟩
  | restore => exact ⟨_, rfl, h.saved, h.saved⟩

end Cursor

/-- The offsets and lines that a cursor tells, and whether it is at the end. -/
structure CursorPlaces where
  start : Nat
  startLine : Nat
  pos : Nat
  line : Nat
  isEof : Bool

def Cursor.places (c : Cursor) : CursorPlaces := ⟨c.start, c.startLine, c.pos, c.line, c.isEof⟩

def ByteCursor.places (b : ByteCursor) : CursorPlaces :=
  ⟨b.start, b.startLine, b.pos, b.line, b.isEof⟩

namespace Cursor

theorem Matches.sound (h : c.Matches source b) : c.Sound source := by
  obtain ⟨_, hs⟩ := h.stands
  exact hs.sound

theorem Matches.places (h : c.Matches source b) : b.places = c.places := by
  have hsound := h.sound
  have heof : b.isEof = c.isEof := by
    have hle := hsound.pos.le
    rw [Bool.eq_iff_iff, hsound.eof, ByteCursor.isEof, h.source, h.pos, Text.length_utf8,
      decide_eq_true_iff]
    omega
  rw [ByteCursor.places, h.start, h.startLine, h.pos, h.line, heof, Cursor.places]

theorem MatchesBoth.trace (h : MatchesBoth source s s') (os : List Operation) :
    ∃ steps, ByteCursor.trace? os s' = some steps ∧
      (steps.map fun r => (r.1, r.2.places)) =
        (Operation.trace os s).map fun r => (.ofAnswer r.1, r.2.places) := by
  induction os generalizing s s' with
  | nil => exact ⟨[], rfl, rfl⟩
  | cons o os ih =>
    obtain ⟨q, hrun, hq⟩ := h.run o
    obtain ⟨steps, htrace, hsteps⟩ := ih hq
    refine ⟨(.ofAnswer (o.run s).1, q.current) :: steps, ?_, ?_⟩
    · rw [ByteCursor.trace?, hrun, Option.bind_some, htrace]
      rfl
    · rw [List.map_cons, hsteps, hq.current.places]
      rfl

theorem MatchesBoth.sound_of_mem (h : MatchesBoth source s s') {os : List Operation}
    {r : Answer × Cursor} (hr : r ∈ Operation.trace os s) : r.2.Sound source := by
  induction os generalizing s s' with
  | nil => cases hr
  | cons o os ih =>
    obtain ⟨q, -, hq⟩ := h.run o
    rcases List.mem_cons.1 hr with rfl | hr
    · exact hq.current.sound
    · exact ih hq hr

/-- Whatever is done with a cursor and a copy of it, its offsets are ordered boundaries of the source
with their lines. The cursor over bytes, which fails where a slice, an index or a difference is out of
range, never does, and gives the same answers at the same places. -/
theorem cursor_sound (source : Text) (os : List Operation) :
    (∀ r ∈ Operation.trace os (.new (ofText source)), r.2.Sound source) ∧
      ∃ steps, ByteCursor.trace? os (.new (.ofText source)) = some steps ∧
        (steps.map fun r => (r.1, r.2.places)) =
          (Operation.trace os (.new (ofText source))).map fun r => (.ofAnswer r.1, r.2.places) := by
  have hstart := matchesBoth_start source
  exact ⟨fun _ hr => hstart.sound_of_mem hr, hstart.trace os⟩

end Cursor

end StyleLex

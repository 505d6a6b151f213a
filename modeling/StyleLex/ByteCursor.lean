import StyleLex.CursorOperation

/-!
# A cursor over bytes

The source is kept as UTF-8, and of the text that was read no more than offsets is remembered. A slice
that is out of range or cuts a character has no result, and neither has an index out of range or a
difference below zero.
-/
namespace StyleLex

abbrev Bytes := List UInt8

def Text.utf8 (t : Text) : Bytes := t.flatMap String.utf8EncodeChar

namespace Bytes

/-- The byte of a line feed. -/
def newline : UInt8 := 10

def newlines (b : Bytes) : Nat := b.count newline

/-- A character starts at the offset, or the text ends there. -/
def isBoundary (b : Bytes) (i : Nat) : Bool :=
  i = b.length || b[i]?.any fun a => a.IsUTF8FirstByte

/-- The bytes from `i` up to `j`, which must be boundaries. -/
def slice? (b : Bytes) (i j : Nat) : Option Bytes :=
  if i ≤ j ∧ b.isBoundary i ∧ b.isBoundary j then some ((b.take j).drop i) else none

/-- The bytes in front of `i`. -/
def take? (b : Bytes) (i : Nat) : Option Bytes := if i ≤ b.length then some (b.take i) else none

/-- The first character, unless there is none. Bytes that do not begin with one have no result. -/
def first? : Bytes → Option (Option Char)
  | [] => some none
  | a :: b => ((a :: b).toByteArray.utf8DecodeChar? 0).map some

/-- The second character, unless there is none. -/
def second? (b : Bytes) : Option (Option Char) :=
  b.first?.bind fun
    | none => some none
    | some a => first? (b.drop a.utf8Size)

/-- The offset of the first occurrence of `d`. -/
def find? (d : Bytes) : Bytes → Option Nat
  | [] => if d = [] then some 0 else none
  | a :: b => if d.isPrefixOf (a :: b) then some 0 else (find? d b).map (· + 1)

end Bytes

/-- The difference, unless it is below zero. -/
def sub? (m n : Nat) : Option Nat := if n ≤ m then some (m - n) else none

structure ByteCursor where
  source : Bytes
  pos : Nat
  start : Nat
  line : Nat
  startLine : Nat
  /-- The size of the character that was read last, or zero if none can be unread. -/
  lastWidth : Nat

namespace ByteCursor

def ofText (source : Text) : ByteCursor := ⟨source.utf8, 0, 0, 1, 1, 0⟩

def isEof (c : ByteCursor) : Bool := c.source.length ≤ c.pos

def rest? (c : ByteCursor) : Option Bytes := c.source.slice? c.pos c.source.length

def lexeme? (c : ByteCursor) : Option Bytes := c.source.slice? c.start c.pos

def peek? (c : ByteCursor) : Option (Option Char) := c.rest?.bind Bytes.first?

def peekSecond? (c : ByteCursor) : Option (Option Char) := c.rest?.bind Bytes.second?

def startsWith? (t : Text) (c : ByteCursor) : Option Bool := c.rest?.map t.utf8.isPrefixOf

/-- Moves over one character. -/
def pass (a : Char) (c : ByteCursor) : ByteCursor :=
  { c with
    pos := c.pos + a.utf8Size
    line := if a = '\n' then c.line + 1 else c.line
    lastWidth := a.utf8Size }

/-- Moves over the bytes ahead. -/
def advance (b : Bytes) (c : ByteCursor) : ByteCursor :=
  { c with pos := c.pos + b.length, line := c.line + b.newlines, lastWidth := 0 }

def next? (c : ByteCursor) : Option (Option Char × ByteCursor) :=
  c.peek?.map fun
    | none => (none, { c with lastWidth := 0 })
    | some a => (some a, c.pass a)

/-- The line in front of a byte, if the line behind it is `line`. -/
def lineBefore? (a : UInt8) (line : Nat) : Option Nat :=
  if a = Bytes.newline then sub? line 1 else some line

def backup? (c : ByteCursor) : Option (Bool × ByteCursor) :=
  if c.lastWidth = 0 then some (false, c) else do
    let pos ← sub? c.pos c.lastWidth
    if pos < c.start then return (false, c)
    let a ← c.source[pos]?
    let line ← lineBefore? a c.line
    return (true, { c with pos, line, lastWidth := 0 })

def accept? (set : Text) (c : ByteCursor) : Option (Bool × ByteCursor) := do
  if (← c.peek?).any set.contains then return (true, (← c.next?).2) else return (false, c)

def eatText? (t : Text) (c : ByteCursor) : Option (Bool × ByteCursor) := do
  if ← c.startsWith? t then return (true, c.advance t.utf8) else return (false, c)

theorem lt_of_slice? {b : Bytes} {i : Nat} {a : Char}
    (h : (b.slice? i b.length).bind Bytes.first? = some (some a)) : i < b.length := by
  rw [Bytes.slice?] at h
  split at h
  case isTrue hrange =>
    rcases Nat.lt_or_eq_of_le hrange.1 with hlt | rfl
    · exact hlt
    · simp [Bytes.first?] at h
  case isFalse => cases h

/-- Reads the characters in `p` one by one. -/
def readWhile? (p : Char → Bool) (c : ByteCursor) : Option ByteCursor :=
  match _ahead : c.peek? with
  | none => none
  | some none => some c
  | some (some a) => if p a then readWhile? p (c.pass a) else some c
termination_by c.source.length - c.pos
decreasing_by
  have hlt := lt_of_slice? _ahead
  have hpos := a.utf8Size_pos
  simp only [pass]
  omega

theorem readWhile?_eq (p : Char → Bool) (c : ByteCursor) : c.readWhile? p =
    match c.peek? with
    | none => none
    | some none => some c
    | some (some a) => if p a then readWhile? p (c.pass a) else some c := by
  rw [readWhile?]
  split <;> simp_all

def eatWhile? (p : Char → Bool) (c : ByteCursor) : Option (Nat × ByteCursor) := do
  let c' ← c.readWhile? p
  return (← sub? c'.pos c.pos, c')

def til? (d : Text) (c : ByteCursor) : Option (Option Nat × ByteCursor) := do
  let ahead ← c.rest?
  match Bytes.find? d.utf8 ahead with
  | none => return (none, c)
  | some found =>
    let c' := c.advance (← ahead.take? found)
    return (some c'.pos, c')

def ignore (c : ByteCursor) : ByteCursor := { c with start := c.pos, startLine := c.line }

def ignoreWhile? (p : Char → Bool) (c : ByteCursor) : Option (Bool × ByteCursor) := do
  let (size, c') ← c.eatWhile? p
  return (0 < size, c'.ignore)

/-- The answers of a cursor, with the texts in them as UTF-8. -/
inductive Answer where
  | nothing
  | char (found : Option Char)
  | verdict (holds : Bool)
  | size (bytes : Nat)
  | position (offset : Option Nat)
  | text (found : Bytes)
  | lexeme (text : Bytes) (offset line : Nat)

def Answer.ofAnswer : Cursor.Answer → Answer
  | .nothing => .nothing
  | .char found => .char found
  | .verdict holds => .verdict holds
  | .size bytes => .size bytes
  | .position offset => .position offset
  | .text found => .text found.utf8
  | .lexeme taken => .lexeme taken.text.utf8 taken.offset taken.line

/-- Runs a part of an operation on the current cursor. -/
def edit {β : Type} (answer : β → Answer) (s : Checkpoint ByteCursor) (r : Option (β × ByteCursor)) :
    Option (Answer × Checkpoint ByteCursor) :=
  r.map fun (b, c) => (answer b, ⟨c, s.saved⟩)

def run? (s : Checkpoint ByteCursor) : Cursor.Operation → Option (Answer × Checkpoint ByteCursor)
  | .next => edit .char s s.current.next?
  | .peek => s.current.peek?.map (.char ·, s)
  | .peekSecond => s.current.peekSecond?.map (.char ·, s)
  | .backup => edit .verdict s s.current.backup?
  | .startsWith t => (s.current.startsWith? t).map (.verdict ·, s)
  | .accept t => edit .verdict s (s.current.accept? t)
  | .eatText t => edit .verdict s (s.current.eatText? t)
  | .eatWhile p => edit .size s (s.current.eatWhile? p)
  | .til d => edit .position s (s.current.til? d)
  | .ignoreSpaces => edit .verdict s (s.current.ignoreWhile? isSpace)
  | .ignore => some (.nothing, ⟨s.current.ignore, s.saved⟩)
  | .takeLexeme => s.current.lexeme?.map fun t =>
      (.lexeme t s.current.start s.current.startLine, ⟨s.current.ignore, s.saved⟩)
  | .rest => s.current.rest?.map (.text ·, s)
  | .lexeme => s.current.lexeme?.map (.text ·, s)
  | .save => some (.nothing, s.save)
  | .restore => some (.nothing, s.restore)

/-- The answers of a sequence of operations, each with the cursor after it, if all have a result. -/
def trace? : List Cursor.Operation → Checkpoint ByteCursor → Option (List (Answer × ByteCursor))
  | [], _ => some []
  | o :: os, s => (run? s o).bind fun r => (trace? os r.2).map ((r.1, r.2.current) :: ·)

end ByteCursor

end StyleLex

import StyleLex.Text

/-!
# A cursor over text

The cursor stands between a pending lexeme and the text still ahead, and knows the position of both
ends of the lexeme. One character can be unread, unless it has left the pending lexeme.
-/
namespace StyleLex

/-- A piece of text with the place where it starts: a byte offset and a line counted from one. -/
structure Lexeme where
  text : Text
  offset : Nat
  line : Nat
  deriving DecidableEq

namespace Lexeme

def stop (l : Lexeme) : Nat := l.offset + l.text.byteSize

end Lexeme

structure Cursor where
  rest : Text
  /-- The pending lexeme, last character first. -/
  pending : Text
  pos : Nat
  line : Nat
  start : Nat
  startLine : Nat
  /-- Whether the last character read may be unread. -/
  unread : Bool
  deriving DecidableEq

namespace Cursor

def ofText (source : Text) : Cursor := ⟨source, [], 0, 1, 0, 1, false⟩

def isEof (c : Cursor) : Bool := c.rest.isEmpty

def lexeme (c : Cursor) : Text := c.pending.reverse

def peek (c : Cursor) : Option Char := c.rest[0]?

def peekSecond (c : Cursor) : Option Char := c.rest[1]?

def startsWith (t : Text) (c : Cursor) : Bool := t.isPrefixOf c.rest

/-- Moves over `t`, which is the text ahead, and adds it to the pending lexeme. -/
def advance (t : Text) (c : Cursor) : Cursor where
  rest := c.rest.drop t.length
  pending := t.reverse ++ c.pending
  pos := c.pos + t.byteSize
  line := c.line + t.newlines
  start := c.start
  startLine := c.startLine
  unread := c.unread

/-- At the end of the text nothing is read, and nothing can be unread after that. -/
def next (c : Cursor) : Option Char × Cursor :=
  match c.rest with
  | [] => (none, { c with unread := false })
  | a :: _ => (some a, { c.advance [a] with unread := true })

def backup (c : Cursor) : Bool × Cursor :=
  match c.unread, c.pending with
  | true, a :: p => (true, { c with
      rest := a :: c.rest
      pending := p
      pos := c.pos - a.utf8Size
      line := c.line - Text.newlines [a]
      unread := false })
  | _, _ => (false, c)

def accept (set : Text) (c : Cursor) : Bool × Cursor :=
  if c.peek.any set.contains then (true, c.next.2) else (false, c)

/-- Reads `t` if it is the text ahead. Nothing can be unread after that. -/
def eatText (t : Text) (c : Cursor) : Bool × Cursor :=
  if c.startsWith t then (true, { c.advance t with unread := false }) else (false, c)

/-- Reads the characters in `p` ahead, and counts their bytes. -/
def eatWhile (p : Char → Bool) (c : Cursor) : Nat × Cursor :=
  let run := c.rest.takeWhile p
  (Text.byteSize run, { c.advance run with unread := c.unread || !run.isEmpty })

/-- Moves up to the first occurrence of `d` ahead, or not at all. -/
def til (d : Text) (c : Cursor) : Option Nat × Cursor :=
  match c.rest.upTo? d with
  | none => (none, c)
  | some t => (some (c.pos + t.byteSize), { c.advance t with unread := false })

/-- Drops the pending lexeme. -/
def ignore (c : Cursor) : Cursor :=
  { c with pending := [], start := c.pos, startLine := c.line, unread := false }

def takeLexeme (c : Cursor) : Lexeme × Cursor := (⟨c.lexeme, c.start, c.startLine⟩, c.ignore)

/-- Drops the pending lexeme and the characters in `p` ahead; tells whether there were any. -/
def ignoreWhile (p : Char → Bool) (c : Cursor) : Bool × Cursor :=
  (decide (0 < (c.eatWhile p).1), (c.eatWhile p).2.ignore)

@[simp] theorem advance_nil (c : Cursor) : c.advance [] = c := by
  simp [advance]

@[simp] theorem rest_advance (t : Text) (c : Cursor) : (c.advance t).rest = c.rest.drop t.length := rfl

@[simp] theorem rest_ignore (c : Cursor) : c.ignore.rest = c.rest := rfl

@[simp] theorem rest_takeLexeme (c : Cursor) : c.takeLexeme.2.rest = c.rest := rfl

end Cursor

end StyleLex

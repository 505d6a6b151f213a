import StyleLex.CharClass
import StyleLex.Checkpoint
import StyleLex.Cursor

/-!
# Cursor operations as data

An operation runs on a cursor with one copy put aside, and gives an answer.
-/
namespace StyleLex.Cursor

inductive Operation where
  | next | peek | peekSecond | backup
  | startsWith (text : Text)
  | accept (set : Text)
  | eatText (text : Text)
  | eatWhile (p : Char → Bool)
  | til (delimiter : Text)
  | ignoreSpaces | ignore | takeLexeme
  | rest | lexeme
  | save | restore

inductive Answer where
  | nothing
  | char (found : Option Char)
  | verdict (holds : Bool)
  | size (bytes : Nat)
  | position (offset : Option Nat)
  | text (found : Text)
  | lexeme (taken : Lexeme)
  deriving DecidableEq

namespace Operation

def run : Operation → Checkpoint Cursor → Answer × Checkpoint Cursor
  | .next, s => s.edit fun c => (.char c.next.1, c.next.2)
  | .peek, s => (.char s.current.peek, s)
  | .peekSecond, s => (.char s.current.peekSecond, s)
  | .backup, s => s.edit fun c => (.verdict c.backup.1, c.backup.2)
  | .startsWith t, s => (.verdict (s.current.startsWith t), s)
  | .accept t, s => s.edit fun c => (.verdict (c.accept t).1, (c.accept t).2)
  | .eatText t, s => s.edit fun c => (.verdict (c.eatText t).1, (c.eatText t).2)
  | .eatWhile p, s => s.edit fun c => (.size (c.eatWhile p).1, (c.eatWhile p).2)
  | .til d, s => s.edit fun c => (.position (c.til d).1, (c.til d).2)
  | .ignoreSpaces, s =>
      s.edit fun c => (.verdict (c.ignoreWhile isSpace).1, (c.ignoreWhile isSpace).2)
  | .ignore, s => s.edit fun c => (.nothing, c.ignore)
  | .takeLexeme, s => s.edit fun c => (.lexeme c.takeLexeme.1, c.takeLexeme.2)
  | .rest, s => (.text s.current.rest, s)
  | .lexeme, s => (.text s.current.lexeme, s)
  | .save, s => (.nothing, s.save)
  | .restore, s => (.nothing, s.restore)

/-- The answers of a sequence of operations, each with the cursor after it. -/
def trace : List Operation → Checkpoint Cursor → List (Answer × Cursor)
  | [], _ => []
  | o :: os, s => ((o.run s).1, (o.run s).2.current) :: trace os (o.run s).2

end Operation

end StyleLex.Cursor

import StyleLex.Cursor
import StyleLex.Kind
import StyleLex.Quoted

/-! # Tokens -/
namespace StyleLex

/-- A lexeme with its kind. The text of a quoted string leaves out its quotes. -/
structure Token extends Lexeme where
  kind : Kind
  deriving DecidableEq

namespace Token

def make (kind : Kind) (text : Text) (offset line : Nat) : Token := ⟨⟨text, offset, line⟩, kind⟩

/-- The kind, the quoted text, and the place as line and offset. -/
def describe (t : Token) : String :=
  t.kind.name ++ " " ++ String.ofList (Quoted.quote t.text) ++ " @ "
    ++ toString t.line ++ ":" ++ toString t.offset

end Token

end StyleLex

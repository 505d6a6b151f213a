/-!
# Character classes

Digits and letters are the ASCII ones. Every character outside ASCII counts as part of a name.
-/
namespace StyleLex

def isSpace (c : Char) : Bool :=
  c = ' ' || c = '\t' || c = '\n' || c = '\r' || c = '\x0c'

def isNonAscii (c : Char) : Bool := 128 ≤ c.toNat

def isNameStart (c : Char) : Bool := c.isAlpha || c = '_' || isNonAscii c

def isNameChar (c : Char) : Bool := c.isAlphanum || c = '-' || c = '_' || isNonAscii c

def isQuote (c : Char) : Bool := c = '"' || c = '\''

def isHexDigit (c : Char) : Bool :=
  c.isDigit || ('a' ≤ c && c ≤ 'f') || ('A' ≤ c && c ≤ 'F')

/-- The characters of an attribute value written without quotes. -/
def isUnquotedChar (c : Char) : Bool := !(isSpace c || isQuote c || c = '[' || c = ']')

/-- The characters a simple selector can begin with. -/
def opensSimple (c : Char) : Bool :=
  c = '.' || c = '#' || c = '*' || c = '&' || c = '[' || c = ':' || isNameStart c

/-- The characters that can open a selector where a statement is expected. -/
def opensSelector (c : Char) : Bool := c = '>' || c = '+' || c = '~' || opensSimple c

theorem isNameChar_of_isNameStart {c : Char} (h : isNameStart c = true) : isNameChar c = true := by
  simp only [isNameStart, isNameChar, Char.isAlphanum, Bool.or_eq_true] at *
  grind

end StyleLex

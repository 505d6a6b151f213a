import StyleLex.DefaultIgnorable
import StyleLex.GraphemeExtend
import StyleLex.Text
import StyleLex.Unprintable

/-!
# Quoted display of text

A character is escaped if it is `"` or `\`, has no printed form, shows nothing, or would be drawn
onto the character in front of it. All other text is shown as it is.
-/
namespace StyleLex.Quoted

def hexDigits (n : Nat) : Text := Nat.toDigits 16 n

def escape (c : Char) : Text :=
  if c = '"' || c = '\\' then ['\\', c]
  else if c = '\x00' then ['\\', '0']
  else if c = '\t' then ['\\', 't']
  else if c = '\n' then ['\\', 'n']
  else if c = '\r' then ['\\', 'r']
  else if overlaysGrapheme c || isUnprintable c || isDefaultIgnorable c then
    ['\\', 'u', '{'] ++ hexDigits c.toNat ++ ['}']
  else [c]

def quote (t : Text) : Text := '"' :: t.flatMap escape ++ ['"']

end StyleLex.Quoted

import StyleLex.CharClass
import StyleLex.Text

/-! # Telling a nested rule from a declaration -/
namespace StyleLex

inductive RuleShape where
  | block | declaration
  deriving DecidableEq

namespace RuleShape

/-- The text behind the first `d`, or nothing. -/
def behind (d : Char) (t : Text) : Text := (t.dropWhile (· ≠ d)).tail

theorem length_behind_le (d : Char) (t : Text) : (behind d t).length ≤ t.length := by
  have h := (List.dropWhile_suffix (l := t) (· ≠ d)).length_le
  simp only [behind, List.length_tail]
  omega

/-- A nested rule has a `{` before any `;` or `}`. Quoted strings and interpolations are passed over;
one that is never closed leaves a declaration. -/
def ofText : Text → RuleShape
  | [] => .declaration
  | c :: t =>
    if c = '{' then .block
    else if c = ';' ∨ c = '}' then .declaration
    else if c = '#' ∧ t.head? = some '{' then ofText (behind '}' t)
    else if isQuote c then ofText (behind c t)
    else ofText t
termination_by t => t.length
decreasing_by
  · have := length_behind_le '}' t; simp; omega
  · have := length_behind_le c t; simp; omega
  · simp

end RuleShape

end StyleLex

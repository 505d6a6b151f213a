import StyleLex.Kind
import StyleLex.NumberUnit
import StyleLex.Proofs.WrittenText

/-!
# Values as they are written

A value is made of literals, calls and interpolations, with spaces or a comma between any two of them.
Each has a text and the tokens that are expected of it.
-/
namespace StyleLex.Written

/-- A number without its unit, with digits in front of the point or behind it. -/
structure Numeral where
  negative : Bool
  whole : Chars Char.isDigit
  fraction? : Option (SomeChars Char.isDigit)
  digits : whole.text ≠ [] ∨ fraction? ≠ none

namespace Numeral

def sign (x : Numeral) : Text := if x.negative then ['-'] else []

def fraction (x : Numeral) : Text := x.fraction?.elim [] fun digits => '.' :: digits.text

def print (x : Numeral) : Text := x.sign ++ (x.whole.text ++ x.fraction)

def kind (x : Numeral) : Kind := if x.fraction?.isSome then .float else .integer

end Numeral

/-- A unit, in small letters or in capitals. -/
structure UnitName where
  unit : NumberUnit
  text : Text
  spelt : text.map Char.toLower = unit.suffix.toList

/-- The text starts with a digit, behind a sign or a point or both. -/
def BeginsNumber (t : Text) : Prop :=
  ∃ sgn point d u, (sgn = [] ∨ sgn = ['-']) ∧ (point = [] ∨ point = ['.']) ∧ Char.isDigit d = true ∧
    t = sgn ++ (point ++ d :: u)

/-- A word that is nothing else. Only in a call it may hold a semicolon. -/
structure PlainWord (inCall : Bool) where
  text : Text
  ne : text ≠ []
  inside : ∀ a ∈ text, isSpace a = false ∧ isQuote a = false ∧ a ∉ ['{', '}', '(', ')', ','] ∧
    (a = ';' → inCall = true)
  start : ∀ a, text.head? = some a → a ≠ '$' ∧ a ≠ '#'
  unnumbered : ¬BeginsNumber text

inductive Literal (inCall : Bool) where
  | named (name : Name)
  | color (digits : Chars isHexDigit) (size : digits.text.length = 3 ∨ digits.text.length = 6)
  | string (text : QuotedText)
  | number (numeral : Numeral) (unit? : Option UnitName)
  | word (text : PlainWord inCall)

namespace Literal

variable {inCall : Bool}

def print : Literal inCall → Text
  | .named name => '$' :: name.text
  | .color digits _ => '#' :: digits.text
  | .string text => text.print
  | .number numeral unit? => numeral.print ++ unit?.elim [] UnitName.text
  | .word text => text.text

def spelled : Literal inCall → List (Kind × Text)
  | .named name => [(.variableName, '$' :: name.text)]
  | .color digits _ => [(.hexColor, '#' :: digits.text)]
  | .string text => [(.quotedString, text.body)]
  | .number numeral unit? =>
    (numeral.kind, numeral.print) :: unit?.elim [] fun u => [(.unit u.unit, u.text)]
  | .word text => [(.constant, text.text)]

end Literal

/-- A value, or the rest of one, inside of a call or not. A literal, a call or an interpolation may stand
only where `apart` says so, at the beginning and behind spaces or a comma. A call may stand directly
behind a word, which is part of it then. -/
inductive Value : (inCall apart : Bool) → Type where
  | nothing {inCall apart : Bool} : Value inCall apart
  | spaces {inCall apart : Bool} (gap : SomeChars isSpace) (rest : Value inCall true) :
      Value inCall apart
  | comma {inCall apart : Bool} (rest : Value inCall true) : Value inCall apart
  | literal {inCall : Bool} (x : Literal inCall) (rest : Value inCall false) : Value inCall true
  | call {inCall : Bool} (word? : Option (PlainWord inCall)) (inside : Value true true)
      (rest : Value inCall false) : Value inCall true
  | interpolation {inCall : Bool} (inside : Value false true) (rest : Value inCall false) :
      Value inCall true

namespace Value

def print : {inCall apart : Bool} → Value inCall apart → Text
  | _, _, .nothing => []
  | _, _, .spaces gap rest => gap.text ++ rest.print
  | _, _, .comma rest => ',' :: rest.print
  | _, _, .literal x rest => x.print ++ rest.print
  | _, _, .call word? inside rest =>
    word?.elim [] PlainWord.text ++ '(' :: (inside.print ++ ')' :: rest.print)
  | _, _, .interpolation inside rest => '#' :: '{' :: (inside.print ++ '}' :: rest.print)

def spelled : {inCall apart : Bool} → Value inCall apart → List (Kind × Text)
  | _, _, .nothing => []
  | _, _, .spaces _ rest => rest.spelled
  | _, _, .comma rest => (.comma, [',']) :: rest.spelled
  | _, _, .literal x rest => x.spelled ++ rest.spelled
  | _, _, .call word? inside rest =>
    word?.elim [] (fun w => [(.constant, w.text)]) ++
      (.parenStart, ['(']) :: (inside.spelled ++ (.parenEnd, [')']) :: rest.spelled)
  | _, _, .interpolation inside rest =>
    (.interpolationStart, ['#', '{']) ::
      (inside.spelled ++ (.interpolationEnd, ['}']) :: rest.spelled)

end Value

end StyleLex.Written

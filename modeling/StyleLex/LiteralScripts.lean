import StyleLex.Script

/-!
# Scripts of literals

Each builder is given the text ahead and the script for the text behind the literal.
-/
namespace StyleLex.Script

/-- A string, from behind its opening quote up to the next quote of the same kind. -/
def quoted (quote : Char) (rest : Text) (next : Text → Script) : Script :=
  match rest.upTo? [quote] with
  | none => .fail [quote] ⟨.unterminatedLiteral quote, .lexeme⟩
  | some body =>
      .skip [quote] <| .emit .quotedString body <| .skip [quote] <| next (rest.drop (body.length + 1))

def digitAhead (t : Text) : Bool := t.head?.any Char.isDigit

/-- A point with a digit behind it. -/
def fractionAhead : Text → Bool
  | '.' :: t => digitAhead t
  | _ => false

def sign (t : Text) : Text := if t.head? = some '-' then ['-'] else []

def unsigned (t : Text) : Text := t.drop (sign t).length

def numberAhead (t : Text) : Bool := digitAhead (unsigned t) || fractionAhead (unsigned t)

theorem numberAhead_of_isDigit {c : Char} (h : c.isDigit = true) (t : Text) :
    numberAhead (c :: t) = true := by
  have hc : c ≠ '-' := by rintro rfl; simp at h
  simp [numberAhead, unsigned, sign, digitAhead, h, hc]

/-- The sign and the digits that a number begins with. -/
def wholePart (t : Text) : Text := sign t ++ (unsigned t).takeWhile Char.isDigit

/-- The unit directly behind a number, if letters or a percent sign stand there. -/
def unit (rest : Text) (next : Text → Script) : Script :=
  match rest with
  | '%' :: t => .emit (.unit .percent) ['%'] (next t)
  | t =>
    let letters := t.takeWhile Char.isAlpha
    if letters = [] then next t
    else match NumberUnit.ofSuffix? letters with
      | some u => .emit (.unit u) letters (next (t.dropWhile Char.isAlpha))
      | none => .fail letters ⟨.invalidNumberFormat, .lexeme⟩

/-- A number and its unit. A point needs digits behind it, and no second fraction may follow. -/
def number (rest : Text) (next : Text → Script) : Script :=
  let whole := wholePart rest
  match rest.drop whole.length with
  | '.' :: t =>
    let fraction := t.takeWhile Char.isDigit
    let behind := t.dropWhile Char.isDigit
    if fraction = [] ∨ fractionAhead behind then
      .fail (whole ++ '.' :: fraction) ⟨.invalidNumberFormat, .lexeme⟩
    else .emit .float (whole ++ '.' :: fraction) (unit behind next)
  | t => .emit .integer whole (unit t next)

/-- The name behind a `#` must be three or six hexadecimal digits. -/
def hexColor (rest : Text) (next : Text → Script) : Script :=
  let digits := rest.takeWhile isNameChar
  if (digits.length = 3 ∨ digits.length = 6) ∧ digits.all isHexDigit then
    .emit .hexColor ('#' :: digits) (next (rest.dropWhile isNameChar))
  else .fail ('#' :: digits) ⟨.invalidHexColor, .lexeme⟩

def interpolationAhead : Text → Bool
  | '#' :: '{' :: _ => true
  | _ => false

/-- The characters no word of a value contains. A semicolon ends a word outside a call. -/
def endsWord (inCall : Bool) (c : Char) : Bool :=
  c = '{' || c = '}' || c = '(' || c = ')' || c = ',' || isQuote c || isSpace c
    || (c = ';' && !inCall)

/-- The word ahead, which also ends in front of an interpolation. -/
def word (inCall : Bool) : Text → Text
  | [] => []
  | c :: t => if endsWord inCall c || interpolationAhead (c :: t) then [] else c :: word inCall t

def constant (inCall : Bool) (rest : Text) (next : Text → Script) : Script :=
  let w := word inCall rest
  if w = [] then .fail [] (.unexpected rest)
  else .emit .constant w (next (rest.drop w.length))

end StyleLex.Script

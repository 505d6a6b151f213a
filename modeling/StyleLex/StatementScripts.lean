import StyleLex.RuleShape
import StyleLex.SelectorScripts

/-! # Scripts of statements -/
namespace StyleLex.Script

def statement (v : View) : Script := skipSpaces v.rest fun rest =>
  match rest with
  | [] => if v.top = .topLevel then .goto .done else .fail [] (.unclosed v.top [])
  | c :: t =>
    if c = '@' then .goto .atRule
    else if c = '$' then .goto .assignment
    else if c = '{' then .enter .block <| .emit .braceStart [c] <| .goto .statement
    else if c = '}' then
      if v.top = .block then .emit .braceEnd [c] <| .leave .resume
      else .fail [] ⟨.unbalancedCloseBrace, .scan⟩
    else if isQuote c then quoted c t fun _ => .goto .statement
    else if c.isDigit then number rest fun _ => .goto .statement
    else if v.top = .block ∧ RuleShape.ofText rest = .declaration then .goto .property
    else if opensSelector c then .enter .selector <| .note .detached <| .goto .selector
    else .fail [] (.unexpected rest)

def atKeyword? (name : Text) : Option Kind :=
  if name = "import".toList then some .importRule
  else if name = "charset".toList then some .charsetRule
  else if name = "extend".toList then some .extendRule
  else if name = "include".toList then some .includeRule
  else none

def atRule (v : View) : Script :=
  match v.rest with
  | [] => .fail [] (.unexpected [])
  | c :: t =>
    let name := t.takeWhile isNameChar
    match atKeyword? name with
    | some kind => .emit kind (c :: name) <| .enter .value <| .goto .value
    | none => .fail (c :: name) ⟨.unexpectedCharacter c, .lexeme⟩

/-- The colon in front of a value, and then the value. -/
def colon (rest : Text) : Script := skipSpaces rest fun rest =>
  match rest with
  | ':' :: _ => .emit .colon [':'] <| .enter .value <| .goto .value
  | t => .fail [] (.unexpected t)

def assignment (v : View) : Script :=
  match v.rest with
  | [] => .fail [] (.unexpected [])
  | c :: t => sigil .variableName c t colon

/-- A property may begin with a hyphen. -/
def property (v : View) : Script :=
  match v.rest with
  | [] => .fail [] (.unexpected [])
  | c :: t =>
    if c = '-' ∨ isNameStart c then
      .emit .propertyName (c :: t.takeWhile isNameChar) <| colon (t.dropWhile isNameChar)
    else .fail [] (.unexpected (c :: t))

/-- The script of a state. A run that is done has nothing left to do. -/
def ofState : State → View → Script
  | .statement, v => statement v
  | .atRule, v => atRule v
  | .assignment, v => assignment v
  | .property, v => property v
  | .selector, v => selector v
  | .attribute, v => attributeGroup v
  | .pseudoArguments, v => pseudoArguments v
  | .value, v => value v
  | .interpolation, v => interpolation v
  | .done, _ => .goto .done

end StyleLex.Script

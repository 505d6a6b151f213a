import StyleLex.LiteralScripts

/-! # Scripts of values and of interpolations -/
namespace StyleLex.Script

def openInterpolation : Script :=
  .enter .interpolation <| .emit .interpolationStart ['#', '{'] <| .goto .interpolation

/-- One part of a value, behind which the state `after` goes on. -/
def component (v : View) (after : State) (rest : Text) : Script :=
  match rest with
  | [] => .fail [] (.unexpected [])
  | c :: t =>
    if c = '$' then sigil .variableName c t fun _ => .goto after
    else if interpolationAhead rest then openInterpolation
    else if c = '#' then hexColor t fun _ => .goto after
    else if isQuote c then quoted c t fun _ => .goto after
    else if c = ',' then .emit .comma [c] <| .goto after
    else if c = '(' then .enter .functionArguments <| .emit .parenStart [c] <| .goto .value
    else if c = ';' ∧ v.inCall then constant v.inCall rest fun _ => .goto after
    else if c = '{' ∨ c = '}' ∨ c = ')' ∨ c = ';' then .fail [] (.unexpected rest)
    else if numberAhead rest then number rest fun _ => .goto after
    else constant v.inCall rest fun _ => .goto after

/-- A value ends at its semicolon, and a call inside it at its parenthesis. -/
def value (v : View) : Script := skipSpaces v.rest fun rest =>
  match rest with
  | [] => .fail [] (if v.inCall then .unclosed v.top [] else ⟨.missingSemicolon, .scan⟩)
  | c :: _ =>
    if c = '}' ∧ v.inCall then .fail [] ⟨.unterminatedLiteral ')', .opener⟩
    else if c = ';' ∧ !v.inCall then .emit .semicolon [c] <| .leave .resume
    else if c = '}' ∧ v.config.requireSemicolon then .fail [] ⟨.missingSemicolon, .scan⟩
    else if c = '}' then .leave .resume
    else if c = ')' ∧ v.inCall then .emit .parenEnd [c] <| .leave .resume
    else component v .value rest

/-- Back in a selector, a name directly behind the interpolation continues the selector. -/
def closeInterpolation (v : View) : Script :=
  .emit .interpolationEnd ['}'] <| .leave <|
    if v.outer = .selector then .note { v.compound with glue := .interpolation } .resume
    else .resume

def interpolation (v : View) : Script :=
  match v.config.interpolation with
  | .skipped =>
    match v.rest.upTo? ['}'] with
    | none => .fail [] ⟨.unterminatedLiteral '}', .opener⟩
    | some body => .skip body <| closeInterpolation v
  | .tokens => skipSpaces v.rest fun rest =>
    match rest with
    | [] => .fail [] (.unclosed v.top [])
    | c :: _ => if c = '}' then closeInterpolation v else component v .interpolation rest

end StyleLex.Script

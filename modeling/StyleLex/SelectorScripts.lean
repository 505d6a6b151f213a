import StyleLex.ValueScripts

/-!
# Scripts of selectors

Simple selectors written together get a glue token between them, except for two bracket groups. No
glue stands in front of an interpolation, which may hold the rest of a name.
-/
namespace StyleLex.Script

def combinator? : Char → Option Kind
  | '>' => some .childCombinator
  | '+' => some .adjacentCombinator
  | '~' => some .siblingCombinator
  | _ => none

/-- The operators of attribute selectors. -/
def attributeOperators : List (Text × Kind) :=
  [(['~', '='], .contains), (['|', '='], .dashMatch), (['^', '='], .prefixMatch),
    (['$', '='], .suffixMatch), (['*', '='], .substringMatch), (['='], .equal)]

def attributeOperator? (rest : Text) : Option (Text × Kind) :=
  attributeOperators.find? fun o => o.1.isPrefixOf rest

/-- Records a simple selector that has just been handed over. -/
def noteSimple (kind : Kind) (next : Script) : Script := .note ⟨.simple, some kind⟩ next

def glue (needed : Bool) (next : Script) : Script :=
  if needed then .emit .andCombinator [] next else next

/-- The name of a pseudo selector behind its colons, and the parenthesis of its arguments. -/
def pseudoName (colons rest : Text) : Script :=
  let name := rest.takeWhile isNameChar
  let behind := rest.dropWhile isNameChar
  if name = [] then .fail colons (.unexpected rest)
  else .emit .pseudoSelector (colons ++ name) <| noteSimple .pseudoSelector <|
    if behind.head? = some '(' then .enter .pseudoArguments <| .skip ['('] <| .goto .pseudoArguments
    else .goto .selector

def pseudo (rest : Text) : Script :=
  match rest with
  | ':' :: t => pseudoName [':', ':'] t
  | t => pseudoName [':'] t

/-- A simple selector that begins with `c`. -/
def simpleSelector (c : Char) (rest : Text) : Script :=
  if c = '[' then .enter .attribute <| .emit .attrStart [c] <| .goto .attribute
  else if c = ':' then pseudo rest
  else if c = '.' then
    sigil .classSelector c rest fun _ => noteSimple .classSelector <| .goto .selector
  else if c = '#' then sigil .idSelector c rest fun _ => noteSimple .idSelector <| .goto .selector
  else if c = '*' then .emit .universalSelector [c] <| noteSimple .universalSelector <| .goto .selector
  else if c = '&' then
    .emit .parentSelector (c :: rest.takeWhile isNameChar) <|
      noteSimple .parentSelector <| .goto .selector
  else
    .emit .tagSelector (c :: rest.takeWhile isNameChar) <| noteSimple .tagSelector <| .goto .selector

/-- One part of a compound selector that begins with `c`. Behind an interpolation, a name continues
the simple selector in front of it. -/
def compoundPart (v : View) (c : Char) (rest : Text) : Script :=
  if interpolationAhead (c :: rest) then openInterpolation
  else if v.compound.glue = .interpolation ∧ isNameChar c then
    let kind := v.compound.kind?.getD .tagSelector
    .emit kind (c :: rest.takeWhile isNameChar) <| noteSimple kind <| .goto .selector
  else if opensSimple c then glue (v.compound.gluesTo c) <| simpleSelector c rest
  else .fail [] (.unexpected (c :: rest))

/-- Spaces between two compounds are a combinator of their own, unless another one, a comma or the
block follows. -/
def selector (v : View) : Script :=
  let blank := v.rest.takeWhile isSpace
  match v.rest.dropWhile isSpace with
  | [] => .fail blank (.unexpected [])
  | c :: t =>
    match combinator? c with
    | some kind =>
      .skip blank <| .emit kind [c] <| skipSpaces t fun _ => .note .detached <| .goto .selector
    | none =>
      if c = '{' then
        .skip blank <| .leave <| .enter .block <| .emit .braceStart [c] <|
          .note .detached <| .goto .statement
      else if c = ',' then .skip blank <| .emit .comma [c] <| .note .detached <| .goto .selector
      else if blank ≠ [] ∧ v.compound.glue ≠ .detached then
        .emit .descendantCombinator blank <| .note .detached <| .goto .selector
      else .skip blank <| compoundPart v c t

/-- The closing bracket of an attribute selector. -/
def attributeEnd (v : View) (rest : Text) : Script :=
  match rest with
  | ']' :: _ =>
    .emit .attrEnd [']'] <| .leave <| .note { v.compound with glue := .attribute } <| .goto .selector
  | t => .fail [] (.unclosed v.top t)

def attributeValue (v : View) (rest : Text) : Script :=
  let bare := rest.takeWhile isUnquotedChar
  match rest with
  | [] => .fail [] (.unclosed v.top [])
  | c :: t =>
    if isQuote c then quoted c t fun r => skipSpaces r <| attributeEnd v
    else if bare = [] then .fail [] (.unclosed v.top rest)
    else .emit .unquotedString bare <| skipSpaces (rest.dropWhile isUnquotedChar) <| attributeEnd v

/-- What follows the name of an attribute: an operator with a value, or nothing. -/
def attributeTest (v : View) (rest : Text) : Script :=
  match attributeOperator? rest with
  | none => attributeEnd v rest
  | some (text, kind) =>
    .emit kind text <| skipSpaces (rest.drop text.length) <| attributeValue v

def attributeGroup (v : View) : Script := skipSpaces v.rest fun rest =>
  let name := rest.takeWhile isNameChar
  if name = [] then .fail [] (.unclosed v.top rest)
  else .emit .attrName name <| skipSpaces (rest.dropWhile isNameChar) <| attributeTest v

/-- The text in front of the parenthesis that closes `depth` open ones and one more. -/
def upToClosing (depth : Nat) : Text → Option Text
  | [] => none
  | c :: t =>
    if c = ')' then
      match depth with
      | 0 => some []
      | d + 1 => (upToClosing d t).map (c :: ·)
    else if c = '(' then (upToClosing (depth + 1) t).map (c :: ·)
    else (upToClosing depth t).map (c :: ·)

def closeArguments (v : View) : Script :=
  .skip [')'] <| .leave <| .note { v.compound with glue := .simple } .resume

/-- The arguments of a pseudo selector are one token, as they are written. -/
def pseudoArguments (v : View) : Script :=
  match upToClosing 0 v.rest with
  | none => .fail v.rest (.unclosed v.top [])
  | some [] => closeArguments v
  | some arguments => .emit .langCode arguments (closeArguments v)

end StyleLex.Script

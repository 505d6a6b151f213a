import StyleLex.NumberUnit

/-! # Kinds of tokens -/
namespace StyleLex

inductive Kind where
  | braceStart | braceEnd | colon | semicolon | comma | equal | parenStart | parenEnd
  | tagSelector | classSelector | idSelector | universalSelector | parentSelector
  | attrStart | attrName | attrEnd | pseudoSelector
  | childCombinator | adjacentCombinator | siblingCombinator | descendantCombinator
  /-- Stands, without text, between two simple selectors that are written together. -/
  | andCombinator
  | contains | dashMatch | prefixMatch | suffixMatch | substringMatch
  | quotedString | unquotedString | integer | float | hexColor
  | variableName | propertyName | constant
  /-- The arguments of a pseudo selector, as they are written. -/
  | langCode
  | unit (u : NumberUnit)
  | interpolationStart | interpolationEnd
  | importRule | charsetRule | extendRule | includeRule
  deriving DecidableEq

namespace Kind

def all : List Kind :=
  [.braceStart, .braceEnd, .colon, .semicolon, .comma, .equal, .parenStart, .parenEnd,
    .tagSelector, .classSelector, .idSelector, .universalSelector, .parentSelector,
    .attrStart, .attrName, .attrEnd, .pseudoSelector,
    .childCombinator, .adjacentCombinator, .siblingCombinator, .descendantCombinator,
    .andCombinator, .contains, .dashMatch, .prefixMatch, .suffixMatch, .substringMatch,
    .quotedString, .unquotedString, .integer, .float, .hexColor,
    .variableName, .propertyName, .constant, .langCode,
    .interpolationStart, .interpolationEnd,
    .importRule, .charsetRule, .extendRule, .includeRule] ++ NumberUnit.all.map .unit

/-- The name of the kind; a unit is named with its suffix. -/
def name : Kind → String
  | .braceStart => "BraceStart" | .braceEnd => "BraceEnd"
  | .colon => "Colon" | .semicolon => "Semicolon" | .comma => "Comma" | .equal => "Equal"
  | .parenStart => "ParenStart" | .parenEnd => "ParenEnd"
  | .tagSelector => "TagSelector" | .classSelector => "ClassSelector"
  | .idSelector => "IdSelector" | .universalSelector => "UniversalSelector"
  | .parentSelector => "ParentSelector"
  | .attrStart => "AttrStart" | .attrName => "AttrName" | .attrEnd => "AttrEnd"
  | .pseudoSelector => "PseudoSelector"
  | .childCombinator => "ChildCombinator" | .adjacentCombinator => "AdjacentCombinator"
  | .siblingCombinator => "SiblingCombinator"
  | .descendantCombinator => "DescendantCombinator" | .andCombinator => "AndCombinator"
  | .contains => "Contains" | .dashMatch => "DashMatch" | .prefixMatch => "PrefixMatch"
  | .suffixMatch => "SuffixMatch" | .substringMatch => "SubstringMatch"
  | .quotedString => "QuotedString" | .unquotedString => "UnquotedString"
  | .integer => "Integer" | .float => "Float" | .hexColor => "HexColor"
  | .variableName => "Variable" | .propertyName => "PropertyName"
  | .constant => "Constant" | .langCode => "LangCode"
  | .unit u => "Unit(" ++ u.suffix ++ ")"
  | .interpolationStart => "InterpolationStart" | .interpolationEnd => "InterpolationEnd"
  | .importRule => "Import" | .charsetRule => "Charset"
  | .extendRule => "Extend" | .includeRule => "Include"

def ofName? (s : String) : Option Kind := all.find? fun k => k.name = s

/-- The words for a kind in a message. -/
def displayName : Kind → String
  | .braceStart => "`\x7b`" | .braceEnd => "`\x7d`"
  | .colon => "`:`" | .semicolon => "`;`" | .comma => "`,`" | .equal => "`=`"
  | .parenStart => "`(`" | .parenEnd => "`)`"
  | .tagSelector => "tag selector" | .classSelector => "class selector"
  | .idSelector => "id selector" | .universalSelector => "universal selector"
  | .parentSelector => "parent selector"
  | .attrStart => "`[`" | .attrName => "attribute name" | .attrEnd => "`]`"
  | .pseudoSelector => "pseudo selector"
  | .childCombinator => "`>`" | .adjacentCombinator => "`+`" | .siblingCombinator => "`~`"
  | .descendantCombinator => "descendant combinator"
  | .andCombinator => "compound selector glue"
  | .contains => "`~=`" | .dashMatch => "`|=`" | .prefixMatch => "`^=`"
  | .suffixMatch => "`$=`" | .substringMatch => "`*=`"
  | .quotedString => "quoted string" | .unquotedString => "unquoted string"
  | .integer => "integer" | .float => "float" | .hexColor => "hex color"
  | .variableName => "variable" | .propertyName => "property name"
  | .constant => "constant" | .langCode => "pseudo selector argument"
  | .unit _ => "unit"
  | .interpolationStart => "`#\x7b`" | .interpolationEnd => "interpolation `\x7d`"
  | .importRule => "`@import`" | .charsetRule => "`@charset`"
  | .extendRule => "`@extend`" | .includeRule => "`@include`"

/-- The display name, and for a unit also which one. -/
def display : Kind → String
  | .unit u => "unit `" ++ u.suffix ++ "`"
  | k => k.displayName

def isSelector : Kind → Bool
  | .tagSelector | .classSelector | .idSelector | .universalSelector | .parentSelector
  | .pseudoSelector => true
  | _ => false

def isCombinator : Kind → Bool
  | .childCombinator | .adjacentCombinator | .siblingCombinator | .descendantCombinator
  | .andCombinator => true
  | _ => false

theorem mem_all (k : Kind) : k ∈ all := by
  cases k with
  | unit u => exact List.mem_append_right _ (List.mem_map_of_mem u.mem_all)
  | _ => decide

end Kind

end StyleLex

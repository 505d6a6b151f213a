import StyleLex.Kind
import StyleLex.Proofs.WrittenText

/-!
# Selectors as they are written

A selector is a sequence of compounds with joints between them, and a compound is a head, parts, or
both. Each has a text and the tokens that are expected of it.
-/
namespace StyleLex

/-- Every parenthesis has its partner. -/
inductive Text.Balanced : Text → Prop where
  | nil : Balanced []
  | char {a : Char} {t : Text} (plain : a ≠ '(' ∧ a ≠ ')') (behind : Balanced t) : Balanced (a :: t)
  | group {t u : Text} (inside : Balanced t) (behind : Balanced u) : Balanced ('(' :: (t ++ ')' :: u))

namespace Written

/-- What a compound may begin with. -/
inductive Head where
  | tag (start : Char) (begins : isNameStart start = true) (more : Chars isNameChar)
  | universal
  | parent (suffix : Chars isNameChar)

namespace Head

def sigil : Head → Char
  | .tag start _ _ => start
  | .universal => '*'
  | .parent _ => '&'

/-- The text behind the first character. -/
def behind : Head → Text
  | .tag _ _ more => more.text
  | .universal => []
  | .parent suffix => suffix.text

def kind : Head → Kind
  | .tag _ _ _ => .tagSelector
  | .universal => .universalSelector
  | .parent _ => .parentSelector

def print (h : Head) : Text := h.sigil :: h.behind

def spelled (h : Head) : List (Kind × Text) := [(h.kind, h.print)]

end Head

inductive Operator where
  | equal | contains | dashMatch | prefixMatch | suffixMatch | substringMatch
  deriving DecidableEq

namespace Operator

def print : Operator → Text
  | .equal => ['=']
  | .contains => ['~', '=']
  | .dashMatch => ['|', '=']
  | .prefixMatch => ['^', '=']
  | .suffixMatch => ['$', '=']
  | .substringMatch => ['*', '=']

def kind : Operator → Kind
  | .equal => .equal
  | .contains => .contains
  | .dashMatch => .dashMatch
  | .prefixMatch => .prefixMatch
  | .suffixMatch => .suffixMatch
  | .substringMatch => .substringMatch

end Operator

/-- The value that an attribute is compared with. -/
inductive Operand where
  | quoted (string : QuotedText)
  | bare (text : SomeChars isUnquotedChar)

namespace Operand

def print : Operand → Text
  | .quoted string => string.print
  | .bare text => text.text

def spelled : Operand → List (Kind × Text)
  | .quoted string => [(.quotedString, string.body)]
  | .bare text => [(.unquotedString, text.text)]

end Operand

/-- An operator and a value, each with the spaces behind it. -/
structure Comparison where
  operator : Operator
  gap : Spaces
  operand : Operand
  behind : Spaces

namespace Comparison

def print (x : Comparison) : Text :=
  x.operator.print ++ (x.gap.text ++ (x.operand.print ++ x.behind.text))

def spelled (x : Comparison) : List (Kind × Text) :=
  (x.operator.kind, x.operator.print) :: x.operand.spelled

end Comparison

/-- The text between the parentheses of a pseudo selector. -/
structure Arguments where
  text : Text
  balanced : text.Balanced

namespace Arguments

def print (x : Arguments) : Text := '(' :: (x.text ++ [')'])

def spelled (x : Arguments) : List (Kind × Text) := if x.text = [] then [] else [(.langCode, x.text)]

end Arguments

/-- A pseudo selector has one colon, or two if it stands for an element. An attribute has spaces in
front of its name and behind it. -/
inductive Part where
  | byClass (name : Name)
  | byId (name : Name)
  | pseudo (element : Bool) (name : Name) (arguments? : Option Arguments)
  | attribute (gap : Spaces) (name : Name) (behind : Spaces) (comparison? : Option Comparison)

namespace Part

def sigil : Part → Char
  | .byClass _ => '.'
  | .byId _ => '#'
  | .pseudo _ _ _ => ':'
  | .attribute _ _ _ _ => '['

/-- The second colon, which only an element has. -/
def colon (element : Bool) : Text := if element then [':'] else []

/-- The text behind the first character. -/
def behind : Part → Text
  | .byClass name | .byId name => name.text
  | .pseudo element name arguments? => colon element ++ (name.text ++ arguments?.elim [] Arguments.print)
  | .attribute gap name behind comparison? =>
    gap.text ++ (name.text ++ (behind.text ++ (comparison?.elim [] Comparison.print ++ [']'])))

def print (p : Part) : Text := p.sigil :: p.behind

def spelled : Part → List (Kind × Text)
  | .byClass name => [(.classSelector, '.' :: name.text)]
  | .byId name => [(.idSelector, '#' :: name.text)]
  | .pseudo element name arguments? =>
    (.pseudoSelector, ':' :: (colon element ++ name.text)) :: arguments?.elim [] Arguments.spelled
  | .attribute _ name _ comparison? =>
    (.attrStart, ['[']) :: (.attrName, name.text) ::
      (comparison?.elim [] Comparison.spelled ++ [(.attrEnd, [']'])])

def isAttribute : Part → Bool
  | .attribute _ _ _ _ => true
  | _ => false

end Part

/-- The glue between two parts that are written together. -/
def glued (needed : Bool) : List (Kind × Text) := if needed then [(.andCombinator, [])] else []

def printParts (parts : List Part) : Text := parts.flatMap Part.print

/-- The tokens of parts, with glue in front of each but an attribute behind an attribute. -/
def spelledParts : Bool → List Part → List (Kind × Text)
  | _, [] => []
  | behindAttribute, part :: parts =>
    glued (!(behindAttribute && part.isAttribute)) ++ part.spelled ++
      spelledParts part.isAttribute parts

/-- A head, parts, or both. -/
inductive Chain where
  | headed (head : Head) (parts : List Part)
  | headless (first : Part) (parts : List Part)

namespace Chain

def sigil : Chain → Char
  | .headed head _ => head.sigil
  | .headless first _ => first.sigil

/-- The text behind the first character. -/
def behind : Chain → Text
  | .headed head parts => head.behind ++ printParts parts
  | .headless first parts => first.behind ++ printParts parts

def print (x : Chain) : Text := x.sigil :: x.behind

def spelled : Chain → List (Kind × Text)
  | .headed head parts => head.spelled ++ spelledParts false parts
  | .headless first parts => first.spelled ++ spelledParts first.isAttribute parts

end Chain

/-- The signs that stand between two compounds. -/
inductive Sign where
  | child | adjacent | sibling | comma
  deriving DecidableEq

namespace Sign

def char : Sign → Char
  | .child => '>'
  | .adjacent => '+'
  | .sibling => '~'
  | .comma => ','

def kind : Sign → Kind
  | .child => .childCombinator
  | .adjacent => .adjacentCombinator
  | .sibling => .siblingCombinator
  | .comma => .comma

end Sign

/-- What stands between two compounds: spaces, or a sign with spaces around it. -/
inductive Joint where
  | descendant (spaces : SomeChars isSpace)
  | signed (gap : Spaces) (sign : Sign) (behind : Spaces)

namespace Joint

def print : Joint → Text
  | .descendant spaces => spaces.text
  | .signed gap sign behind => gap.text ++ sign.char :: behind.text

def spelled : Joint → List (Kind × Text)
  | .descendant spaces => [(.descendantCombinator, spaces.text)]
  | .signed _ sign _ => [(sign.kind, [sign.char])]

end Joint

structure Selector where
  first : Chain
  more : List (Joint × Chain)

namespace Selector

def print (s : Selector) : Text := s.first.print ++ s.more.flatMap fun x => x.1.print ++ x.2.print

def spelled (s : Selector) : List (Kind × Text) :=
  s.first.spelled ++ s.more.flatMap fun x => x.1.spelled ++ x.2.spelled

end Selector

end Written

end StyleLex

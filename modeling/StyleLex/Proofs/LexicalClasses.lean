import StyleLex.Proofs.TokenTrails
import StyleLex.Proofs.TokenGrammar
import StyleLex.Proofs.WrittenSelectors

/-!
# Lexical classes

The text that a token of each kind has. Runs of characters are longest, which is said with the text
behind the token. A few kinds ask for more than the token and what is behind it: the quote in front of a
string, the number in front of a unit, and whether a word stands in a call. The trail tells these.
-/
namespace StyleLex

namespace Text

/-- `t` is not empty, and the longest run of the class in front of `tail`. -/
structure LongestRun (p : Char → Bool) (t tail : Text) : Prop where
  ne : t ≠ []
  munch : (t ++ tail).Munch p t tail

/-- A sign and a name, which is not empty. -/
def Signed (sign t tail : Text) : Prop := ∃ name, t = sign ++ name ∧ LongestRun isNameChar name tail

/-- One character of the class, and all that can be part of a name behind it. -/
def Headed (p : Char → Bool) (t tail : Text) : Prop :=
  ∃ a name, t = a :: name ∧ p a = true ∧ Munch isNameChar (name ++ tail) name tail

/-- Digits behind a sign, if there is one. No point follows. -/
def IsInteger (t tail : Text) : Prop :=
  ∃ sgn digits, t = sgn ++ digits ∧ (sgn = [] ∨ sgn = ['-']) ∧ LongestRun Char.isDigit digits tail ∧
    tail.head? ≠ some '.'

/-- A point with digits behind it, and a sign and digits in front of it, if there are any. No second
fraction follows. -/
def IsFloat (t tail : Text) : Prop :=
  ∃ sgn whole digits, t = sgn ++ whole ++ '.' :: digits ∧ (sgn = [] ∨ sgn = ['-']) ∧
    (∀ a ∈ whole, a.isDigit = true) ∧ LongestRun Char.isDigit digits tail ∧
    Script.fractionAhead tail = false

/-- The suffix of the unit up to ASCII case, which is a percent sign or all the letters. -/
structure IsUnit (u : NumberUnit) (t tail : Text) : Prop where
  suffix : t.map Char.toLower = u.suffix.toList
  longest : t = ['%'] ∨ t.LongestRun Char.isAlpha tail

/-- A hash and three or six hexadecimal digits. The name ends there. -/
def IsHexColor (t tail : Text) : Prop :=
  ∃ digits, t = '#' :: digits ∧ (digits.length = 3 ∨ digits.length = 6) ∧
    (∀ a ∈ digits, isHexDigit a = true) ∧ tail.Stops isNameChar

/-- A word of a value, up to a character that ends it or an interpolation. -/
structure IsWord (inCall : Bool) (t tail : Text) : Prop where
  ne : t ≠ []
  inside : ∀ a ∈ t, isSpace a = false ∧ isQuote a = false ∧ a ∉ ['{', '}', '(', ')', ','] ∧
    (a = ';' → inCall = true)
  stop : ∀ a, tail.head? = some a →
    Script.endsWord inCall a = true ∨ Script.interpolationAhead tail = true
  whole : tail.head? = some '{' → t.getLast? ≠ some '#'

/-- The text closes `depth` parentheses that are open in front of it, and all of its own. -/
def Closing : Nat → Text → Prop
  | 0, t => t.Balanced
  | depth + 1, t => ∃ u v, t = u ++ ')' :: v ∧ u.Balanced ∧ Closing depth v

end Text

namespace Kind

/-- The text of a kind all of whose tokens are alike. -/
def literal? : Kind → Option Text
  | .braceStart => some ['{']
  | .braceEnd | .interpolationEnd => some ['}']
  | .interpolationStart => some ['#', '{']
  | .colon => some [':']
  | .semicolon => some [';']
  | .comma => some [',']
  | .equal => some ['=']
  | .parenStart => some ['(']
  | .parenEnd => some [')']
  | .attrStart => some ['[']
  | .attrEnd => some [']']
  | .childCombinator => some ['>']
  | .adjacentCombinator => some ['+']
  | .siblingCombinator => some ['~']
  | .andCombinator => some []
  | .contains => some ['~', '=']
  | .dashMatch => some ['|', '=']
  | .prefixMatch => some ['^', '=']
  | .suffixMatch => some ['$', '=']
  | .substringMatch => some ['*', '=']
  | .importRule => some "@import".toList
  | .charsetRule => some "@charset".toList
  | .extendRule => some "@extend".toList
  | .includeRule => some "@include".toList
  | _ => none

end Kind

namespace Trail

/-- The innermost bracket that is open is that of a call. -/
def inCall (tr : Trail) : Bool :=
  (openBrackets [] tr.kinds.reverse).bind List.head? = some .parenStart

/-- The text goes on with a simple selector, right behind an interpolation. -/
structure Continues (tr : Trail) (t tail : Text) : Prop where
  last : tr.last? = some .interpolationEnd
  tight : tr.gap = []
  name : t.LongestRun isNameChar tail

/-- `t` is right behind a quote and in front of another one, and has none of these. -/
def Encloses (tr : Trail) (t tail : Text) : Prop :=
  ∃ quote gap, isQuote quote = true ∧ tr.gap = gap ++ [quote] ∧ quote ∉ t ∧ tail.head? = some quote

/-- The last token is a number, and nothing is passed over behind it. -/
structure BehindNumber (tr : Trail) : Prop where
  last : tr.last? = some .integer ∨ tr.last? = some .float
  tight : tr.gap = []

/-- The text `t` behind the trail and in front of `tail` is that of a token of the kind. -/
def Spells (tr : Trail) (t tail : Text) : Kind → Prop
  | .tagSelector => t.Headed isNameStart tail ∨ tr.Continues t tail
  | .classSelector => Text.Signed ['.'] t tail ∨ tr.Continues t tail
  | .idSelector => Text.Signed ['#'] t tail ∨ tr.Continues t tail
  | .universalSelector => t = ['*'] ∨ tr.Continues t tail
  | .parentSelector => t.Headed (· = '&') tail ∨ tr.Continues t tail
  | .pseudoSelector =>
    Text.Signed [':'] t tail ∨ Text.Signed [':', ':'] t tail ∨ tr.Continues t tail
  | .attrName => t.LongestRun isNameChar tail
  | .descendantCombinator => t.LongestRun isSpace tail
  | .quotedString => tr.Encloses t tail
  | .unquotedString => t.LongestRun isUnquotedChar tail
  | .integer => t.IsInteger tail
  | .float => t.IsFloat tail
  | .unit u => t.IsUnit u tail ∧ tr.BehindNumber
  | .hexColor => t.IsHexColor tail
  | .variableName => Text.Signed ['$'] t tail
  | .propertyName => t.Headed (fun a => a = '-' || isNameStart a) tail
  | .constant => t.IsWord tr.inCall tail
  | .langCode => t ≠ [] ∧ t.Balanced ∧ tail.head? = some ')'
  | k => k.literal? = some t ∧ (k.isAtRule = true → tail.Stops isNameChar)

variable {tr : Trail} {t tail : Text} {k : Kind}

theorem spells_of_literal (h : k.literal? = some t)
    (stop : k.isAtRule = true → tail.Stops isNameChar) : tr.Spells t tail k := by
  cases k <;> first | exact ⟨h, stop⟩ | cases h

theorem spells_of_continues (hk : k.isSelector = true) (h : tr.Continues t tail) :
    tr.Spells t tail k := by
  cases k <;> first | exact .inr h | exact .inr (.inr h) | cases hk

end Trail

namespace Text

variable {t u rest run tail : Text} {p : Char → Bool} {a : Char} {depth : Nat}

theorem LongestRun.of_munch (munch : rest.Munch p run tail) (ne : run ≠ []) : run.LongestRun p tail :=
  ⟨ne, rfl, munch.inside, munch.stop⟩

theorem Headed.of_munch (munch : rest.Munch isNameChar run tail) (ha : p a = true) :
    Text.Headed p (a :: run) tail :=
  ⟨a, run, rfl, ha, rfl, munch.inside, munch.stop⟩

theorem Balanced.append (ht : t.Balanced) (hu : u.Balanced) : Balanced (t ++ u) := by
  induction ht with
  | nil => exact hu
  | char plain _ ih => exact .char plain ih
  | group inside _ _ ih =>
    rw [List.cons_append, List.append_assoc]
    exact .group inside ih

theorem Closing.append (hu : u.Balanced) (h : t.Closing depth) : Closing depth (u ++ t) := by
  cases depth with
  | zero => exact hu.append h
  | succ depth =>
    obtain ⟨v, w, rfl, hv, hw⟩ := h
    exact ⟨u ++ v, w, (List.append_assoc u v _).symm, hu.append hv, hw⟩

end Text

namespace Script

/-- The text in front of the closing parenthesis closes the ones in front of it. -/
theorem closing_of_upToClosing {depth : Nat} {t s : Text} (h : upToClosing depth t = some s) :
    s.Closing depth := by
  induction t generalizing depth s with
  | nil => cases h
  | cons a t ih =>
    unfold upToClosing at h
    split at h
    case isTrue hclose =>
      subst hclose
      split at h
      case h_1 =>
        obtain rfl := Option.some.inj h
        exact Text.Balanced.nil
      case h_2 =>
        obtain ⟨u, hu, rfl⟩ := Option.map_eq_some_iff.1 h
        exact ⟨[], u, rfl, .nil, ih hu⟩
    case isFalse hclose =>
      split at h
      case isTrue hopen =>
        obtain ⟨u, hu, rfl⟩ := Option.map_eq_some_iff.1 h
        obtain ⟨inside, behind, rfl, hinside, hbehind⟩ := ih hu
        -- The first parenthesis that is closed behind the opening one is its partner.
        have hgroup := Text.Balanced.group hinside .nil
        have happend := hbehind.append hgroup
        rwa [List.cons_append, List.append_assoc, ← hopen] at happend
      case isFalse hopen =>
        obtain ⟨u, hu, rfl⟩ := Option.map_eq_some_iff.1 h
        exact (ih hu).append (Text.Balanced.char ⟨hopen, hclose⟩ .nil)

end Script

end StyleLex

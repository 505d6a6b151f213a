import StyleLex.Proofs.StatementForms

/-! # Classes of kinds, and the classes that the scripts' tables give -/
namespace StyleLex

namespace Kind

def isAtRule : Kind → Bool
  | .importRule | .charsetRule | .extendRule | .includeRule => true
  | _ => false

/-- The operators between the name and the value of an attribute. -/
def isOperator : Kind → Bool
  | .equal | .contains | .dashMatch | .prefixMatch | .suffixMatch | .substringMatch => true
  | _ => false

/-- The parts of a value that are one token. -/
def isLiteral : Kind → Bool
  | .variableName | .hexColor | .quotedString | .comma | .constant => true
  | _ => false

def opens : Kind → Bool
  | .braceStart | .parenStart | .attrStart | .interpolationStart => true
  | _ => false

/-- The bracket that a closing bracket belongs to. -/
def opener? : Kind → Option Kind
  | .braceEnd => some .braceStart
  | .parenEnd => some .parenStart
  | .attrEnd => some .attrStart
  | .interpolationEnd => some .interpolationStart
  | _ => none

def isBracket (k : Kind) : Bool := k.opens || k.opener?.isSome

theorem isBracket_of_isAtRule {k : Kind} (h : k.isAtRule = true) : k.isBracket = false := by
  cases k <;> first | rfl | simp [isAtRule] at h

theorem isBracket_of_isOperator {k : Kind} (h : k.isOperator = true) : k.isBracket = false := by
  cases k <;> first | rfl | simp [isOperator] at h

theorem isBracket_of_isLiteral {k : Kind} (h : k.isLiteral = true) : k.isBracket = false := by
  cases k <;> first | rfl | simp [isLiteral] at h

theorem isBracket_of_isSelector {k : Kind} (h : k.isSelector = true) : k.isBracket = false := by
  cases k <;> first | rfl | simp [isSelector] at h

theorem isBracket_of_isCombinator {k : Kind} (h : k.isCombinator = true) : k.isBracket = false := by
  cases k <;> first | rfl | simp [isCombinator] at h

end Kind

namespace Script

theorem isSelector_of_sigilKind? {a : Char} {k : Kind} (h : sigilKind? a = some k) :
    k.isSelector = true := by
  unfold sigilKind? at h
  split at h <;> simp at h <;> subst h <;> rfl

theorem isCombinator_of_combinator? {a : Char} {k : Kind} (h : combinator? a = some k) :
    k.isCombinator = true := by
  unfold combinator? at h
  split at h <;> simp at h <;> subst h <;> rfl

theorem isOperator_of_mem {text : Text} {k : Kind} (h : (text, k) ∈ attributeOperators) :
    k.isOperator = true := by
  simp only [attributeOperators, List.mem_cons, Prod.mk.injEq, List.not_mem_nil, or_false] at h
  rcases h with h | h | h | h | h | h <;> rw [h.2] <;> rfl

theorem isAtRule_of_atKeyword? {name : Text} {k : Kind} (h : atKeyword? name = some k) :
    k.isAtRule = true := by
  rw [atKeyword?] at h
  split at h
  case isTrue => cases h; rfl
  case isFalse =>
  split at h
  case isTrue => cases h; rfl
  case isFalse =>
  split at h
  case isTrue => cases h; rfl
  case isFalse =>
  split at h
  case isTrue => cases h; rfl
  case isFalse => cases h

end Script

end StyleLex

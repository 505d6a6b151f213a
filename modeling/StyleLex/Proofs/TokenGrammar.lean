import StyleLex.Config
import StyleLex.Proofs.KindClasses

/-!
# The grammar of token kinds

A sheet is a sequence of items. Options change it in two places: interpolations that are passed over
are empty, and where semicolons are not required the last item of a block may lack its own.
-/
namespace StyleLex

inductive Phrase where
  | number
  /-- One part of a value. -/
  | component
  | value
  | interpolation
  /-- One part of a selector. -/
  | part
  | selector
  /-- An item without its semicolon. -/
  | declaration (inBlock : Bool)
  | item (inBlock : Bool)
  | items (inBlock : Bool)
  /-- What stands between the braces of a block. -/
  | body

namespace Phrase

abbrev sheet : Phrase := .items false

end Phrase

/-- The sequences of kinds that make up a phrase. -/
inductive Derives (c : Config) : Phrase → List Kind → Prop where
  | number {k : Kind} (kind : k = .integer ∨ k = .float) : Derives c .number [k]
  | measure {k : Kind} (kind : k = .integer ∨ k = .float) (u : NumberUnit) :
      Derives c .number [k, .unit u]
  | literal {k : Kind} (kind : k.isLiteral = true) : Derives c .component [k]
  | quantity {w : List Kind} (number : Derives c .number w) : Derives c .component w
  | call {w : List Kind} (value : Derives c .value w) :
      Derives c .component (.parenStart :: w ++ [.parenEnd])
  | inserted {w : List Kind} (interpolation : Derives c .interpolation w) : Derives c .component w
  | noValue : Derives c .value []
  | value {u w : List Kind} (head : Derives c .component u) (tail : Derives c .value w) :
      Derives c .value (u ++ w)
  | interpolation {w : List Kind} (value : Derives c .value w)
      (skipped : c.interpolation = .skipped → w = []) :
      Derives c .interpolation (.interpolationStart :: w ++ [.interpolationEnd])
  | simple {k : Kind} (kind : k = .comma ∨ k.isCombinator = true ∨ k.isSelector = true) :
      Derives c .part [k]
  | arguments : Derives c .part [.pseudoSelector, .langCode]
  | attributeName : Derives c .part [.attrStart, .attrName, .attrEnd]
  | attributeTest {o s : Kind} (operator : o.isOperator = true)
      (value : s = .quotedString ∨ s = .unquotedString) :
      Derives c .part [.attrStart, .attrName, o, s, .attrEnd]
  | interpolated {w : List Kind} (interpolation : Derives c .interpolation w) : Derives c .part w
  | onePart {w : List Kind} (part : Derives c .part w) : Derives c .selector w
  | parts {u w : List Kind} (head : Derives c .part u) (tail : Derives c .selector w) :
      Derives c .selector (u ++ w)
  | atRule {b : Bool} {k : Kind} {w : List Kind} (kind : k.isAtRule = true)
      (value : Derives c .value w) : Derives c (.declaration b) (k :: w)
  | assignment {b : Bool} {w : List Kind} (value : Derives c .value w) :
      Derives c (.declaration b) (.variableName :: .colon :: w)
  | property {w : List Kind} (value : Derives c .value w) :
      Derives c (.declaration true) (.propertyName :: .colon :: w)
  | string {b : Bool} : Derives c (.item b) [.quotedString]
  | quantityItem {b : Bool} {w : List Kind} (number : Derives c .number w) : Derives c (.item b) w
  | declared {b : Bool} {w : List Kind} (declaration : Derives c (.declaration b) w) :
      Derives c (.item b) (w ++ [.semicolon])
  | block {b : Bool} {w : List Kind} (body : Derives c .body w) :
      Derives c (.item b) (.braceStart :: w ++ [.braceEnd])
  | rule {b : Bool} {s w : List Kind} (selector : Derives c .selector s) (body : Derives c .body w) :
      Derives c (.item b) (s ++ (.braceStart :: w ++ [.braceEnd]))
  | noItems {b : Bool} : Derives c (.items b) []
  | items {b : Bool} {u w : List Kind} (head : Derives c (.item b) u) (tail : Derives c (.items b) w) :
      Derives c (.items b) (u ++ w)
  | body {w : List Kind} (items : Derives c (.items true) w) : Derives c .body w
  | lastDeclaration {u w : List Kind} (lenient : c.requireSemicolon = false)
      (items : Derives c (.items true) u) (declaration : Derives c (.declaration true) w) :
      Derives c .body (u ++ w)

/-- The brackets that are open behind a word, innermost first, if `open_` are open in front of it and
each closing bracket belongs to the innermost one. -/
def openBrackets (open_ : List Kind) : List Kind → Option (List Kind)
  | [] => some open_
  | k :: w =>
    match k.opener?, open_ with
    | none, _ => openBrackets (if k.opens then k :: open_ else open_) w
    | some o, o' :: outer => if o = o' then openBrackets outer w else none
    | some _, [] => none

theorem openBrackets_append (st u w : List Kind) :
    openBrackets st (u ++ w) = (openBrackets st u).bind (openBrackets · w) := by
  induction u generalizing st with
  | nil => rfl
  | cons k u ih =>
    cases hk : k.opener? with
    | none => simp [openBrackets, hk, ih]
    | some o =>
      cases st with
      | nil => simp [openBrackets, hk]
      | cons o' outer =>
        by_cases ho : o = o'
        · simp [openBrackets, hk, ho, ih]
        · simp [openBrackets, hk, ho]

theorem openBrackets_cons {k : Kind} (h : k.isBracket = false) (st w : List Kind) :
    openBrackets st (k :: w) = openBrackets st w := by
  obtain ⟨hopens, hopener⟩ : k.opens = false ∧ k.opener? = none := by
    simpa [Kind.isBracket] using h
  simp [openBrackets, hopener, hopens]

/-- A bracket around a word that leaves nothing open leaves nothing open. -/
theorem openBrackets_enclosed {o k : Kind} {w : List Kind} (hopens : o.opens = true)
    (hopener : o.opener? = none) (hcloses : k.opener? = some o)
    (hw : ∀ st, openBrackets st w = some st) (st : List Kind) :
    openBrackets st (o :: w ++ [k]) = some st := by
  simp [openBrackets, hopener, hopens, openBrackets_append, hw, hcloses]

/-- Every phrase closes the brackets that it opens, in order. -/
theorem Derives.closed {c : Config} {p : Phrase} {w : List Kind} (h : Derives c p w)
    (st : List Kind) : openBrackets st w = some st := by
  induction h generalizing st with
  | number kind => rcases kind with rfl | rfl <;> rfl
  | measure kind u => rcases kind with rfl | rfl <;> rfl
  | literal kind => exact openBrackets_cons (Kind.isBracket_of_isLiteral kind) st []
  | quantity _ ih => exact ih st
  | call _ ih => exact openBrackets_enclosed rfl rfl rfl ih st
  | inserted _ ih => exact ih st
  | noValue => rfl
  | value _ _ ihu ihw => simp [openBrackets_append, ihu, ihw]
  | interpolation _ _ ih => exact openBrackets_enclosed rfl rfl rfl ih st
  | simple kind =>
    rcases kind with rfl | kind | kind
    · rfl
    · exact openBrackets_cons (Kind.isBracket_of_isCombinator kind) st []
    · exact openBrackets_cons (Kind.isBracket_of_isSelector kind) st []
  | arguments => rfl
  | attributeName => rfl
  | @attributeTest o s operator value =>
    have htest (st : List Kind) : openBrackets st [.attrName, o, s] = some st := by
      rw [openBrackets_cons rfl, openBrackets_cons (Kind.isBracket_of_isOperator operator)]
      rcases value with rfl | rfl <;> rfl
    exact openBrackets_enclosed rfl rfl rfl htest st
  | interpolated _ ih => exact ih st
  | onePart _ ih => exact ih st
  | parts _ _ ihu ihw => simp [openBrackets_append, ihu, ihw]
  | atRule kind _ ih => rw [openBrackets_cons (Kind.isBracket_of_isAtRule kind), ih]
  | assignment _ ih => exact ih st
  | property _ ih => exact ih st
  | string => rfl
  | quantityItem _ ih => exact ih st
  | declared _ ih =>
    rw [openBrackets_append, ih]
    rfl
  | block _ ih => exact openBrackets_enclosed rfl rfl rfl ih st
  | rule _ _ ihs ihw =>
    rw [openBrackets_append, ihs, Option.bind_some]
    exact openBrackets_enclosed rfl rfl rfl ihw st
  | noItems => rfl
  | items _ _ ihu ihw => simp [openBrackets_append, ihu, ihw]
  | body _ ih => exact ih st
  | lastDeclaration _ _ _ ihu ihw => simp [openBrackets_append, ihu, ihw]

/-- What begins a phrase has nothing but open brackets left to close. -/
theorem Derives.openBrackets_isSome {c : Config} {p : Phrase} {u w : List Kind}
    (h : Derives c p (u ++ w)) : (openBrackets [] u).isSome = true := by
  have hclosed := h.closed []
  rw [openBrackets_append] at hclosed
  cases hu : openBrackets [] u with
  | none => simp [hu] at hclosed
  | some st => rfl

end StyleLex

import StyleLex.Proofs.OpenModes
import StyleLex.Proofs.TokenGrammar

/-!
# Completing a sheet

The words that complete the constructs still open to a sheet. What a state may go on with is said by
these words, so a step is right if every word behind it gives a word in front of it.
-/
namespace StyleLex

variable {c : Config} {ms : List Mode} {w : List Kind}

def inBlock (ms : List Mode) : Bool := !ms.isEmpty

/-- The words that close all modes of `ms`, innermost first, and end the sheet. -/
inductive Completes (c : Config) : List Mode → List Kind → Prop where
  | sheet {w : List Kind} (items : Derives c .sheet w) : Completes c [] w
  | block {ms : List Mode} {b w : List Kind} (body : Derives c .body b) (outer : Completes c ms w) :
      Completes c (.block :: ms) (b ++ .braceEnd :: w)
  | rule {ms : List Mode} {s w : List Kind} (selector : s = [] ∨ Derives c .selector s)
      (block : Completes c (.block :: ms) w) : Completes c (.selector :: ms) (s ++ .braceStart :: w)
  | value {ms : List Mode} {v w : List Kind} (value : Derives c .value v) (outer : Completes c ms w) :
      Completes c (.value :: ms) (v ++ .semicolon :: w)
  | lastValue {ms : List Mode} {v w : List Kind} (lenient : c.requireSemicolon = false)
      (value : Derives c .value v) (outer : Completes c ms w) :
      Completes c (.value :: .block :: ms) (v ++ .braceEnd :: w)
  | call {ms : List Mode} {v w : List Kind} (value : Derives c .value v) (outer : Completes c ms w) :
      Completes c (.functionArguments :: ms) (v ++ .parenEnd :: w)
  | interpolation {ms : List Mode} {v w : List Kind} (value : Derives c .value v)
      (skipped : c.interpolation = .skipped → v = []) (outer : Completes c ms w) :
      Completes c (.interpolation :: ms) (v ++ .interpolationEnd :: w)

theorem Derives.body_cons {i b : List Kind} (hi : Derives c (.item true) i) (hb : Derives c .body b) :
    Derives c .body (i ++ b) := by
  cases hb with
  | body items => exact .body (.items hi items)
  | lastDeclaration lenient items declaration =>
    rw [← List.append_assoc]
    exact .lastDeclaration lenient (.items hi items) declaration

namespace Completes

theorem item {i : List Kind} (h : Completes c ms w) (hb : Blocks ms)
    (hi : Derives c (.item (inBlock ms)) i) : Completes c ms (i ++ w) := by
  cases hb with
  | nil =>
    cases h with
    | sheet items => exact .sheet (.items hi items)
  | cons outer =>
    cases h with
    | block body outer =>
      rw [← List.append_assoc]
      exact .block (hi.body_cons body) outer

/-- A value that is completed completes the declaration that it belongs to. -/
theorem declaration {p : List Kind} (h : Completes c (.value :: ms) w) (hb : Blocks ms)
    (hp : ∀ v, Derives c .value v → Derives c (.declaration (inBlock ms)) (p ++ v)) :
    Completes c ms (p ++ w) := by
  cases h with
  | value value outer =>
    have hi := outer.item hb (.declared (hp _ value))
    simpa using hi
  | lastValue lenient value outer =>
    have hd := Derives.lastDeclaration lenient .noItems (hp _ value)
    have hw := Completes.block hd outer
    simpa using hw

theorem part {p : List Kind} (h : Completes c (.selector :: ms) w) (hp : Derives c .part p) :
    Completes c (.selector :: ms) (p ++ w) := by
  cases h with
  | rule selector block =>
    rw [← List.append_assoc]
    apply Completes.rule _ block
    rcases selector with rfl | selector
    · rw [List.append_nil]
      exact .inr (.onePart hp)
    · exact .inr (.parts hp selector)

theorem simplePart {k : Kind} (h : Completes c (.selector :: ms) w)
    (hk : k = .comma ∨ k.isCombinator = true ∨ k.isSelector = true) :
    Completes c (.selector :: ms) (k :: w) :=
  h.part (.simple hk)

theorem openBlock (h : Completes c (.block :: ms) w) (hb : Blocks ms) :
    Completes c ms (.braceStart :: w) := by
  cases h with
  | block body outer => simpa using outer.item hb (.block body)

theorem openSelector (h : Completes c (.selector :: ms) w) (hb : Blocks ms) : Completes c ms w := by
  cases h with
  | rule selector block =>
    rcases selector with rfl | selector
    · exact block.openBlock hb
    · cases block with
      | block body outer => simpa using outer.item hb (.rule selector body)

theorem component {u : List Kind} (h : Completes c ms w) (hms : ValueModes c ms)
    (hu : Derives c .component u) : Completes c ms (u ++ w) := by
  have hskip (htokens : c.interpolation = .tokens) {v : List Kind} :
      c.interpolation = .skipped → u ++ v = [] := by
    intro hskipped
    rw [htokens] at hskipped
    contradiction
  cases h with
  | sheet => cases hms
  | block => cases hms
  | rule => cases hms
  | value value outer =>
    rw [← List.append_assoc]
    exact .value (.value hu value) outer
  | lastValue lenient value outer =>
    rw [← List.append_assoc]
    exact .lastValue lenient (.value hu value) outer
  | call value outer =>
    rw [← List.append_assoc]
    exact .call (.value hu value) outer
  | interpolation value _ outer =>
    rw [← List.append_assoc]
    cases hms with
    | interpolation htokens => exact .interpolation (.value hu value) (hskip htokens) outer
    | selector htokens => exact .interpolation (.value hu value) (hskip htokens) outer

theorem openCall (h : Completes c (.functionArguments :: ms) w) (hms : ValueModes c ms) :
    Completes c ms (.parenStart :: w) := by
  cases h with
  | call value outer => simpa using outer.component hms (.call value)

theorem openInterpolation (h : Completes c (.interpolation :: ms) w) (hms : ValueModes c ms) :
    Completes c ms (.interpolationStart :: w) := by
  cases h with
  | interpolation value skipped outer =>
    simpa using outer.component hms (.inserted (.interpolation value skipped))

theorem openSelectorInterpolation (h : Completes c (.interpolation :: .selector :: ms) w) :
    Completes c (.selector :: ms) (.interpolationStart :: w) := by
  cases h with
  | interpolation value skipped outer =>
    simpa using outer.part (.interpolated (.interpolation value skipped))

theorem closeInterpolation (h : Completes c ms w) :
    Completes c (.interpolation :: ms) (.interpolationEnd :: w) :=
  .interpolation .noValue (fun _ => rfl) h

theorem closeBlock (h : Completes c ms w) : Completes c (.block :: ms) (.braceEnd :: w) :=
  .block (.body .noItems) h

theorem startBlock (h : Completes c (.block :: ms) w) :
    Completes c (.selector :: ms) (.braceStart :: w) :=
  .rule (.inl rfl) h

theorem closeCall (h : Completes c ms w) :
    Completes c (.functionArguments :: ms) (.parenEnd :: w) :=
  .call .noValue h

theorem closeValue (h : Completes c ms w) : Completes c (.value :: ms) (.semicolon :: w) :=
  .value .noValue h

end Completes

theorem Blocks.exists_completes (c : Config) (h : Blocks ms) : ∃ w, Completes c ms w := by
  induction h with
  | nil => exact ⟨[], .sheet .noItems⟩
  | cons _ ih =>
    obtain ⟨w, hw⟩ := ih
    exact ⟨_, hw.closeBlock⟩

theorem Blocks.exists_completes_selector (c : Config) (h : Blocks ms) :
    ∃ w, Completes c (.selector :: ms) w := by
  obtain ⟨w, hw⟩ := (Blocks.cons h).exists_completes c
  exact ⟨_, hw.startBlock⟩

theorem Blocks.exists_completes_value (c : Config) (h : Blocks ms) :
    ∃ w, Completes c (.value :: ms) w := by
  obtain ⟨w, hw⟩ := h.exists_completes c
  exact ⟨_, hw.closeValue⟩

theorem ValueModes.exists_completes (h : ValueModes c ms) : ∃ w, Completes c ms w := by
  induction h with
  | value outer => exact outer.exists_completes_value c
  | call _ ih =>
    obtain ⟨w, hw⟩ := ih
    exact ⟨_, hw.closeCall⟩
  | interpolation _ _ ih =>
    obtain ⟨w, hw⟩ := ih
    exact ⟨_, hw.closeInterpolation⟩
  | selector _ outer =>
    obtain ⟨w, hw⟩ := outer.exists_completes_selector c
    exact ⟨_, hw.closeInterpolation⟩

/-- The words that may come behind a state with the modes `ms` open. -/
def Follows (c : Config) : State → List Mode → List Kind → Prop
  | .atRule, ms, w => ∃ k u, k.isAtRule = true ∧ w = k :: u ∧ Completes c (.value :: ms) u
  | .assignment, ms, w => ∃ u, w = .variableName :: .colon :: u ∧ Completes c (.value :: ms) u
  | .property, ms, w => ∃ u, w = .propertyName :: .colon :: u ∧ Completes c (.value :: ms) u
  | .attribute, ms, w => ∃ t u, Derives c .part (.attrStart :: t) ∧ w = t ++ u ∧ Completes c ms.tail u
  | .pseudoArguments, ms, w => ∃ u, (w = u ∨ w = .langCode :: u) ∧ Completes c ms.tail u
  | .done, _, w => w = []
  | .statement, ms, w | .selector, ms, w | .value, ms, w | .interpolation, ms, w => Completes c ms w

theorem Blocks.follows_resume (h : Blocks ms) :
    Follows c (.ofMode (topMode ms)) ms w ↔ Completes c ms w := by
  rw [h.resume]
  rfl

theorem ValueModes.follows_resume (h : ValueModes c ms) :
    Follows c (.ofMode (topMode ms)) ms w ↔ Completes c ms w := by
  cases h <;> rfl

end StyleLex

import StyleLex.Machine
import StyleLex.Proofs.KindClasses

/-!
# The modes that are open in each state

Modes are listed innermost first and without the top level. A step that does not fail leaves a state
that fits the open modes.
-/
namespace StyleLex

def topMode (ms : List Mode) : Mode := ms.headD .topLevel

/-- Blocks, and nothing else, down to the top level. -/
inductive Blocks : List Mode → Prop where
  | nil : Blocks []
  | cons {ms : List Mode} (outer : Blocks ms) : Blocks (.block :: ms)

/-- The modes that a part of a value is read in: a value, or calls and interpolations inside a value
or a selector. An interpolation that is passed over has no parts. -/
inductive ValueModes (c : Config) : List Mode → Prop where
  | value {ms : List Mode} (outer : Blocks ms) : ValueModes c (.value :: ms)
  | call {ms : List Mode} (outer : ValueModes c ms) : ValueModes c (.functionArguments :: ms)
  | interpolation {ms : List Mode} (tokens : c.interpolation = .tokens) (outer : ValueModes c ms) :
      ValueModes c (.interpolation :: ms)
  | selector {ms : List Mode} (tokens : c.interpolation = .tokens) (outer : Blocks ms) :
      ValueModes c (.interpolation :: .selector :: ms)

inductive State.Fits (c : Config) : State → List Mode → Prop where
  | statement {ms : List Mode} (outer : Blocks ms) : Fits c .statement ms
  | atRule {ms : List Mode} (outer : Blocks ms) : Fits c .atRule ms
  | assignment {ms : List Mode} (outer : Blocks ms) : Fits c .assignment ms
  | property {ms : List Mode} (outer : Blocks ms) : Fits c .property (.block :: ms)
  | selector {ms : List Mode} (outer : Blocks ms) : Fits c .selector (.selector :: ms)
  | group {ms : List Mode} (outer : Blocks ms) : Fits c .attribute (.attribute :: .selector :: ms)
  | pseudoArguments {ms : List Mode} (outer : Blocks ms) :
      Fits c .pseudoArguments (.pseudoArguments :: .selector :: ms)
  | value {ms : List Mode} (outer : Blocks ms) : Fits c .value (.value :: ms)
  | call {ms : List Mode} (outer : ValueModes c ms) : Fits c .value (.functionArguments :: ms)
  | interpolation {ms : List Mode} (outer : ValueModes c ms) :
      Fits c .interpolation (.interpolation :: ms)
  | selectorInterpolation {ms : List Mode} (outer : Blocks ms) :
      Fits c .interpolation (.interpolation :: .selector :: ms)
  | done : Fits c .done []

/-- Only a selector is remembered as the last part of a compound. -/
def Compound.Plain (g : Compound) : Prop := ∀ k, g.kind? = some k → k.isSelector = true

/-- The view shows the configuration, the two innermost modes and a compound of selectors. -/
structure View.Shows (v : View) (c : Config) (ms : List Mode) : Prop where
  config : v.config = c
  top : v.top = topMode ms
  outer : v.outer = topMode ms.tail
  compound : v.compound.Plain

variable {c : Config} {ms : List Mode} {v : View}

theorem plain_detached : Compound.detached.Plain := by simp [Compound.Plain, Compound.detached]

theorem plain_simple {k : Kind} (h : k.isSelector = true) : Compound.Plain ⟨.simple, some k⟩ := by
  simpa [Compound.Plain] using h

theorem Compound.Plain.kind {g : Compound} (h : g.Plain) :
    (g.kind?.getD .tagSelector).isSelector = true := by
  cases hk : g.kind? with
  | none => rfl
  | some k => exact h k hk

theorem Blocks.resume (h : Blocks ms) : State.ofMode (topMode ms) = .statement := by
  cases h <;> rfl

theorem Blocks.eq_nil (h : Blocks ms) (htop : topMode ms = .topLevel) : ms = [] := by
  cases h with
  | nil => rfl
  | cons => simp [topMode] at htop

theorem Blocks.eq_cons (h : Blocks ms) (htop : topMode ms = .block) :
    ∃ ms', ms = .block :: ms' ∧ Blocks ms' := by
  cases h with
  | nil => simp [topMode] at htop
  | @cons ms' outer => exact ⟨ms', rfl, outer⟩

theorem ValueModes.resume (h : ValueModes c ms) : (State.ofMode (topMode ms)).Fits c ms := by
  cases h with
  | value outer => exact .value outer
  | call outer => exact .call outer
  | interpolation tokens outer => exact .interpolation outer
  | selector tokens outer => exact .selectorInterpolation outer

theorem State.Fits.not_inCall (h : State.Fits c .value ms) (hv : v.Shows c ms)
    (hout : v.inCall = false) : ∃ ms', ms = .value :: ms' ∧ Blocks ms' := by
  cases h with
  | @value ms' outer => exact ⟨ms', rfl, outer⟩
  | call outer => simp [View.inCall, hv.top, topMode] at hout

theorem State.Fits.inCall (h : State.Fits c .value ms) (hv : v.Shows c ms)
    (hin : v.inCall = true) : ∃ ms', ms = .functionArguments :: ms' ∧ ValueModes c ms' := by
  cases h with
  | value outer => simp [View.inCall, hv.top, topMode] at hin
  | @call ms' outer => exact ⟨ms', rfl, outer⟩

theorem State.Fits.valueModes (h : State.Fits c .value ms) : ValueModes c ms := by
  cases h with
  | value outer => exact .value outer
  | call outer => exact .call outer

theorem State.Fits.interpolationModes (h : State.Fits c .interpolation ms)
    (htokens : c.interpolation = .tokens) : ValueModes c ms := by
  cases h with
  | interpolation outer => exact .interpolation htokens outer
  | selectorInterpolation outer => exact .selector htokens outer

namespace Script

/-- The script leads to a state that fits, if it does not fail. -/
def Keeps (c : Config) : Script → List Mode → Prop
  | .skip _ s, ms | .emit _ _ s, ms => s.Keeps c ms
  | .note g s, ms => g.Plain ∧ s.Keeps c ms
  | .enter mode s, ms => s.Keeps c (mode :: ms)
  | .leave s, ms => s.Keeps c ms.tail
  | .goto st, ms => st.Fits c ms
  | .resume, ms => (State.ofMode (topMode ms)).Fits c ms
  | .fail _ _, _ => True

variable {rest : Text} {next : Text → Script} {s : Script}

theorem SigilForm.keeps {kind : Kind} {a : Char} (hs : SigilForm kind a rest next s)
    (h : ∀ tail, (next tail).Keeps c ms) : s.Keeps c ms := by
  cases hs with
  | nameless => trivial
  | named => exact h _

theorem QuotedForm.keeps {q : Char} (hs : QuotedForm q rest next s)
    (h : ∀ tail, (next tail).Keeps c ms) : s.Keeps c ms := by
  cases hs with
  | unclosed => trivial
  | closed => exact h _

theorem UnitForm.keeps (hs : UnitForm rest next s) (h : ∀ tail, (next tail).Keeps c ms) :
    s.Keeps c ms := by
  cases hs with
  | percent => exact h _
  | none => exact h _
  | known => exact h _
  | unknown => trivial

theorem NumberForm.keeps (hs : NumberForm rest next s) (h : ∀ tail, (next tail).Keeps c ms) :
    s.Keeps c ms := by
  cases hs with
  | malformed => trivial
  | float _ _ _ _ unit => exact unit.keeps h
  | integer _ _ _ unit => exact unit.keeps h

theorem HexColorForm.keeps (hs : HexColorForm rest next s) (h : ∀ tail, (next tail).Keeps c ms) :
    s.Keeps c ms := by
  cases hs with
  | color => exact h _
  | malformed => trivial

theorem ConstantForm.keeps {inCall : Bool} (hs : ConstantForm inCall rest next s)
    (h : ∀ tail, (next tail).Keeps c ms) : s.Keeps c ms := by
  cases hs with
  | none => trivial
  | word => exact h _

theorem ComponentForm.keeps {after : State} (hs : ComponentForm v after rest s)
    (hms : ValueModes c ms) (hafter : after.Fits c ms) : s.Keeps c ms := by
  cases hs with
  | atEnd => trivial
  | reference _ form => exact form.keeps fun _ => hafter
  | interpolation => exact State.Fits.interpolation hms
  | hexColor _ _ form => exact form.keeps fun _ => hafter
  | quoted _ _ form => exact form.keeps fun _ => hafter
  | comma => exact hafter
  | call => exact State.Fits.call hms
  | stray => trivial
  | number _ form => exact form.keeps fun _ => hafter
  | constant _ _ _ _ form => exact form.keeps fun _ => hafter

theorem ValueForm.keeps (hs : ValueForm v rest s) (hv : v.Shows c ms) (h : State.Fits c .value ms) :
    s.Keeps c ms := by
  cases hs with
  | endOfText => trivial
  | endInCall => trivial
  | braceInCall => trivial
  | semicolon _ outside =>
    obtain ⟨ms', rfl, outer⟩ := h.not_inCall hv outside
    simpa [Keeps, outer.resume] using State.Fits.statement outer
  | missing => trivial
  | lenient _ outside =>
    obtain ⟨ms', rfl, outer⟩ := h.not_inCall hv outside
    simpa [Keeps, outer.resume] using State.Fits.statement outer
  | endOfCall _ inside =>
    obtain ⟨ms', rfl, outer⟩ := h.inCall hv inside
    exact outer.resume
  | component _ _ _ _ form => exact form.keeps h.valueModes h

theorem CloseForm.keeps (hs : CloseForm v s) (hv : v.Shows c ms)
    (h : State.Fits c .interpolation ms) : s.Keeps c ms := by
  have hresume : (State.ofMode (topMode ms.tail)).Fits c ms.tail := by
    cases h with
    | interpolation outer => exact outer.resume
    | selectorInterpolation outer => exact .selector outer
  cases hs with
  | selector => exact ⟨hv.compound, hresume⟩
  | value => exact hresume

theorem InterpolationForm.keeps (hs : InterpolationForm v s) (hv : v.Shows c ms)
    (h : State.Fits c .interpolation ms) : s.Keeps c ms := by
  cases hs with
  | unclosedSkipped => trivial
  | skipped _ _ _ close => exact close.keeps hv h
  | unclosed => trivial
  | close _ _ close => exact close.keeps hv h
  | component tokens _ _ form => exact form.keeps (h.interpolationModes (hv.config ▸ tokens)) h

theorem SimpleForm.keeps {a : Char} (hs : SimpleForm a rest s) (outer : Blocks ms) :
    s.Keeps c (.selector :: ms) := by
  have hsimple {k : Kind} (hk : k.isSelector = true) :
      (noteSimple k <| .goto .selector).Keeps c (.selector :: ms) :=
    ⟨plain_simple hk, State.Fits.selector outer⟩
  cases hs with
  | group => exact State.Fits.group outer
  | pseudo _ form =>
    cases form with
    | nameless => trivial
    | bare => exact hsimple rfl
    | arguments => exact ⟨plain_simple rfl, State.Fits.pseudoArguments outer⟩
  | sigil start form =>
    exact form.keeps fun _ => hsimple (isSelector_of_sigilKind? start)
  | universal => exact hsimple rfl
  | parent => exact hsimple rfl
  | tag => exact hsimple rfl

theorem CompoundForm.keeps {a : Char} (hs : CompoundForm v a rest s) (hv : v.compound.Plain)
    (outer : Blocks ms) : s.Keeps c (.selector :: ms) := by
  cases hs with
  | interpolation => exact State.Fits.selectorInterpolation outer
  | continued _ _ same => exact ⟨plain_simple (same ▸ hv.kind), State.Fits.selector outer⟩
  | simple _ _ _ form => exact form.keeps outer
  | glued _ _ _ form => exact form.keeps outer
  | stray => trivial

theorem SelectorForm.keeps (hs : SelectorForm v s) (hv : v.compound.Plain) (outer : Blocks ms) :
    s.Keeps c (.selector :: ms) := by
  have hdetached : (Script.note .detached <| .goto .selector).Keeps c (.selector :: ms) :=
    ⟨plain_detached, State.Fits.selector outer⟩
  cases hs with
  | atEnd => trivial
  | combinator => exact hdetached
  | block => exact ⟨plain_detached, State.Fits.statement (.cons outer)⟩
  | comma => exact hdetached
  | descendant => exact hdetached
  | compound _ _ _ _ _ form => exact form.keeps hv outer

theorem AttributeEndForm.keeps (hs : AttributeEndForm v rest s) (hv : v.compound.Plain)
    (outer : Blocks ms) : s.Keeps c (.attribute :: .selector :: ms) := by
  cases hs with
  | closed => exact ⟨hv, State.Fits.selector outer⟩
  | unclosed => trivial

theorem AttributeForm.keeps (hs : AttributeForm v s) (hv : v.compound.Plain) (outer : Blocks ms) :
    s.Keeps c (.attribute :: .selector :: ms) := by
  have hend (r : Text) : (attributeEnd v r).Keeps c (.attribute :: .selector :: ms) :=
    (attributeEnd_form v r).keeps hv outer
  cases hs with
  | nameless => trivial
  | named _ _ _ _ form =>
    cases form with
    | none _ form => exact form.keeps hv outer
    | operator _ _ _ form =>
      cases form with
      | quoted _ _ form => exact form.keeps fun _ => hend _
      | bare => exact hend _
      | missing => trivial

theorem ArgumentsForm.keeps (hs : ArgumentsForm v s) (hv : v.compound.Plain) (outer : Blocks ms) :
    s.Keeps c (.pseudoArguments :: .selector :: ms) := by
  cases hs with
  | unclosed => trivial
  | empty => exact ⟨hv, State.Fits.selector outer⟩
  | arguments => exact ⟨hv, State.Fits.selector outer⟩

theorem ColonForm.keeps (hs : ColonForm rest s) (outer : Blocks ms) : s.Keeps c ms := by
  cases hs with
  | colon => exact State.Fits.value outer
  | missing => trivial

theorem StatementForm.keeps (hs : StatementForm v rest s) (hv : v.Shows c ms) (outer : Blocks ms) :
    s.Keeps c ms := by
  cases hs with
  | finished _ bottom =>
    obtain rfl := outer.eq_nil (hv.top ▸ bottom)
    exact State.Fits.done
  | unclosed => trivial
  | atRule => exact State.Fits.atRule outer
  | assignment => exact State.Fits.assignment outer
  | block => exact State.Fits.statement (.cons outer)
  | close _ inside =>
    obtain ⟨ms', rfl, outer'⟩ := outer.eq_cons (hv.top ▸ inside)
    simpa [Keeps, outer'.resume] using State.Fits.statement outer'
  | unbalanced => trivial
  | quoted _ _ form => exact form.keeps fun _ => State.Fits.statement outer
  | number _ _ form => exact form.keeps fun _ => State.Fits.statement outer
  | property _ inside =>
    obtain ⟨ms', rfl, outer'⟩ := outer.eq_cons (hv.top ▸ inside)
    exact State.Fits.property outer'
  | selector => exact ⟨plain_detached, State.Fits.selector outer⟩
  | stray => trivial

theorem keeps_ofState {st : State} (hv : v.Shows c ms) (h : st.Fits c ms) :
    (ofState st v).Keeps c ms := by
  have hs := ofState_form st v
  generalize ofState st v = s at hs ⊢
  cases hs with
  | statement _ form => cases h with | statement outer => exact form.keeps hv outer
  | atRule form =>
    cases h with
    | atRule outer =>
      cases form with
      | atEnd => trivial
      | known => exact State.Fits.value outer
      | unknown => trivial
  | assignment form =>
    cases h with
    | assignment outer =>
      cases form with
      | atEnd => trivial
      | named _ form => exact form.keeps fun _ => (colon_form _).keeps outer
  | property form =>
    cases h with
    | property outer =>
      cases form with
      | atEnd => trivial
      | named _ _ _ form => exact form.keeps (.cons outer)
      | stray => trivial
  | selector form => cases h with | selector outer => exact form.keeps hv.compound outer
  | group form => cases h with | group outer => exact form.keeps hv.compound outer
  | pseudoArguments form =>
    cases h with | pseudoArguments outer => exact form.keeps hv.compound outer
  | value _ form => exact form.keeps hv h
  | interpolation form => exact form.keeps hv h
  | done => exact h

end Script

namespace Machine

/-- The open modes, innermost first. -/
def openModes (m : Machine) : List Mode := m.modes.frames.map Frame.mode

theorem topMode_openModes (m : Machine) : topMode m.openModes = m.modes.top := by
  obtain ⟨_, _, ⟨fs⟩, _, _⟩ := m
  cases fs <;> rfl

theorem openModes_leave (m : Machine) : m.leave.openModes = m.openModes.tail := by
  obtain ⟨_, _, ⟨fs⟩, _, _⟩ := m
  cases fs <;> rfl

/-- The state fits the open modes, and the compound is one of selectors. -/
structure Coherent (m : Machine) : Prop where
  fits : m.state.Fits m.config m.openModes
  compound : m.compound.Plain

theorem coherent_start (c : Config) (source : Text) : (start c source).Coherent :=
  ⟨.statement .nil, plain_detached⟩

theorem Coherent.view_shows {m : Machine} (h : m.Coherent) : m.view.Shows m.config m.openModes where
  config := rfl
  top := m.topMode_openModes.symm
  outer := by
    rw [← openModes_leave, topMode_openModes]
    rfl
  compound := h.compound

/-- No script changes the configuration. -/
@[simp] theorem config_perform (s : Script) (m : Machine) :
    (perform s m).machine.config = m.config := by
  induction s generalizing m with
  | skip t s ih => exact ih _
  | emit k t s ih => exact ih _
  | enter mode s ih => exact ih _
  | leave s ih => exact ih _
  | note c s ih => exact ih _
  | goto s => rfl
  | resume => rfl
  | fail t f => rfl

theorem coherent_perform {s : Script} {m : Machine} (h : s.Keeps m.config m.openModes)
    (hc : m.compound.Plain) (he : (perform s m).error? = none) : (perform s m).machine.Coherent := by
  induction s generalizing m with
  | skip t s ih => exact ih (m := m.skip t) h hc he
  | emit k t s ih => exact ih (m := (m.take t).2) h hc he
  | enter mode s ih => exact ih (m := m.enter mode) h hc he
  | leave s ih => exact ih (m := m.leave) (by rw [openModes_leave]; exact h) hc he
  | note c s ih => exact ih (m := m.note c) h.2 h.1 he
  | goto s => exact ⟨h, hc⟩
  | resume =>
    rw [Script.Keeps, topMode_openModes] at h
    exact ⟨h, hc⟩
  | fail t f => simp [perform] at he

theorem Coherent.step {m : Machine} (h : m.Coherent) (he : m.step.error? = none) :
    m.step.machine.Coherent :=
  coherent_perform (Script.keeps_ofState h.view_shows h.fits) h.compound he

end Machine

end StyleLex

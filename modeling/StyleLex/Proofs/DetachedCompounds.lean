import StyleLex.Proofs.OpenModes

/-!
# Compounds outside of selectors

A compound is remembered only as long as its selector is open. So statements and values begin with no
compound, wherever they stand.
-/
namespace StyleLex

/-- Either a selector is open, or no compound is remembered. -/
def Compound.Kept (ms : List Mode) (g : Compound) : Prop := .selector ∈ ms ∨ g = .detached

variable {c : Config} {ms : List Mode} {v : View} {g : Compound} {mode : Mode}

theorem kept_cons (mode : Mode) (h : g.Kept ms) : g.Kept (mode :: ms) :=
  h.imp_left (List.mem_cons_of_mem mode)

theorem Compound.Kept.tail (h : g.Kept (mode :: ms)) (other : mode ≠ .selector) : g.Kept ms := by
  refine h.imp_left fun hmem => ?_
  rcases List.mem_cons.1 hmem with rfl | hmem
  · exact absurd rfl other
  · exact hmem

theorem kept_selector (g : Compound) (ms : List Mode) : g.Kept (.selector :: ms) :=
  .inl List.mem_cons_self

theorem mem_of_topMode (h : topMode ms = mode) (other : mode ≠ .topLevel) : mode ∈ ms := by
  cases ms with
  | nil => exact absurd h.symm other
  | cons mode' ms =>
    obtain rfl : mode' = mode := h
    exact List.mem_cons_self

namespace Script

/-- The script leaves no compound behind when it leaves the selector, unless it fails. -/
def Detaches : Script → List Mode → Compound → Prop
  | .skip _ s, ms, g | .emit _ _ s, ms, g => s.Detaches ms g
  | .enter mode s, ms, g => s.Detaches (mode :: ms) g
  | .leave s, ms, g => s.Detaches ms.tail g
  | .note g s, ms, _ => s.Detaches ms g
  | .goto _, ms, g | .resume, ms, g => g.Kept ms
  | .fail _ _, _, _ => True

/-- The script moves over text and goes on with `next`, or fails. -/
inductive Leads (next : Text → Script) : Script → Prop where
  | next (tail : Text) : Leads next (next tail)
  | skip {t : Text} {s : Script} (behind : Leads next s) : Leads next (skip t s)
  | emit {k : Kind} {t : Text} {s : Script} (behind : Leads next s) : Leads next (emit k t s)
  | fail {t : Text} {f : Fault} : Leads next (fail t f)

variable {rest : Text} {next : Text → Script} {s : Script} {k : Kind} {a : Char}

theorem Leads.detaches (hs : Leads next s) (h : ∀ tail, (next tail).Detaches ms g) :
    s.Detaches ms g := by
  induction hs with
  | next tail => exact h tail
  | skip _ ih => exact ih
  | emit _ ih => exact ih
  | fail => trivial

theorem SigilForm.leads (hs : SigilForm k a rest next s) : Leads next s := by
  cases hs with
  | nameless => exact .fail
  | named => exact .emit (.next _)

theorem QuotedForm.leads {q : Char} (hs : QuotedForm q rest next s) : Leads next s := by
  cases hs with
  | unclosed => exact .fail
  | closed => exact .skip (.emit (.skip (.next _)))

theorem UnitForm.leads (hs : UnitForm rest next s) : Leads next s := by
  cases hs with
  | percent => exact .emit (.next _)
  | none => exact .next _
  | known => exact .emit (.next _)
  | unknown => exact .fail

theorem NumberForm.leads (hs : NumberForm rest next s) : Leads next s := by
  cases hs with
  | malformed => exact .fail
  | float _ _ _ _ unit => exact .emit unit.leads
  | integer _ _ _ unit => exact .emit unit.leads

theorem HexColorForm.leads (hs : HexColorForm rest next s) : Leads next s := by
  cases hs with
  | color => exact .emit (.next _)
  | malformed => exact .fail

theorem ConstantForm.leads {inCall : Bool} (hs : ConstantForm inCall rest next s) : Leads next s := by
  cases hs with
  | none => exact .fail
  | word => exact .emit (.next _)

theorem ComponentForm.detaches {after : State} (hs : ComponentForm v after rest s) (h : g.Kept ms) :
    s.Detaches ms g := by
  have hnext : ∀ _ : Text, (goto after).Detaches ms g := fun _ => h
  cases hs with
  | atEnd => trivial
  | reference _ form => exact form.leads.detaches hnext
  | interpolation => exact kept_cons _ h
  | hexColor _ _ form => exact form.leads.detaches hnext
  | quoted _ _ form => exact form.leads.detaches hnext
  | comma => exact h
  | call => exact kept_cons _ h
  | stray => trivial
  | number _ form => exact form.leads.detaches hnext
  | constant _ _ _ _ form => exact form.leads.detaches hnext

theorem ValueForm.detaches (hs : ValueForm v rest s) (hv : v.Shows c ms) (hfits : State.Fits c .value ms)
    (h : g.Kept ms) : s.Detaches ms g := by
  cases hs with
  | endOfText => trivial
  | endInCall => trivial
  | braceInCall => trivial
  | semicolon _ outside =>
    obtain ⟨ms', rfl, -⟩ := hfits.not_inCall hv outside
    exact h.tail nofun
  | missing => trivial
  | lenient _ outside =>
    obtain ⟨ms', rfl, -⟩ := hfits.not_inCall hv outside
    exact h.tail nofun
  | endOfCall _ inside =>
    obtain ⟨ms', rfl, -⟩ := hfits.inCall hv inside
    exact h.tail nofun
  | component _ _ _ _ form => exact form.detaches h

theorem CloseForm.detaches (hs : CloseForm v s) (hv : v.Shows c ms)
    (hfits : State.Fits c .interpolation ms) (h : g.Kept ms) : s.Detaches ms g := by
  cases hs with
  | selector outer => exact .inl (mem_of_topMode (hv.outer ▸ outer) nofun)
  | value =>
    cases hfits with
    | interpolation => exact h.tail nofun
    | selectorInterpolation => exact kept_selector _ _

theorem InterpolationForm.detaches (hs : InterpolationForm v s) (hv : v.Shows c ms)
    (hfits : State.Fits c .interpolation ms) (h : g.Kept ms) : s.Detaches ms g := by
  cases hs with
  | unclosedSkipped => trivial
  | skipped _ _ _ close => exact close.detaches hv hfits h
  | unclosed => trivial
  | close _ _ close => exact close.detaches hv hfits h
  | component _ _ _ form => exact form.detaches h

theorem SimpleForm.detaches (hs : SimpleForm a rest s) : s.Detaches (.selector :: ms) g := by
  have hsimple (k : Kind) : (noteSimple k <| .goto .selector).Detaches (.selector :: ms) g :=
    kept_selector _ _
  cases hs with
  | group => exact kept_cons _ (kept_selector _ _)
  | pseudo _ form =>
    cases form with
    | nameless => trivial
    | bare => exact hsimple _
    | arguments => exact kept_cons _ (kept_selector _ _)
  | sigil _ form => exact form.leads.detaches fun _ => hsimple _
  | universal => exact hsimple _
  | parent => exact hsimple _
  | tag => exact hsimple _

theorem CompoundForm.detaches (hs : CompoundForm v a rest s) : s.Detaches (.selector :: ms) g := by
  cases hs with
  | interpolation => exact kept_cons _ (kept_selector _ _)
  | continued => exact kept_selector _ _
  | simple _ _ _ form => exact form.detaches
  | glued _ _ _ form => exact form.detaches
  | stray => trivial

theorem SelectorForm.detaches (hs : SelectorForm v s) : s.Detaches (.selector :: ms) g := by
  cases hs with
  | atEnd => trivial
  | combinator => exact kept_selector _ _
  | block => exact .inr rfl
  | comma => exact kept_selector _ _
  | descendant => exact kept_selector _ _
  | compound _ _ _ _ _ form => exact form.detaches

theorem AttributeEndForm.detaches (hs : AttributeEndForm v rest s) :
    s.Detaches (.attribute :: .selector :: ms) g := by
  cases hs with
  | closed => exact kept_selector _ _
  | unclosed => trivial

theorem AttributeForm.detaches (hs : AttributeForm v s) :
    s.Detaches (.attribute :: .selector :: ms) g := by
  have hend (r : Text) : (attributeEnd v r).Detaches (.attribute :: .selector :: ms) g :=
    (attributeEnd_form v r).detaches
  cases hs with
  | nameless => trivial
  | named _ _ _ _ form =>
    cases form with
    | none _ form => exact form.detaches
    | operator _ _ _ form =>
      cases form with
      | quoted _ _ form => exact form.leads.detaches fun _ => hend _
      | bare => exact hend _
      | missing => trivial

theorem ColonForm.detaches (hs : ColonForm rest s) (h : g.Kept ms) : s.Detaches ms g := by
  cases hs with
  | colon => exact kept_cons _ h
  | missing => trivial

theorem StatementForm.detaches (hs : StatementForm v rest s) (hv : v.Shows c ms) (outer : Blocks ms)
    (h : g.Kept ms) : s.Detaches ms g := by
  have hnext : ∀ _ : Text, (goto .statement).Detaches ms g := fun _ => h
  cases hs with
  | finished => exact h
  | unclosed => trivial
  | atRule => exact h
  | assignment => exact h
  | block => exact kept_cons _ h
  | close _ inside =>
    obtain ⟨ms', rfl, -⟩ := outer.eq_cons (hv.top ▸ inside)
    exact h.tail nofun
  | unbalanced => trivial
  | quoted _ _ form => exact form.leads.detaches hnext
  | number _ _ form => exact form.leads.detaches hnext
  | property => exact h
  | selector => exact kept_selector _ _
  | stray => trivial

theorem detaches_ofState {st : State} (hv : v.Shows c ms) (hfits : st.Fits c ms)
    (h : v.compound.Kept ms) : (ofState st v).Detaches ms v.compound := by
  have hs := ofState_form st v
  generalize ofState st v = s at hs ⊢
  cases hs with
  | statement _ form => cases hfits with | statement outer => exact form.detaches hv outer h
  | atRule form =>
    cases form with
    | atEnd => trivial
    | known => exact kept_cons _ h
    | unknown => trivial
  | assignment form =>
    cases form with
    | atEnd => trivial
    | named _ form => exact form.leads.detaches fun _ => (colon_form _).detaches h
  | property form =>
    cases form with
    | atEnd => trivial
    | named _ _ _ form => exact form.detaches h
    | stray => trivial
  | selector form => cases hfits with | selector => exact form.detaches
  | group form => cases hfits with | group => exact form.detaches
  | pseudoArguments form =>
    cases hfits with
    | pseudoArguments =>
      cases form with
      | unclosed => trivial
      | empty => exact kept_selector _ _
      | arguments => exact kept_selector _ _
  | value _ form => exact form.detaches hv hfits h
  | interpolation form => exact form.detaches hv hfits h
  | done => exact h

end Script

namespace Machine

variable {m : Machine}

theorem kept_perform {s : Script} (h : s.Detaches m.openModes m.compound)
    (he : (perform s m).error? = none) :
    (perform s m).machine.compound.Kept (perform s m).machine.openModes := by
  induction s generalizing m with
  | skip t s ih => exact ih (m := m.skip t) h he
  | emit k t s ih => exact ih (m := (m.take t).2) h he
  | enter mode s ih => exact ih (m := m.enter mode) h he
  | leave s ih => exact ih (m := m.leave) (by rw [openModes_leave]; exact h) he
  | note g s ih => exact ih (m := m.note g) h he
  | goto st => exact h
  | resume => exact h
  | fail t f => cases he

theorem Coherent.kept_step (hm : m.Coherent) (h : m.compound.Kept m.openModes)
    (he : m.step.error? = none) : m.step.machine.compound.Kept m.step.machine.openModes :=
  kept_perform (Script.detaches_ofState hm.view_shows hm.fits h) he

end Machine

end StyleLex

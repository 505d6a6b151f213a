import StyleLex.Proofs.TrailRuns

/-!
# Behind the end of an interpolation

A step that closes an interpolation hands over nothing behind it and does not fail. So a run gets to a
machine right behind the token.
-/
namespace StyleLex

variable {c : Config} {v : View} {rest t source before : Text} {k : Kind}

namespace Script

variable {s : Script} {next : Text → Script} {a : Char} {qs rs : List Piece}

/-- Behind the end of an interpolation the script only goes back to what is around it. -/
inductive ClosesLast : Script → Prop where
  | skip {t : Text} {s : Script} (behind : ClosesLast s) : ClosesLast (skip t s)
  | emit {k : Kind} {t : Text} {s : Script} (other : k ≠ .interpolationEnd) (behind : ClosesLast s) :
      ClosesLast (emit k t s)
  | close {t : Text} : ClosesLast (emit .interpolationEnd t <| leave resume)
  | closeInSelector {t : Text} {g : Compound} :
      ClosesLast (emit .interpolationEnd t <| leave <| note g resume)
  | enter {mode : Mode} {s : Script} (behind : ClosesLast s) : ClosesLast (enter mode s)
  | leave {s : Script} (behind : ClosesLast s) : ClosesLast (leave s)
  | note {g : Compound} {s : Script} (behind : ClosesLast s) : ClosesLast (note g s)
  | goto {st : State} : ClosesLast (goto st)
  | resume : ClosesLast resume
  | fail {t : Text} {f : Fault} : ClosesLast (fail t f)

theorem Calm.closesLast (hs : Calm next s) (h : ∀ tail, (next tail).ClosesLast) : s.ClosesLast := by
  induction hs with
  | next tail => exact h tail
  | skip _ ih => exact .skip ih
  | emit calm _ ih => exact .emit (Kind.ne_close_of_isCalm calm) ih
  | fail => exact .fail

theorem closesLast_openInterpolation : openInterpolation.ClosesLast := .enter (.emit (by decide) .goto)

theorem ComponentForm.closesLast {after : State} (hs : ComponentForm v after rest s) :
    s.ClosesLast := by
  cases hs with
  | atEnd => exact .fail
  | reference _ form => exact (form.calm rfl).closesLast fun _ => .goto
  | interpolation => exact closesLast_openInterpolation
  | hexColor _ _ form => exact form.calm.closesLast fun _ => .goto
  | quoted _ _ form => exact form.calm.closesLast fun _ => .goto
  | comma => exact .emit (by decide) .goto
  | call => exact .enter (.emit (by decide) .goto)
  | stray => exact .fail
  | number _ form => exact form.calm.closesLast fun _ => .goto
  | constant _ _ _ _ form => exact form.calm.closesLast fun _ => .goto

theorem ValueForm.closesLast (hs : ValueForm v rest s) : s.ClosesLast := by
  cases hs with
  | endOfText => exact .fail
  | endInCall => exact .fail
  | braceInCall => exact .fail
  | semicolon => exact .emit (by decide) (.leave .resume)
  | missing => exact .fail
  | lenient => exact .leave .resume
  | endOfCall => exact .emit (by decide) (.leave .resume)
  | component _ _ _ _ form => exact form.closesLast

theorem CloseForm.closesLast (hs : CloseForm v s) : s.ClosesLast := by
  cases hs with
  | selector => exact .closeInSelector
  | value => exact .close

theorem InterpolationForm.closesLast (hs : InterpolationForm v s) : s.ClosesLast := by
  cases hs with
  | unclosedSkipped => exact .fail
  | skipped _ _ _ close => exact .skip close.closesLast
  | unclosed => exact .skip .fail
  | close _ _ close => exact .skip close.closesLast
  | component _ _ _ form => exact .skip form.closesLast

theorem ColonForm.closesLast (hs : ColonForm rest s) : s.ClosesLast := by
  cases hs with
  | colon => exact .skip (.emit (by decide) (.enter .goto))
  | missing => exact .skip .fail

theorem StatementForm.closesLast (hs : StatementForm v rest s) : s.ClosesLast := by
  cases hs with
  | finished => exact .goto
  | unclosed => exact .fail
  | atRule => exact .goto
  | assignment => exact .goto
  | block => exact .enter (.emit (by decide) .goto)
  | close => exact .emit (by decide) (.leave .resume)
  | unbalanced => exact .fail
  | quoted _ _ form => exact form.calm.closesLast fun _ => .goto
  | number _ _ form => exact form.calm.closesLast fun _ => .goto
  | property => exact .goto
  | selector => exact .enter (.note .goto)
  | stray => exact .fail

theorem closesLast_noteSimple (h : k.isSelector = true) (t : Text) :
    (emit k t <| noteSimple k <| .goto .selector).ClosesLast := by
  refine .emit ?_ (.note .goto)
  rintro rfl
  cases h

theorem SimpleForm.closesLast (hs : SimpleForm a rest s) : s.ClosesLast := by
  cases hs with
  | group => exact .enter (.emit (by decide) .goto)
  | pseudo _ form =>
    cases form with
    | nameless => exact .fail
    | bare => exact closesLast_noteSimple rfl _
    | arguments => exact .emit (by decide) (.note (.enter (.skip .goto)))
  | sigil start form =>
    cases form with
    | nameless => exact .fail
    | named => exact closesLast_noteSimple (isSelector_of_sigilKind? start) _
  | universal => exact closesLast_noteSimple rfl _
  | parent => exact closesLast_noteSimple rfl _
  | tag => exact closesLast_noteSimple rfl _

theorem CompoundForm.closesLast (hs : CompoundForm v a rest s) (hv : v.compound.Plain) :
    s.ClosesLast := by
  cases hs with
  | interpolation => exact closesLast_openInterpolation
  | continued _ _ same => exact closesLast_noteSimple (same ▸ hv.kind) _
  | simple _ _ _ form => exact form.closesLast
  | glued _ _ _ form => exact .emit (by decide) form.closesLast
  | stray => exact .fail

theorem SelectorForm.closesLast (hs : SelectorForm v s) (hv : v.compound.Plain) : s.ClosesLast := by
  cases hs with
  | atEnd => exact .fail
  | combinator _ known =>
    refine .skip (.emit ?_ (.skip (.note .goto)))
    rintro rfl
    cases (classes_of_combinator? known).1
  | block => exact .skip (.leave (.enter (.emit (by decide) (.note .goto))))
  | comma => exact .skip (.emit (by decide) (.note .goto))
  | descendant => exact .emit (by decide) (.note .goto)
  | compound _ _ _ _ _ form => exact .skip (form.closesLast hv)

theorem AttributeEndForm.closesLast (hs : AttributeEndForm v rest s) : s.ClosesLast := by
  cases hs with
  | closed => exact .emit (by decide) (.leave (.note .goto))
  | unclosed => exact .fail

theorem AttributeForm.closesLast (hs : AttributeForm v s) : s.ClosesLast := by
  have hend (r : Text) : (attributeEnd v r).ClosesLast := (attributeEnd_form v r).closesLast
  cases hs with
  | nameless => exact .skip .fail
  | named _ _ _ _ form =>
    refine .skip (.emit (by decide) (.skip ?_))
    cases form with
    | none _ form => exact form.closesLast
    | operator known _ _ form =>
      have hcalm := Kind.isCalm_of_isOperator (isOperator_of_mem known)
      refine .emit (Kind.ne_close_of_isCalm hcalm) (.skip ?_)
      cases form with
      | quoted _ _ form => exact form.calm.closesLast fun _ => .skip (hend _)
      | bare => exact .emit (by decide) (.skip (hend _))
      | missing => exact .fail

theorem ArgumentsForm.closesLast (hs : ArgumentsForm v s) : s.ClosesLast := by
  have hclose : (closeArguments v).ClosesLast := .skip (.leave (.note .resume))
  cases hs with
  | unclosed => exact .fail
  | empty => exact hclose
  | arguments => exact .emit (by decide) hclose

theorem closesLast_ofState (st : State) (hv : v.compound.Plain) : (ofState st v).ClosesLast := by
  have hs := ofState_form st v
  generalize ofState st v = s at hs
  cases hs with
  | statement _ form => exact .skip form.closesLast
  | atRule form =>
    cases form with
    | atEnd => exact .fail
    | known _ _ known =>
      have hcalm := Kind.isCalm_of_isAtRule (isAtRule_of_atKeyword? known)
      exact .emit (Kind.ne_close_of_isCalm hcalm) (.enter .goto)
    | unknown => exact .fail
  | assignment form =>
    cases form with
    | atEnd => exact .fail
    | named _ form => exact (form.calm rfl).closesLast fun _ => (colon_form _).closesLast
  | property form =>
    cases form with
    | atEnd => exact .fail
    | named _ _ _ form => exact .emit (by decide) form.closesLast
    | stray => exact .fail
  | selector form => exact form.closesLast hv
  | group form => exact form.closesLast
  | pseudoArguments form => exact form.closesLast
  | value _ form => exact .skip form.closesLast
  | interpolation form => exact form.closesLast
  | done => exact .goto

theorem ClosesLast.split (h : s.ClosesLast) (hs : s.pieces = qs ++ .token .interpolationEnd t :: rs) :
    rs = [] ∧ ∀ m, (Machine.perform s m).error? = none := by
  induction h generalizing qs with
  | skip _ ih =>
    cases qs with
    | nil => cases hs
    | cons =>
      obtain ⟨hrs, he⟩ := ih (List.cons.inj hs).2
      exact ⟨hrs, fun m => he _⟩
  | emit other _ ih =>
    cases qs with
    | nil =>
      cases hs
      exact absurd rfl other
    | cons =>
      obtain ⟨hrs, he⟩ := ih (List.cons.inj hs).2
      exact ⟨hrs, fun m => he _⟩
  | close | closeInSelector =>
    cases qs with
    | nil => exact ⟨(List.cons.inj hs).2.symm, fun _ => rfl⟩
    | cons => cases List.append_eq_nil_iff.1 (List.cons.inj hs).2.symm |>.2
  | enter _ ih | leave _ ih | note _ ih =>
    obtain ⟨hrs, he⟩ := ih hs
    exact ⟨hrs, fun m => he _⟩
  | goto => cases List.append_eq_nil_iff.1 hs.symm |>.2
  | resume => cases List.append_eq_nil_iff.1 hs.symm |>.2
  | fail => cases List.append_eq_nil_iff.1 hs.symm |>.2

end Script

namespace Machine

variable {m : Machine} {front behind : List Token} {u : Token}

/-- If a step hands over the end of an interpolation, that is the last token of the step. -/
theorem Coherent.last_of_interpolationEnd (hm : m.Coherent) (hs : m.Stands source before)
    (running : m.state ≠ .done) (h : m.step.tokens = front ++ u :: behind)
    (hu : u.kind = .interpolationEnd) :
    m.step.error? = none ∧ Piece.tokens before m.script.pieces = front ++ [u] := by
  rw [hm.tokens_step hs running] at h
  obtain ⟨qs, rs, hpieces, hfront, -⟩ := Piece.exists_of_tokens_eq h
  rw [hu] at hpieces
  obtain ⟨rfl, he⟩ := (Script.closesLast_ofState m.state hm.compound).split hpieces
  rw [hpieces, Piece.tokens_append, hfront] at h ⊢
  obtain ⟨hlast, -⟩ := List.cons.inj (List.append_cancel_left h)
  exact ⟨he m, congrArg (front ++ [·]) hlast⟩

/-- A run gets to a machine right behind each end of an interpolation. -/
theorem exists_reaches_of_interpolationEnd (hm : m.Coherent) (hs : m.Stands source before)
    (h : m.run.tokens = front ++ u :: behind) (hu : u.kind = .interpolationEnd) :
    ∃ ps m', m.Reaches ps m' ∧ Piece.tokens before ps = front ++ [u] := by
  induction m using run_induction generalizing before front with
  | done m hdone => simp [run_of_done hdone] at h
  | error m hdone he =>
    rw [run_of_error he] at h
    exact absurd (hm.last_of_interpolationEnd hs hdone h hu).1 he
  | step m hdone he ih =>
    have hbehind (front' : List Token) (hfront : front = m.step.tokens ++ front')
        (h : m.step.machine.run.tokens = front' ++ u :: behind) :
        ∃ ps m', m.Reaches ps m' ∧ Piece.tokens before ps = front ++ [u] := by
      obtain ⟨ps, m', hreach, hps⟩ := ih (hm.step he) (stands_perform hs (hm.reads hdone) he).1 h
      refine ⟨m.script.pieces ++ ps, m', .step hdone he hreach, ?_⟩
      rw [Piece.tokens_append, hps, hfront, hm.tokens_step hs hdone, List.append_assoc]
    rw [tokens_run_eq] at h
    -- The token is one of those behind the step, or it is the last one of the step.
    rcases List.append_eq_append_iff.1 h with ⟨front', hfront, h⟩ | ⟨inside, hstep, h⟩
    · exact hbehind front' hfront h
    · cases inside with
      | nil =>
        rw [List.append_nil] at hstep
        exact hbehind [] (by rw [List.append_nil, hstep]) h.symm
      | cons u' inside =>
        obtain ⟨rfl, -⟩ := List.cons.inj h
        exact ⟨_, _, reaches_step hdone he, (hm.last_of_interpolationEnd hs hdone hstep hu).2⟩

end Machine

end StyleLex

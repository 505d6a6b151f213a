import StyleLex.Proofs.CountedSteps
import StyleLex.Proofs.ScriptOutcomes
import StyleLex.Proofs.StopOffsets

/-!
# How far each step gets

No step moves back. A step that moves over nothing goes to a state whose own step does, or finishes or
fails, so a run takes at most two steps for each byte and two more.
-/
namespace StyleLex

/-- The states whose scripts move ahead or fail whatever stands ahead. -/
def State.isEager : State → Bool
  | .atRule | .assignment | .property | .selector | .attribute | .pseudoArguments
  | .interpolation => true
  | .statement | .value | .done => false

namespace Script

/-- The script moves over some text, fails, or goes to a state in `P`. -/
def Advances (P : State → Prop) : Script → Prop
  | .skip t s | .emit _ t s => t ≠ [] ∨ s.Advances P
  | .enter _ s | .leave s | .note _ s => s.Advances P
  | .goto st => P st
  | .resume => False
  | .fail _ _ => True

variable {P : State → Prop} {rest : Text} {next : Text → Script} {s : Script} {v : View}

theorem SigilForm.advances {kind : Kind} {a : Char} (hs : SigilForm kind a rest next s) :
    s.Advances P := by
  cases hs with
  | nameless => trivial
  | named => exact .inl nofun

theorem QuotedForm.advances {q : Char} (hs : QuotedForm q rest next s) : s.Advances P := by
  cases hs with
  | unclosed => trivial
  | closed => exact .inl nofun

theorem NumberForm.advances (hs : NumberForm rest next s) : s.Advances P := by
  cases hs with
  | malformed => trivial
  | float => exact .inl (by simp)
  | integer _ ne => exact .inl (by simp [ne])

theorem HexColorForm.advances (hs : HexColorForm rest next s) : s.Advances P := by
  cases hs with
  | color => exact .inl nofun
  | malformed => trivial

theorem ConstantForm.advances {inCall : Bool} (hs : ConstantForm inCall rest next s) :
    s.Advances P := by
  cases hs with
  | none => trivial
  | word _ ne => exact .inl ne

theorem ComponentForm.advances {after : State} (hs : ComponentForm v after rest s) :
    s.Advances P := by
  cases hs with
  | atEnd => trivial
  | reference _ form => exact form.advances
  | interpolation => exact .inl nofun
  | hexColor _ _ form => exact form.advances
  | quoted _ _ form => exact form.advances
  | comma => exact .inl nofun
  | call => exact .inl nofun
  | stray => trivial
  | number _ form => exact form.advances
  | constant _ _ _ _ form => exact form.advances

theorem CloseForm.advances (hs : CloseForm v s) : s.Advances P := by
  cases hs with
  | selector => exact .inl nofun
  | value => exact .inl nofun

theorem InterpolationForm.advances (hs : InterpolationForm v s) : s.Advances P := by
  cases hs with
  | unclosedSkipped => trivial
  | skipped _ _ _ close => exact .inr close.advances
  | unclosed => exact .inr trivial
  | close _ _ close => exact .inr close.advances
  | component _ _ _ form => exact .inr form.advances

/-- Only in front of a brace does a value end without moving ahead. -/
theorem ValueForm.advances_or (hs : ValueForm v rest s) :
    s.Advances P ∨ v.inCall = false ∧ s = .leave .resume ∧ ∃ t, rest = '}' :: t := by
  cases hs with
  | endOfText => exact .inl trivial
  | endInCall => exact .inl trivial
  | braceInCall => exact .inl trivial
  | semicolon => exact .inl (.inl nofun)
  | missing => exact .inl trivial
  | @lenient t ahead outside => exact .inr ⟨outside, rfl, t, ahead⟩
  | endOfCall => exact .inl (.inl nofun)
  | component _ _ _ _ form => exact .inl form.advances

theorem SimpleForm.advances {a : Char} (hs : SimpleForm a rest s) : s.Advances P := by
  cases hs with
  | group => exact .inl nofun
  | pseudo _ form =>
    cases form with
    | nameless => trivial
    | bare _ _ ne => exact .inl (by simp [ne])
    | arguments _ _ ne => exact .inl (by simp [ne])
  | sigil _ form => exact form.advances
  | universal => exact .inl nofun
  | parent => exact .inl nofun
  | tag => exact .inl nofun

theorem CompoundForm.advances {a : Char} (hs : CompoundForm v a rest s) : s.Advances P := by
  cases hs with
  | interpolation => exact .inl nofun
  | continued => exact .inl nofun
  | simple _ _ _ form => exact form.advances
  | glued _ _ _ form => exact .inr form.advances
  | stray => trivial

theorem SelectorForm.advances (hs : SelectorForm v s) : s.Advances P := by
  cases hs with
  | atEnd => trivial
  | combinator => exact .inr (.inl nofun)
  | block => exact .inr (.inl nofun)
  | comma => exact .inr (.inl nofun)
  | descendant _ _ _ _ ne => exact .inl ne
  | compound _ _ _ _ _ form => exact .inr form.advances

theorem AttributeForm.advances (hs : AttributeForm v s) : s.Advances P := by
  cases hs with
  | nameless => exact .inr trivial
  | named _ _ ne => exact .inr (.inl ne)

theorem ArgumentsForm.advances (hs : ArgumentsForm v s) : s.Advances P := by
  cases hs with
  | unclosed => trivial
  | empty => exact .inl nofun
  | arguments _ _ ne => exact .inl ne

/-- A statement that moves over nothing is left to a state that does. -/
theorem StatementForm.advances (hs : StatementForm v rest s) :
    s.Advances fun st => st = .done ∨ st.isEager = true := by
  cases hs with
  | finished => exact .inl rfl
  | unclosed => trivial
  | atRule => exact .inr rfl
  | assignment => exact .inr rfl
  | block => exact .inl nofun
  | close => exact .inl nofun
  | unbalanced => trivial
  | quoted _ _ form => exact form.advances
  | number _ _ form => exact form.advances
  | property => exact .inr rfl
  | selector => exact .inr rfl
  | stray => trivial

theorem advances_ofState {st : State} (h : st.isEager = true) (v : View) :
    (ofState st v).Advances P := by
  have hs := ofState_form st v
  generalize ofState st v = s at hs ⊢
  cases hs with
  | statement => cases h
  | atRule form =>
    cases form with
    | atEnd => trivial
    | known => exact .inl nofun
    | unknown => trivial
  | assignment form =>
    cases form with
    | atEnd => trivial
    | named _ form => exact form.advances
  | property form =>
    cases form with
    | atEnd => trivial
    | named => exact .inl nofun
    | stray => trivial
  | selector form => exact form.advances
  | group form => exact form.advances
  | pseudoArguments form => exact form.advances
  | value => cases h
  | interpolation form => exact form.advances
  | done => cases h

/-- A closing brace in front of a statement is moved over, or the run fails. -/
theorem advances_statement_of_brace {t : Text} (h : v.rest = '}' :: t) :
    (statement v).Advances P := by
  rw [statement_of_brace h]
  split
  case isTrue => exact .inr (.inl nofun)
  case isFalse => exact .inr trivial

end Script

namespace Machine

variable {P : State → Prop} {s : Script} {m : Machine} {source before : Text}

theorem offset_le_perform (s : Script) (m : Machine) : m.offset ≤ (perform s m).machine.offset := by
  induction s generalizing m with
  | skip t s ih => exact Nat.le_trans (Nat.le_add_right _ _) (ih (m.skip t))
  | emit k t s ih => exact Nat.le_trans (Nat.le_add_right _ _) (ih (m.take t).2)
  | enter mode s ih => exact ih (m.enter mode)
  | leave s ih => exact ih m.leave
  | note c s ih => exact ih (m.note c)
  | goto st => exact Nat.le_refl _
  | resume => exact Nat.le_refl _
  | fail t f => exact Nat.le_add_right _ _

theorem offset_le_step (m : Machine) : m.offset ≤ m.step.machine.offset := offset_le_perform _ _

private theorem offset_lt_add {t : Text} (h : t ≠ []) (m : Machine) :
    m.offset < m.offset + t.byteSize :=
  Nat.lt_add_of_pos_right (Nat.pos_of_ne_zero fun h0 => h (Text.byteSize_eq_zero.1 h0))

theorem offset_lt_perform (hs : s.Advances P) (he : (perform s m).error? = none) :
    m.offset < (perform s m).machine.offset ∨ P (perform s m).machine.state := by
  induction s generalizing m with
  | skip t s ih =>
    rcases hs with ht | hs
    · exact .inl (Nat.lt_of_lt_of_le (offset_lt_add ht m) (offset_le_perform s (m.skip t)))
    · exact (ih (m := m.skip t) hs he).imp_left (Nat.lt_of_le_of_lt (Nat.le_add_right _ _))
  | emit k t s ih =>
    rcases hs with ht | hs
    · exact .inl (Nat.lt_of_lt_of_le (offset_lt_add ht m) (offset_le_perform s (m.take t).2))
    · exact (ih (m := (m.take t).2) hs he).imp_left (Nat.lt_of_le_of_lt (Nat.le_add_right _ _))
  | enter mode s ih => exact ih (m := m.enter mode) hs he
  | leave s ih => exact ih (m := m.leave) hs he
  | note c s ih => exact ih (m := m.note c) hs he
  | goto st => exact .inr hs
  | resume => exact hs.elim
  | fail t f => cases he

/-- A value that ends in front of a brace leaves the brace to the statement around it. -/
theorem Coherent.statement_behind_value (hm : m.Coherent) (hstate : m.state = .value)
    (outside : m.view.inCall = false) (hs : m.script = .skip [] (.leave .resume)) :
    m.step.machine.state = .statement ∧ m.step.machine.cursor.rest = m.cursor.rest := by
  have hfits := hm.fits
  rw [hstate] at hfits
  obtain ⟨ms, hms, outer⟩ := hfits.not_inCall hm.view_shows outside
  rw [Machine.step, hs]
  constructor
  · exact (leave_resume (m := m.skip []) hms outer).2
  · exact rest_skip [] m

/-- Behind a step that stays where it is, the machine is done or has to move ahead. -/
theorem Coherent.advances_behind (hm : m.Coherent) (hrunning : m.state ≠ .done)
    (he : m.step.error? = none) (hstays : m.step.machine.offset = m.offset) :
    m.step.machine.state = .done ∨ m.step.machine.script.Advances fun _ => False := by
  have hstuck {P : State → Prop} (hs : m.script.Advances P) : P m.step.machine.state :=
    (offset_lt_perform hs he).resolve_left fun hlt => Nat.ne_of_gt hlt hstays
  by_cases heager : m.state.isEager = true
  · exact (hstuck (P := fun _ => False) (Script.advances_ofState heager m.view)).elim
  have hform := Script.ofState_form m.state m.view
  cases hstate : m.state with
  | statement =>
    rw [hstate] at hform
    have hs : m.script.Advances fun st => st = .done ∨ st.isEager = true := by
      rw [script, hstate]
      generalize Script.ofState _ _ = s at hform ⊢
      cases hform with
      | statement _ form => exact .inr form.advances
    exact (hstuck hs).imp_right fun heager => Script.advances_ofState heager _
  | value =>
    have hs : m.script.Advances (fun _ => False) ∨ m.view.inCall = false ∧
        m.script = .skip [] (.leave .resume) ∧ ∃ t, m.cursor.rest = '}' :: t := by
      rw [hstate] at hform
      rw [script, hstate]
      generalize Script.ofState _ _ = s at hform ⊢
      cases hform with
      | @value blank rest s munch form =>
        by_cases hblank : blank = []
        · subst hblank
          refine form.advances_or.imp .inr ?_
          rintro ⟨outside, rfl, t, rfl⟩
          exact ⟨outside, rfl, t, munch.split⟩
        · exact .inl (.inl hblank)
    rcases hs with hs | ⟨outside, hs, t, hbrace⟩
    · exact (hstuck hs).elim
    · obtain ⟨hstatement, hrest⟩ := hm.statement_behind_value hstate outside hs
      refine .inr ?_
      rw [script, hstatement]
      exact Script.advances_statement_of_brace (hrest.trans hbrace)
  | done => exact absurd hstate hrunning
  | atRule | assignment | property | selector | «attribute» | pseudoArguments | interpolation =>
    rw [hstate] at heager
    exact absurd rfl heager

/-- A run without an error leaves no mode open. -/
theorem depth_run (hm : m.Coherent) (he : m.run.error? = none) : m.run.machine.depth = 0 := by
  induction m using run_induction with
  | done m hdone =>
    have hfits := hm.fits
    rw [hdone] at hfits
    rw [run_of_done hdone]
    generalize hms : m.openModes = ms at hfits
    cases hfits
    have hframes : m.modes.frames = [] := List.map_eq_nil_iff.1 hms
    exact List.length_eq_zero_iff.2 hframes
  | error m hdone herror =>
    rw [run_of_error herror] at he
    exact absurd he herror
  | step m hdone hstep ih =>
    rw [run_eq m] at he ⊢
    rw [Run.error?_followedBy, show m.step.error? = none from hstep] at he
    exact ih (hm.step hstep) he

/-- The pace of the run of a machine in front of `n` bytes. -/
structure Paced (m : Machine) (n : Nat) : Prop where
  finished : (m.steps (2 * n + 2)).machine.state = .done
  whole : m.run = m.steps (2 * n + 2)
  forward : ∀ j, (m.steps j).machine.offset ≤ (m.steps (j + 1)).machine.offset
  inside : ∀ j, (m.steps j).machine.offset ≤ n
  /-- Only the last step may move over nothing right behind one that moves over nothing. -/
  lively : ∀ j, (m.steps (j + 1)).machine.offset = (m.steps j).machine.offset →
    (m.steps (j + 2)).machine.offset = (m.steps (j + 1)).machine.offset →
    (m.steps (j + 2)).machine.state = .done
  complete : m.run.error? = none → m.run.machine.offset = n ∧ m.run.machine.depth = 0

theorem forward_steps (m : Machine) (j : Nat) :
    (m.steps j).machine.offset ≤ (m.steps (j + 1)).machine.offset :=
  offset_le_step _

theorem offset_steps_le (c : Config) (source : Text) (j : Nat) :
    ((start c source).steps j).machine.offset ≤ source.byteSize := by
  obtain ⟨before, h⟩ := exists_stands_steps c source j
  exact h.pos_le

theorem lively_steps (c : Config) (source : Text) (j : Nat)
    (first : ((start c source).steps (j + 1)).machine.offset =
      ((start c source).steps j).machine.offset)
    (second : ((start c source).steps (j + 2)).machine.offset =
      ((start c source).steps (j + 1)).machine.offset) :
    ((start c source).steps (j + 2)).machine.state = .done := by
  refine Decidable.of_not_not fun hrunning₂ => ?_
  obtain ⟨hrunning₁, he₁⟩ := running_of_step hrunning₂
  obtain ⟨hrunning, he⟩ := running_of_step hrunning₁
  obtain ⟨before, h⟩ := recorded_steps hrunning
  rcases h.coherent.advances_behind hrunning he first with hdone | hadvances
  · exact hrunning₁ hdone
  · rcases offset_lt_perform hadvances he₁ with hlt | hfalse
    · exact Nat.ne_of_gt hlt second
    · exact hfalse

/-- Every second step has moved ahead by a byte. -/
theorem le_offset_steps (c : Config) (source : Text) (j : Nat)
    (running : ((start c source).steps (2 * j)).machine.state ≠ .done) :
    j ≤ ((start c source).steps (2 * j)).machine.offset := by
  induction j with
  | zero => exact Nat.zero_le _
  | succ j ih =>
    have hbehind := ih (running_of_step (running_of_step running).1).1
    have hfirst := forward_steps (start c source) (2 * j)
    have hsecond := forward_steps (start c source) (2 * j + 1)
    have hmoves : ¬(((start c source).steps (2 * j + 1)).machine.offset =
        ((start c source).steps (2 * j)).machine.offset ∧
        ((start c source).steps (2 * j + 1 + 1)).machine.offset =
        ((start c source).steps (2 * j + 1)).machine.offset) :=
      fun h => running (lively_steps c source (2 * j) h.1 h.2)
    show j + 1 ≤ ((start c source).steps (2 * j + 1 + 1)).machine.offset
    omega

end Machine

/-- A run takes at most two steps for each byte and two more. It never moves back and never beyond the
end of the text, and a run without an error gets there and has closed all modes. -/
theorem scan_progress (c : Config) (source : Text) :
    (Machine.start c source).Paced source.byteSize := by
  have hdone : ((Machine.start c source).steps (2 * source.byteSize + 2)).machine.state = .done := by
    refine Decidable.of_not_not fun hrunning => ?_
    have hle := Machine.le_offset_steps c source (source.byteSize + 1) hrunning
    exact Nat.not_succ_le_self _ (hle.trans (Machine.offset_steps_le c source _))
  exact {
    finished := hdone
    whole := Machine.run_eq_steps_of_done hdone
    forward := Machine.forward_steps _
    inside := Machine.offset_steps_le c source
    lively := Machine.lively_steps c source
    complete := fun he =>
      ⟨Machine.offset_run (Machine.coherent_start c source) (Machine.stands_start c source) nofun he,
        Machine.depth_run (Machine.coherent_start c source) he⟩ }

end StyleLex

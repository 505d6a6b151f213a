import StyleLex.Proofs.RunSteps
import StyleLex.Proofs.ScriptConformance

/-!
# Every run spells a sheet

A run that ends without an error has spelled a whole sheet, and any other run the beginning of one.
-/
namespace StyleLex

namespace Machine

/-- What a script hands over, with any word that may come behind it, is a word of `L`. -/
theorem follows_perform {s : Script} {m : Machine} {L : List Kind → Prop}
    (h : s.Conforms m.config m.openModes L) (he : (perform s m).error? = none) {w : List Kind}
    (hw : Follows m.config (perform s m).machine.state (perform s m).machine.openModes w) :
    L ((perform s m).kinds ++ w) := by
  induction s generalizing m L with
  | skip t s ih => exact ih (m := m.skip t) h he hw
  | emit k t s ih => exact ih (m := (m.take t).2) h he hw
  | enter mode s ih => exact ih (m := m.enter mode) h he hw
  | leave s ih => exact ih (m := m.leave) (by rw [openModes_leave]; exact h) he hw
  | note c s ih => exact ih (m := m.note c) h he hw
  | goto s => exact h w hw
  | resume =>
    rw [Script.Conforms, topMode_openModes] at h
    exact h w hw
  | fail t f => simp [perform] at he

/-- What a script hands over in front of an error begins a word of `L`. -/
theorem exists_of_conforms {s : Script} {m : Machine} {L : List Kind → Prop}
    (h : s.Conforms m.config m.openModes L) (he : (perform s m).error? ≠ none) :
    ∃ w, L ((perform s m).kinds ++ w) := by
  induction s generalizing m L with
  | skip t s ih => exact ih (m := m.skip t) h he
  | emit k t s ih => exact ih (m := (m.take t).2) h he
  | enter mode s ih => exact ih (m := m.enter mode) h he
  | leave s ih => exact ih (m := m.leave) (by rw [openModes_leave]; exact h) he
  | note c s ih => exact ih (m := m.note c) h he
  | goto s => exact absurd rfl he
  | resume => exact absurd rfl he
  | fail t f => exact h

/-- The kinds handed over by a run can be completed to what may come behind the state of `m`, and need
nothing behind them if the run ends without an error. -/
def Spells (m : Machine) (r : Run) : Prop :=
  ∃ w, (r.error? = none → w = []) ∧ Follows m.config m.state m.openModes (r.kinds ++ w)

theorem spells_step {m : Machine} (h : m.script.Conforms m.config m.openModes
    (Follows m.config m.state m.openModes))
    (hnext : m.step.error? = none → m.step.machine.Spells m.step.machine.run) : m.Spells m.run := by
  by_cases he : m.step.error? = none
  · obtain ⟨w, hend, hw⟩ := hnext he
    refine ⟨w, ?_, ?_⟩
    · intro hrun
      apply hend
      simpa [run_eq m, Run.followedBy, he] using hrun
    · rw [run_eq, Run.kinds_followedBy, List.append_assoc]
      apply follows_perform h he
      rwa [step, config_perform] at hw
  · obtain ⟨w, hw⟩ := exists_of_conforms h he
    rw [run_of_error he]
    exact ⟨w, fun hnone => absurd hnone he, hw⟩

section

variable {m : Machine} {t : Text} (hst : m.state = .statement) (hrest : m.cursor.rest = '}' :: t)

include hst hrest

private theorem script_of_brace : m.script = .skip [] (if m.modes.top = .block then
    .emit .braceEnd ['}'] <| .leave .resume else .fail [] ⟨.unbalancedCloseBrace, .scan⟩) := by
  rw [script, hst]
  exact Script.statement_of_brace hrest

private theorem run_of_stray_brace (htop : m.modes.top ≠ .block) :
    m.run.error? ≠ none ∧ m.run.kinds = [] := by
  have hscript := script_of_brace hst hrest
  rw [if_neg htop] at hscript
  have hstep : m.step.error? ≠ none ∧ m.step.kinds = [] := by
    rw [step, hscript]
    exact ⟨Option.some_ne_none _, rfl⟩
  rwa [run_of_error hstep.1]

private theorem run_of_closeBlock (hm : m.Coherent) (htop : m.modes.top = .block) :
    ∃ m' : Machine, m'.budget < m.budget ∧ m'.Coherent ∧ m'.config = m.config ∧
      m'.openModes = m.openModes.tail ∧ m'.state = .ofMode (topMode m'.openModes) ∧
      m.run.kinds = .braceEnd :: m'.run.kinds ∧ m.run.error? = m'.run.error? := by
  have hscript := script_of_brace hst hrest
  rw [if_pos htop] at hscript
  have hstep : ∃ token, m.step = ⟨[token], none, ((m.skip []).take ['}']).2.leave.resume⟩ ∧
      token.kind = .braceEnd := by
    rw [step, hscript]
    exact ⟨_, rfl, rfl⟩
  obtain ⟨token, hstep, hkind⟩ := hstep
  have hbudget := budget_step_lt (m := m) (by rw [hst]; decide)
  have hcoherent := hm.step (by rw [hstep])
  rw [hstep] at hbudget hcoherent
  refine ⟨_, hbudget, hcoherent, rfl, ?_, ?_, ?_, ?_⟩
  · exact openModes_leave ((m.skip []).take ['}']).2
  · rw [topMode_openModes]
    rfl
  · rw [run_eq, hstep, Run.kinds_followedBy, Run.kinds]
    simp [hkind]
  · rw [run_eq, hstep, Run.error?_followedBy, Option.none_or]

end

/-- A value that ends at the brace of its block is the last declaration in it. -/
private theorem spells_of_endsAtBrace {m : Machine} {blank rest : Text} {s : Script}
    (hm : m.Coherent) (hst : m.state = .value) (munch : m.cursor.rest.Munch isSpace blank rest)
    (hs : Script.EndsAtBrace m.view rest s) (hscript : m.script = .skip blank s)
    (hnext : ∀ m' : Machine, m'.budget < m.budget → m'.Coherent → m'.Spells m'.run) :
    m.Spells m.run := by
  obtain ⟨⟨t, rfl⟩, outside, lenient, rfl⟩ := hs
  obtain ⟨ms, hms, outer⟩ := (hst ▸ hm.fits).not_inCall hm.view_shows outside
  let behind := (m.skip blank).leave.resume
  have hstep : m.step = ⟨[], none, behind⟩ := by
    rw [step, hscript]
    rfl
  have hcoherent : behind.Coherent := by
    have h := hm.step (by rw [hstep])
    rwa [hstep] at h
  have hbudget : behind.budget < m.budget := by
    have h := budget_step_lt (m := m) (by rw [hst]; decide)
    rwa [hstep] at h
  have hmodes : behind.openModes = ms := by
    have h : behind.openModes = m.openModes.tail := openModes_leave (m.skip blank)
    rw [h, hms, List.tail_cons]
  have hstate : behind.state = .statement := by
    rw [← outer.resume, ← hmodes, topMode_openModes]
    rfl
  have hrest : behind.cursor.rest = '}' :: t := by
    have h : behind.cursor.rest = m.cursor.rest.drop blank.length := rfl
    rw [h, munch.split, List.drop_left]
  have hrun : m.run = behind.run := by rw [run_eq, hstep, Run.nothing_followedBy]
  rw [hrun, Spells, hst, hms]
  cases outer with
  | nil =>
    obtain ⟨herror, hkinds⟩ := run_of_stray_brace hstate hrest (by
      rw [← topMode_openModes, hmodes]
      decide)
    obtain ⟨w, hw⟩ := Blocks.nil.exists_completes_value m.config
    rw [hkinds]
    exact ⟨w, fun hnone => absurd hnone herror, hw⟩
  | @cons ms outer =>
    obtain ⟨m', hbudget', hcoherent', hconfig', hmodes', hstate', hkinds, herror⟩ :=
      run_of_closeBlock hstate hrest hcoherent (by rw [← topMode_openModes, hmodes]; rfl)
    obtain ⟨w, hend, hw⟩ := hnext m' (Nat.lt_trans hbudget' hbudget) hcoherent'
    rw [hmodes, List.tail_cons] at hmodes'
    rw [hconfig', hstate', hmodes', outer.follows_resume] at hw
    refine ⟨w, by rwa [herror], ?_⟩
    rw [hkinds]
    exact Completes.lastValue lenient .noValue hw

theorem Coherent.spells {m : Machine} (hm : m.Coherent) : m.Spells m.run := by
  induction h : m.budget using Nat.strong_induction_on generalizing m with
  | _ n ih =>
    subst h
    by_cases hdone : m.state = .done
    · rw [run_of_done hdone, Spells, hdone]
      exact ⟨[], fun _ => rfl, rfl⟩
    · rcases Script.conforms_ofState hm.view_shows hm.fits with hs | ⟨hvalue, hs⟩
      · apply spells_step hs
        intro he
        exact ih _ (budget_step_lt hdone) (hm.step he) rfl
      · obtain ⟨blank, rest, s, munch, hbrace, hscript⟩ := hs
        apply spells_of_endsAtBrace hm hvalue munch hbrace hscript
        intro m' hbudget hm'
        exact ih _ hbudget hm' rfl

end Machine

variable (c : Config) (source : Text)

/-- The kinds of a run can be completed to a sheet. -/
theorem exists_sheet : ∃ w, ((Machine.start c source).run.error? = none → w = []) ∧
    Derives c .sheet ((Machine.start c source).run.kinds ++ w) := by
  obtain ⟨w, hend, hw⟩ := (Machine.coherent_start c source).spells
  refine ⟨w, hend, ?_⟩
  cases hw with
  | sheet items => exact items

/-- The tokens of a text spell a sheet. At every moment of a run, whether it fails or not, the tokens
so far begin one, and every closing bracket belongs to the innermost open one. -/
theorem kinds_derivable :
    (∀ ts, tokenize c source = .ok ts → Derives c .sheet (ts.map Token.kind)) ∧
      ∀ u, u <+: (Machine.start c source).run.kinds →
        (∃ w, Derives c .sheet (u ++ w)) ∧ (openBrackets [] u).isSome = true := by
  obtain ⟨w, hend, hw⟩ := exists_sheet c source
  constructor
  · intro ts hts
    obtain ⟨hrun, he⟩ := run_of_tokenize hts
    rw [hend he, List.append_nil, Run.kinds, hrun] at hw
    exact hw
  · intro u hu
    obtain ⟨v, hv⟩ := hu
    rw [← hv, List.append_assoc] at hw
    constructor
    · exact ⟨_, hw⟩
    · exact hw.openBrackets_isSome

/-- The last declaration of a block lacks its semicolon. -/
theorem kinds_derivable_lenient :
    (∃ ts, tokenize .lenient "a{b:1px}".toList = .ok ts ∧ Derives .lenient .sheet (ts.map Token.kind)) ∧
      (∃ w, Derives .lenient .sheet ([.tagSelector, .braceStart] ++ w)) ∧
        (openBrackets [] [.tagSelector, .braceStart]).isSome = true := by
  have hrun : tokenize .lenient "a{b:1px}".toList = .ok [.make .tagSelector ['a'] 0 1,
      .make .braceStart ['{'] 1 1, .make .propertyName ['b'] 2 1, .make .colon [':'] 3 1,
      .make .integer ['1'] 4 1, .make (.unit .px) ['p', 'x'] 5 1, .make .braceEnd ['}'] 7 1] := by
    decide +kernel
  have hbegin : [.tagSelector, .braceStart] <+:
      (Machine.start .lenient "a{b:1px}".toList).run.kinds := by
    decide +kernel
  obtain ⟨hwhole, hbegins⟩ := kinds_derivable .lenient "a{b:1px}".toList
  exact ⟨⟨_, hrun, hwhole _ hrun⟩, hbegins _ hbegin⟩

end StyleLex

import StyleLex.Proofs.ErrorExactness

/-!
# Runs cut off after a number of steps

The first steps of a run, and the run behind them, make up the whole run. What the start has and every
step that does not fail keeps, a machine has as long as it is not done.
-/
namespace StyleLex

theorem Run.followedBy_assoc (r r' next : Run) :
    (r.followedBy r').followedBy next = r.followedBy (r'.followedBy next) := by
  obtain ⟨ts, e?, m⟩ := r
  cases e? <;> simp [followedBy]

namespace Machine

variable {m : Machine}

/-- What the first `n` steps hand over, the error if one of them fails, and the machine then. -/
def steps (m : Machine) : Nat → Run
  | 0 => ⟨[], none, m⟩
  | n + 1 => (m.steps n).followedBy (m.steps n).machine.step

theorem machine_steps_succ (m : Machine) (n : Nat) :
    (m.steps (n + 1)).machine = (m.steps n).machine.step.machine := rfl

theorem run_eq_steps (m : Machine) (n : Nat) :
    m.run = (m.steps n).followedBy (m.steps n).machine.run := by
  induction n with
  | zero => rfl
  | succ n ih =>
    rw [steps, Run.followedBy_assoc, ih]
    exact congrArg _ (run_eq _)

/-- The steps up to the last one are the whole run. -/
theorem run_eq_steps_of_done {n : Nat} (h : (m.steps n).machine.state = .done) :
    m.run = m.steps n := by
  rw [run_eq_steps m n, run_of_done h, Run.followedBy_nothing]

theorem running_of_step (h : m.step.machine.state ≠ .done) :
    m.state ≠ .done ∧ m.step.error? = none := by
  constructor
  · intro hdone
    rw [step_of_done hdone] at h
    exact h hdone
  · exact Decidable.of_not_not fun he => h (state_step_of_error he)

theorem state_steps_of_error {j : Nat} (h : (m.steps j).error? ≠ none) :
    (m.steps j).machine.state = .done := by
  induction j with
  | zero => exact absurd rfl h
  | succ j ih =>
    by_cases he : (m.steps j).error? = none
    · refine state_step_of_error fun hstep => h ?_
      rw [steps, Run.error?_followedBy, he, hstep]
      rfl
    · rw [machine_steps_succ, step_of_done (ih he)]
      exact ih he

/-- Induction along the steps of a run, as far as it is not over. -/
theorem steps_induction {P : List Token → Machine → Prop} (start : P [] m)
    (step : ∀ ts m', P ts m' → m'.state ≠ .done → m'.step.error? = none →
      P (ts ++ m'.step.tokens) m'.step.machine)
    (n : Nat) (running : (m.steps n).machine.state ≠ .done) :
    P (m.steps n).tokens (m.steps n).machine := by
  induction n with
  | zero => exact start
  | succ n ih =>
    rw [machine_steps_succ] at running
    obtain ⟨hrunning, he⟩ := running_of_step running
    exact step _ _ (ih hrunning) hrunning he

/-- As long as the machine is not done, it has what its tokens and its text say of it. -/
theorem recorded_steps {c : Config} {source : Text} {n : Nat}
    (running : ((start c source).steps n).machine.state ≠ .done) :
    ∃ before, ((start c source).steps n).machine.Recorded source before
      ((start c source).steps n).tokens := by
  refine steps_induction (P := fun ts m => ∃ before, m.Recorded source before ts) ?_ ?_ n running
  · exact ⟨[], recorded_start c source⟩
  · rintro ts m ⟨before, h⟩ hrunning he
    exact ⟨_, h.step hrunning he⟩

/-- Wherever the machine is, it stands in the text. -/
theorem exists_stands_steps (c : Config) (source : Text) (n : Nat) :
    ∃ before, ((start c source).steps n).machine.cursor.Stands source before := by
  induction n with
  | zero => exact ⟨[], Cursor.stands_ofText source⟩
  | succ n ih =>
    rw [machine_steps_succ]
    by_cases hdone : ((start c source).steps n).machine.state = .done
    · rw [step_of_done hdone]
      exact ih
    · obtain ⟨before, h⟩ := recorded_steps hdone
      exact exists_stands_perform h.stands (h.coherent.reads hdone)

end Machine

end StyleLex

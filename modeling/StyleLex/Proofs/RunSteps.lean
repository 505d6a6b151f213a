import StyleLex.BatchRun

/-!
# Runs by their steps

A run is its first step and the run behind it. A step that fails is the last one.
-/
namespace StyleLex

namespace Run

def kinds (r : Run) : List Kind := r.tokens.map Token.kind

@[simp] theorem kinds_followedBy (r next : Run) : (r.followedBy next).kinds = r.kinds ++ next.kinds := by
  simp [kinds, followedBy]

theorem nothing_followedBy (m : Machine) (next : Run) :
    (Run.mk [] none m).followedBy next = next := rfl

theorem error?_followedBy (r next : Run) :
    (r.followedBy next).error? = r.error?.or next.error? := rfl

theorem followedBy_nothing (r : Run) : r.followedBy ⟨[], none, r.machine⟩ = r := by
  simp [followedBy]

end Run

namespace Machine

theorem state_of_error {s : Script} {m : Machine} (h : (perform s m).error? ≠ none) :
    (perform s m).machine.state = .done := by
  induction s generalizing m with
  | skip t s ih => exact ih h
  | emit k t s ih => exact ih h
  | enter mode s ih => exact ih h
  | leave s ih => exact ih h
  | note c s ih => exact ih h
  | goto s => exact absurd rfl h
  | resume => exact absurd rfl h
  | fail t f => rfl

theorem state_step_of_error {m : Machine} (h : m.step.error? ≠ none) : m.step.machine.state = .done :=
  state_of_error h

theorem step_of_done {m : Machine} (h : m.state = .done) : m.step = ⟨[], none, m⟩ := by
  obtain ⟨c, cursor, modes, state, compound⟩ := m
  cases h
  rfl

theorem run_eq (m : Machine) : m.run = m.step.followedBy m.step.machine.run := by
  by_cases h : m.state = .done
  · rw [step_of_done h, run_of_done h]
    rfl
  · exact run_of_not_done h

theorem run_of_error {m : Machine} (h : m.step.error? ≠ none) : m.run = m.step := by
  rw [run_eq, run_of_done (state_step_of_error h), Run.followedBy_nothing]

/-- Induction along a run, which is over, fails in its first step, or goes on behind it. -/
@[elab_as_elim]
theorem run_induction {P : Machine → Prop} (done : ∀ m, m.state = .done → P m)
    (error : ∀ m, m.state ≠ .done → m.step.error? ≠ none → P m)
    (step : ∀ m, m.state ≠ .done → m.step.error? = none → P m.step.machine → P m) (m : Machine) :
    P m := by
  induction h : m.budget using Nat.strongRecOn generalizing m with
  | _ n ih =>
    subst h
    by_cases hdone : m.state = .done
    · exact done m hdone
    · by_cases he : m.step.error? = none
      · exact step m hdone he (ih _ (budget_step_lt hdone) _ rfl)
      · exact error m hdone he

theorem state_run (m : Machine) : m.run.machine.state = .done := by
  induction m using run_induction with
  | done m hdone =>
    rw [run_of_done hdone]
    exact hdone
  | error m _ he =>
    rw [run_of_error he]
    exact state_step_of_error he
  | step m _ _ ih =>
    rw [run_eq m]
    exact ih

end Machine

theorem tokenize_eq (c : Config) (source : Text) : tokenize c source =
    (Machine.start c source).run.error?.elim (.ok (Machine.start c source).run.tokens) .error := by
  rw [tokenize]
  cases (Machine.start c source).run.error? <;> rfl

theorem tokenize_of_run {c : Config} {source : Text}
    (h : (Machine.start c source).run.error? = none) :
    tokenize c source = .ok (Machine.start c source).run.tokens := by
  rw [tokenize_eq, h]
  rfl

theorem run_of_tokenize {c : Config} {source : Text} {ts : List Token}
    (h : tokenize c source = .ok ts) : (Machine.start c source).run.tokens = ts ∧
      (Machine.start c source).run.error? = none := by
  rw [tokenize_eq] at h
  cases he : (Machine.start c source).run.error? with
  | none =>
    rw [he] at h
    exact ⟨Except.ok.inj h, rfl⟩
  | some e =>
    rw [he] at h
    cases h

end StyleLex

import StyleLex.Machine
import StyleLex.StatementBudget

/-!
# A budget for the machine

A step of a machine that is not done leaves a smaller budget, so every run ends.
-/
namespace StyleLex.Machine

def budget (m : Machine) : Nat := m.state.budget m.cursor.rest.length m.depth

private theorem budget_resume (m : Machine) :
    m.resume.budget ≤ Script.resume.left m.cursor.rest.length m.depth := by
  obtain ⟨_, _, ⟨fs⟩, _, _⟩ := m
  cases fs with
  | nil => simp [resume, goto, budget, Script.left, depth, ModeStack.depth, ModeStack.top,
      ModeStack.topFrame, Frame.bottom, State.ofMode, State.budget]
  | cons f fs =>
    have := State.budget_le (.ofMode f.mode)
    simpa [resume, goto, budget, Script.left, depth, ModeStack.depth, ModeStack.top,
      ModeStack.topFrame, Nat.add_assoc] using this _ (fs.length + 1)

theorem budget_perform_le (s : Script) (m : Machine) :
    (perform s m).machine.budget ≤ s.left m.cursor.rest.length m.depth := by
  induction s generalizing m with
  | skip t s ih =>
    have := ih (m.skip t)
    rwa [rest_skip, List.length_drop, depth_skip] at this
  | emit k t s ih =>
    have := ih (m.take t).2
    rwa [rest_take, List.length_drop, depth_take] at this
  | enter mode s ih =>
    have := ih (m.enter mode)
    rwa [depth_enter] at this
  | leave s ih =>
    have := ih m.leave
    rwa [depth_leave] at this
  | note c s ih => exact ih (m.note c)
  | goto s => exact Nat.le_refl _
  | resume => exact budget_resume m
  | fail t f => simp [perform, stop, budget, State.budget]

theorem budget_step_lt {m : Machine} (h : m.state ≠ .done) : m.step.machine.budget < m.budget :=
  Nat.lt_of_le_of_lt (budget_perform_le m.script m) (Script.left_ofState_lt h m.view m.depth)

end StyleLex.Machine

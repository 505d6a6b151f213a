import StyleLex.MachineBudget

/-! # Whole runs -/
namespace StyleLex

namespace Machine

/-- Steps until the machine is done. An error leaves it done. -/
def run (m : Machine) : Run :=
  if h : m.state = .done then ⟨[], none, m⟩ else
    have := budget_step_lt h
    m.step.followedBy m.step.machine.run
termination_by m.budget

theorem run_of_done {m : Machine} (h : m.state = .done) : m.run = ⟨[], none, m⟩ := by
  rw [run, dif_pos h]

theorem run_of_not_done {m : Machine} (h : m.state ≠ .done) :
    m.run = m.step.followedBy m.step.machine.run := by
  rw [run, dif_neg h]

end Machine

/-- The tokens of a text, or the first error in it. -/
def tokenize (config : Config) (source : Text) : Except LexError (List Token) :=
  let run := (Machine.start config source).run
  match run.error? with
  | some e => .error e
  | none => .ok run.tokens

end StyleLex

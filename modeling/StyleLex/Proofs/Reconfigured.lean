import StyleLex.Proofs.RunSteps

/-!
# Machines with another configuration

Only a value and an interpolation ask for the configuration, so machines that differ in nothing else do
the same in all other states.
-/
namespace StyleLex

/-- What the state asks for is the same in both configurations. -/
def State.Alike : State → Config → Config → Prop
  | .value, c, c' => c.requireSemicolon = c'.requireSemicolon
  | .interpolation, c, c' => c.interpolation = c'.interpolation
  | _, _, _ => True

theorem State.alike_of_ne_value {st : State} {c c' : Config} (h : st ≠ .value)
    (hbody : c.interpolation = c'.interpolation) : st.Alike c c' := by
  cases st with
  | value => exact absurd rfl h
  | interpolation => exact hbody
  | statement | atRule | assignment | property | selector | «attribute» | pseudoArguments | done =>
    trivial

theorem State.alike_of_ne_interpolation {st : State} {c c' : Config} (h : st ≠ .interpolation)
    (hsemicolon : c.requireSemicolon = c'.requireSemicolon) : st.Alike c c' := by
  cases st with
  | value => exact hsemicolon
  | interpolation => exact absurd rfl h
  | statement | atRule | assignment | property | selector | «attribute» | pseudoArguments | done =>
    trivial

def View.reconfigure (c : Config) (v : View) : View := { v with config := c }

def Machine.reconfigure (c : Config) (m : Machine) : Machine := { m with config := c }

def Run.reconfigure (c : Config) (r : Run) : Run := { r with machine := r.machine.reconfigure c }

theorem Run.items_followedBy {r : Run} (h : r.error? = none) (next : Run) :
    (r.followedBy next).items = r.tokens.map .token ++ next.items := by
  rw [items, items, followedBy, h, Option.none_or, List.map_append, List.append_assoc]

namespace Script

variable {v : View} {c : Config} {st : State}

theorem value_reconfigure (h : c.requireSemicolon = v.config.requireSemicolon) :
    value (v.reconfigure c) = value v := by
  rw [value, value, View.reconfigure, h]
  rfl

theorem interpolation_reconfigure (h : c.interpolation = v.config.interpolation) :
    interpolation (v.reconfigure c) = interpolation v := by
  rw [interpolation, interpolation, View.reconfigure, h]
  rfl

theorem ofState_reconfigure (h : st.Alike c v.config) :
    ofState st (v.reconfigure c) = ofState st v := by
  cases st with
  | value => exact value_reconfigure h
  | interpolation => exact interpolation_reconfigure h
  | statement | atRule | assignment | property | selector | «attribute» | pseudoArguments | done =>
    rfl

end Script

namespace Machine

variable {c : Config} {m : Machine}

theorem perform_reconfigure (c : Config) (s : Script) (m : Machine) :
    perform s (m.reconfigure c) = (perform s m).reconfigure c := by
  induction s generalizing m with
  | skip t s ih => exact ih (m.skip t)
  | emit k t s ih => exact congrArg (Run.handOver _) (ih (m.take t).2)
  | enter mode s ih => exact ih (m.enter mode)
  | leave s ih => exact ih m.leave
  | note g s ih => exact ih (m.note g)
  | goto st => rfl
  | resume => rfl
  | fail t f => rfl

theorem step_reconfigure_of_script (h : (m.reconfigure c).script = m.script) :
    (m.reconfigure c).step = m.step.reconfigure c := by
  rw [Machine.step, h]
  exact perform_reconfigure c _ m

theorem script_reconfigure (h : m.state.Alike c m.config) : (m.reconfigure c).script = m.script :=
  Script.ofState_reconfigure (v := m.view) h

theorem step_reconfigure (h : m.state.Alike c m.config) :
    (m.reconfigure c).step = m.step.reconfigure c :=
  step_reconfigure_of_script (script_reconfigure h)

end Machine

end StyleLex

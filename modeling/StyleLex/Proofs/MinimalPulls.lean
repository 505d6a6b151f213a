import Mathlib.Order.Bounds.Basic
import StyleLex.Proofs.ScanProgress
import StyleLex.Proofs.StepHandovers

/-!
# Pulls make as few steps as they can

The pull that hands out a token has made the steps up to the one that gives the token, and none behind
it. What is left of the tokens of that step is queued.
-/
namespace StyleLex

namespace Machine

variable {m : Machine} {t : Token}

theorem Aligned.stop_le_perform {s : Script} (h : m.Aligned) (ht : t ∈ (Machine.perform s m).tokens) :
    t.stop ≤ (Machine.perform s m).machine.offset := by
  induction s generalizing m with
  | skip u s ih => exact ih (aligned_skip u m) ht
  | emit k u s ih =>
    rcases List.mem_cons.1 ht with rfl | ht
    · exact (h.stop_take u).le.trans (offset_le_perform s (m.take u).2)
    · exact ih (aligned_take u m) ht
  | enter mode s ih => exact ih (m := m.enter mode) h ht
  | leave s ih => exact ih (m := m.leave) h ht
  | note c s ih => exact ih (m := m.note c) h ht
  | goto st => cases ht
  | resume => cases ht
  | fail u f => cases ht

theorem Aligned.steps (h : m.Aligned) (j : Nat) : (m.steps j).machine.Aligned := by
  induction j with
  | zero => exact h
  | succ j ih => exact ih.perform _

theorem Aligned.stop_le_steps (h : m.Aligned) {j : Nat} (ht : t ∈ (m.steps j).tokens) :
    t.stop ≤ (m.steps j).machine.offset := by
  induction j with
  | zero => cases ht
  | succ j ih =>
    rcases List.mem_append.1 ht with ht | ht
    · exact (ih ht).trans (forward_steps m j)
    · exact (h.steps j).stop_le_perform ht

end Machine

namespace Pull

variable {m : Machine} {p : Pull} {t : Token} {j n : Nat}

/-- The pull after `n` requests. -/
def after : Nat → Pull → Pull
  | 0, p => p
  | n + 1, p => after n p.next.2

theorem after_succ (n : Nat) (p : Pull) : p.after (n + 1) = (p.after n).next.2 := by
  induction n generalizing p with
  | zero => rfl
  | succ n ih => exact ih p.next.2

theorem answer_eq (n : Nat) (p : Pull) : answer next n p = (p.after n).next.1 := by
  induction n generalizing p with
  | zero => rfl
  | succ n ih => exact ih p.next.2

/-- The pull that has made `j` steps and handed out `n` of their tokens. -/
def served (m : Machine) (j n : Nat) : Pull :=
  ⟨(m.steps j).machine, (m.steps j).tokens.drop n, (m.steps j).error?⟩

theorem remaining_served (hle : n ≤ (m.steps j).tokens.length) :
    (served m j n).remaining = { m.run with tokens := m.run.tokens.drop n } := by
  rw [Machine.run_eq_steps m j, remaining, served, Run.followedBy, Run.followedBy,
    List.drop_append_of_le_length hle]

theorem length_tokens_steps (m : Machine) (j : Nat) :
    (m.steps (j + 1)).tokens.length =
      (m.steps j).tokens.length + (m.steps j).machine.step.tokens.length :=
  List.length_append

/-- The next token comes from the first step that gives more tokens than are handed out. -/
theorem next_served (hle : n ≤ (m.steps j).tokens.length)
    (hpast : ∀ i < j, (m.steps i).tokens.length ≤ n) (ht : m.run.tokens[n]? = some t) :
    ∃ k, IsLeast {k | n + 1 ≤ (m.steps k).tokens.length} k ∧
      (served m j n).next = (some (.token t), served m k (n + 1)) := by
  induction hb : (m.steps j).machine.budget using Nat.strongRecOn generalizing j with
  | _ b ih =>
    subst hb
    rcases Nat.lt_or_eq_of_le hle with hlt | heq
    · have hqueue : (m.steps j).tokens.drop n = t :: (m.steps j).tokens.drop (n + 1) := by
        have hhead : (m.steps j).tokens[n]? = some t := by
          rw [← ht, Machine.run_eq_steps m j]
          exact (List.getElem?_append_left hlt).symm
        obtain ⟨_, hget⟩ := List.getElem?_eq_some_iff.1 hhead
        rw [List.drop_eq_getElem_cons hlt, hget]
      refine ⟨j, ⟨hlt, fun i hi => ?_⟩, ?_⟩
      · refine Nat.le_of_not_lt fun hij => ?_
        exact Nat.not_succ_le_self n (Nat.le_trans hi (hpast i hij))
      · rw [served, next, hqueue]
        rfl
    · -- The queue is empty, and neither an error nor the end can come before the token.
      have hqueue : (m.steps j).tokens.drop n = [] := List.drop_eq_nil_of_le heq.ge
      have hrunning : (m.steps j).machine.state ≠ .done := by
        intro hdone
        rw [Machine.run_eq_steps_of_done hdone, heq, List.getElem?_eq_none le_rfl] at ht
        cases ht
      have herror : (m.steps j).error? = none :=
        Decidable.of_not_not fun he => hrunning (Machine.state_steps_of_error he)
      have hserved : ofRun (m.steps j).machine.step = served m (j + 1) n := by
        rw [ofRun, served, Machine.steps, Run.followedBy, herror, heq, List.drop_left]
        rfl
      have hnext : (served m j n).next = (served m (j + 1) n).next := by
        rw [← hserved, served, next, hqueue, herror]
        simp only [dif_neg hrunning]
      rw [hnext]
      refine ih _ (Machine.budget_step_lt hrunning) ?_ ?_ rfl
      · exact hle.trans (length_tokens_steps m j ▸ Nat.le_add_right _ _)
      · intro i hi
        rcases Nat.lt_or_eq_of_le (Nat.le_of_lt_succ hi) with hij | rfl
        · exact hpast i hij
        · exact heq.ge

/-- A pull that has handed out `n` tokens has made the least number of steps that gives as many. -/
theorem after_served (hn : n ≤ m.run.tokens.length) :
    ∃ j, IsLeast {j | n ≤ (m.steps j).tokens.length} j ∧ (served m 0 0).after n = served m j n := by
  induction n with
  | zero => exact ⟨0, ⟨Nat.zero_le _, fun _ _ => Nat.zero_le _⟩, rfl⟩
  | succ n ih =>
    obtain ⟨j, hj, hafter⟩ := ih (Nat.le_of_succ_le hn)
    have hpast (i : Nat) (hi : i < j) : (m.steps i).tokens.length ≤ n :=
      Nat.le_of_not_le fun h => Nat.not_le_of_lt hi (hj.2 h)
    obtain ⟨k, hk, hnext⟩ := next_served hj.1 hpast (List.getElem?_eq_getElem hn)
    exact ⟨k, hk, by rw [after_succ, hafter, hnext]⟩

theorem next_of_done (h : m.state = .done) : next ⟨m, [], none⟩ = (none, ⟨m, [], none⟩) := by
  rw [next]
  exact dif_pos h

/-- Behind its tokens a pull hands out the error, if there is one, and is where the run ends. -/
theorem next_of_exhausted (h : p.remaining.tokens = [])
    (stopped : p.error? ≠ none → p.machine.state = .done) :
    p.next = (p.remaining.error?.map .error, ⟨p.remaining.machine, [], none⟩) := by
  induction hb : p.machine.budget using Nat.strongRecOn generalizing p with
  | _ b ih =>
    subst hb
    obtain ⟨m, queue, error?⟩ := p
    obtain ⟨rfl, hrun⟩ := List.append_eq_nil_iff.1 h
    cases error? with
    | some e =>
      have hdone : m.state = .done := stopped nofun
      rw [remaining, Machine.run_of_done hdone, next]
      rfl
    | none =>
      by_cases hdone : m.state = .done
      · rw [remaining, Machine.run_of_done hdone]
        exact next_of_done hdone
      · have hremaining : remaining ⟨m, [], none⟩ = (ofRun m.step).remaining :=
          (remaining_ofRun hdone).symm
        have hnext : next ⟨m, [], none⟩ = (ofRun m.step).next := by
          rw [next]
          exact dif_neg hdone
        rw [hnext, hremaining]
        refine ih _ (Machine.budget_step_lt hdone) ?_ Machine.state_step_of_error rfl
        rw [← hremaining]
        exact h

theorem offset_le_next (p : Pull) : p.offset ≤ p.next.2.offset := by
  induction hb : p.machine.budget using Nat.strongRecOn generalizing p with
  | _ b ih =>
    subst hb
    obtain ⟨m, queue, error?⟩ := p
    cases queue with
    | cons t ts =>
      rw [next]
      exact le_rfl
    | nil =>
      cases error? with
      | some e =>
        rw [next]
        exact le_rfl
      | none =>
        by_cases hdone : m.state = .done
        · rw [next_of_done hdone]
        · rw [next, dif_neg hdone]
          exact (Machine.offset_le_step m).trans (ih _ (Machine.budget_step_lt hdone) (ofRun m.step) rfl)

theorem after_length (m : Machine) :
    ((served m 0 0).after m.run.tokens.length).next =
      (m.run.error?.map .error, ⟨m.run.machine, [], none⟩) := by
  obtain ⟨j, hj, hafter⟩ := after_served (m := m) le_rfl
  have hremaining := remaining_served hj.1
  have hexhausted : (served m j m.run.tokens.length).remaining.tokens = [] := by
    rw [hremaining]
    exact List.drop_length
  rw [hafter, next_of_exhausted hexhausted Machine.state_steps_of_error, hremaining]

/-- Later requests change nothing. -/
theorem after_exhausted (hn : m.run.tokens.length < n) :
    (served m 0 0).after n = ⟨m.run.machine, [], none⟩ := by
  induction hn with
  | refl => rw [after_succ, after_length]
  | step _ ih => rw [after_succ, ih, next_of_done (Machine.state_run m)]

/-- The step that gave the last token handed out gives at most three behind it. -/
theorem length_queue_le (m : Machine) (n : Nat) : ((served m 0 0).after n).queue.length ≤ 3 := by
  rcases Nat.lt_or_ge m.run.tokens.length n with hlt | hn
  · rw [after_exhausted hlt]
    exact Nat.zero_le _
  · obtain ⟨j, hj, hafter⟩ := after_served hn
    rw [hafter, served, List.length_drop]
    cases j with
    | zero => exact Nat.sub_le_of_le_add (Nat.zero_le _)
    | succ j =>
      have hbefore : (m.steps j).tokens.length < n :=
        Nat.lt_of_not_le fun h => Nat.not_succ_le_self j (hj.2 h)
      have hstep := Machine.length_step_le (m.steps j).machine
      rw [length_tokens_steps]
      omega

end Pull

/-- The pull that hands out a token has made the least number of steps that gives as many tokens, and
stands where they end. At most three tokens are queued then. Behind the tokens it hands out the error,
if there is one, and stands where the run does from then on. -/
theorem pull_minimal (c : Config) (source : Text) :
    let m := Machine.start c source
    let p := Pull.start c source
    (∀ n t, m.run.tokens[n]? = some t →
      answer Pull.next n p = some (.token t) ∧ t.stop ≤ (p.after (n + 1)).offset ∧
        ∃ j, IsLeast {j | n + 1 ≤ (m.steps j).tokens.length} j ∧
          (p.after (n + 1)).offset = (m.steps j).machine.offset ∧
          (p.after (n + 1)).depth = (m.steps j).machine.depth) ∧
      Monotone (fun n => (p.after n).offset) ∧
      (∀ m' : Machine, m'.step.tokens.length ≤ 4) ∧
      (∀ n, (p.after n).queue.length ≤ 3) ∧
      answer Pull.next m.run.tokens.length p = m.run.error?.map .error ∧
      (∀ n, m.run.tokens.length < n →
        answer Pull.next n p = none ∧ p.after n = ⟨m.run.machine, [], none⟩) := by
  intro m p
  refine ⟨?_, ?_, Machine.length_step_le, Pull.length_queue_le m, ?_, ?_⟩
  · intro n t ht
    have hn : n < m.run.tokens.length := (List.getElem?_eq_some_iff.1 ht).1
    obtain ⟨j, hj, hafter⟩ := Pull.after_served (m := m) (n := n + 1) hn
    have hgiven : t ∈ (m.steps j).tokens := by
      rw [Machine.run_eq_steps m j] at ht
      exact List.mem_of_getElem? ((List.getElem?_append_left hj.1).symm.trans ht)
    have hp : p.after (n + 1) = Pull.served m j (n + 1) := hafter
    refine ⟨?_, ?_, j, hj, congrArg Pull.offset hp, congrArg Pull.depth hp⟩
    · rw [answer_of_holds (fun _ _ h => Pull.next_of_holds h) (Pull.holds_start c source), Run.items,
        List.getElem?_append_left (by simpa using hn), List.getElem?_map]
      exact congrArg (Option.map Item.token) ht
    · rw [hp]
      exact (Machine.aligned_start c source).stop_le_steps hgiven
  · refine monotone_nat_of_le_succ fun n => ?_
    rw [Pull.after_succ]
    exact Pull.offset_le_next _
  · rw [Pull.answer_eq]
    exact congrArg Prod.fst (Pull.after_length m)
  · intro n hn
    have hafter : p.after n = ⟨m.run.machine, [], none⟩ := Pull.after_exhausted hn
    rw [Pull.answer_eq, hafter, Pull.next_of_done (Machine.state_run m)]
    exact ⟨rfl, rfl⟩

/-- An attribute is one step, so three tokens are queued behind its name. -/
theorem pull_minimal_attribute :
    let m := Machine.start .standard "[a=b]{}".toList
    let p := Pull.start .standard "[a=b]{}".toList
    let name := Token.make .attrName ['a'] 1 1
    m.run.tokens[1]? = some name ∧ answer Pull.next 1 p = some (.token name) ∧
      (p.after 2).queue.length = 3 ∧ name.stop ≤ (p.after 2).offset ∧
      ∃ j, IsLeast {j | 2 ≤ (m.steps j).tokens.length} j ∧
        (p.after 2).offset = (m.steps j).machine.offset := by
  intro m p name
  have hname : m.run.tokens[1]? = some name := by decide +kernel
  obtain ⟨hanswer, hstop, j, hj, hoffset, -⟩ := (pull_minimal _ _).1 1 name hname
  exact ⟨hname, hanswer, by decide +kernel, hstop, j, hj, hoffset⟩

end StyleLex

import StyleLex.BatchRun

/-!
# Runs pulled token by token

A consumer asks for one item at a time. The machine steps only when nothing is queued, and a step
queues all of its tokens.
-/
namespace StyleLex

structure Pull where
  machine : Machine
  queue : List Token
  /-- The error behind the queued tokens, until it has been handed out. -/
  error? : Option LexError
  deriving DecidableEq

namespace Pull

def start (config : Config) (source : Text) : Pull := ⟨.start config source, [], none⟩

def ofRun (r : Run) : Pull := ⟨r.machine, r.tokens, r.error?⟩

def next (p : Pull) : Option Item × Pull :=
  match p.queue, p.error? with
  | t :: ts, _ => (some (.token t), { p with queue := ts })
  | [], some e => (some (.error e), { p with error? := none })
  | [], none =>
    if h : p.machine.state = .done then (none, p) else
      have := Machine.budget_step_lt h
      (ofRun p.machine.step).next
termination_by p.machine.budget

def offset (p : Pull) : Nat := p.machine.offset

def depth (p : Pull) : Nat := p.machine.depth

/-- What is still to come. -/
def remaining (p : Pull) : Run := Run.followedBy ⟨p.queue, p.error?, p.machine⟩ p.machine.run

/-- Takes all items that are still to come. -/
def drain (p : Pull) : List Item × Pull := (p.remaining.items, ⟨p.remaining.machine, [], none⟩)

/-- The first `n` answers, each with the pull after it. -/
def trace : Nat → Pull → List (Option Item × Pull)
  | 0, _ => []
  | n + 1, p => p.next :: trace n p.next.2

end Pull

end StyleLex

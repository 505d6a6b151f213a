import StyleLex.BatchRun

/-!
# Runs handed over by a producer

The producer offers one item at a time and goes on only when it is taken. Closing the stream refuses
the item on offer, which leaves the producer in the middle of a script, behind the lexeme of that
item.
-/
namespace StyleLex

structure Producer where
  machine : Machine
  /-- What is left of the script of the current step. -/
  script : Script
  deriving DecidableEq

inductive Offer where
  | item (i : Item) (next : Producer)
  | over (machine : Machine)

namespace Offer

def machine : Offer → Machine
  | .item _ p => p.machine
  | .over m => m

end Offer

namespace Machine

theorem budget_lt_of_settled {m m' : Machine} (h : m.state ≠ .done)
    (hp : proceed m.script m = .settled m') : m'.budget < m.budget := by
  have := budget_step_lt h
  rwa [step, perform_of_settled hp] at this

/-- The first item that a machine offers from the beginning of a step. -/
def offer (m : Machine) : Offer :=
  if h : m.state = .done then .over m else
    match hp : proceed m.script m with
    | .token t s m' => .item (.token t) ⟨m', s⟩
    | .error e m' => .item (.error e) ⟨m', .goto .done⟩
    | .settled m' =>
      have := budget_lt_of_settled h hp
      m'.offer
termination_by m.budget

end Machine

namespace Producer

def start (config : Config) (source : Text) : Producer :=
  ⟨.start config source, .goto .statement⟩

def offer (p : Producer) : Offer :=
  match Machine.proceed p.script p.machine with
  | .token t s m => .item (.token t) ⟨m, s⟩
  | .error e m => .item (.error e) ⟨m, .goto .done⟩
  | .settled m => m.offer

/-- All that the producer still has to offer. -/
def remaining (p : Producer) : Run :=
  let current := Machine.perform p.script p.machine
  current.followedBy current.machine.run

end Producer

structure Stream where
  producer : Producer
  closed : Bool
  deriving DecidableEq

namespace Stream

def start (config : Config) (source : Text) : Stream := ⟨.start config source, false⟩

/-- A stream whose producer has stopped. -/
def stopped (m : Machine) : Stream := ⟨⟨m, .goto m.state⟩, true⟩

/-- The next item. A stream is closed when its end is met, though not by an error. -/
def next (s : Stream) : Option Item × Stream :=
  if s.closed then (none, s) else
    match s.producer.offer with
    | .item i p => (some i, ⟨p, false⟩)
    | .over m => (none, stopped m)

/-- Refuses the item on offer. Closing again changes nothing. -/
def close (s : Stream) : Stream := if s.closed then s else stopped s.producer.offer.machine

/-- How far the producer scanned, once it has stopped. Before that a producer on a thread of its own may
have come to one place or another. -/
def settledOffset? (s : Stream) : Option Nat :=
  if s.closed then some s.producer.machine.offset else none

/-- Takes all items that are still to come, and meets the end. -/
def drain (s : Stream) : List Item × Stream :=
  if s.closed then ([], s) else (s.producer.remaining.items, stopped s.producer.remaining.machine)

end Stream

end StyleLex

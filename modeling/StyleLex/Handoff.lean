import StyleLex.Session

/-!
# Two threads and a channel without capacity

The producer runs on a thread of its own and waits with each item until the consumer receives it. When
the consumer closes the stream, a producer that waits with an item is refused and stops. Either thread
may be ahead of the other, so a step of the whole is a step of one of them, or both meet.
-/
namespace StyleLex

/-- The calls of a consumer. -/
inductive Request where
  | next | rest | close | isClosed | offset
  deriving DecidableEq

namespace Request

def query : Request → Query
  | .next => .next | .rest => .rest | .close => .close | .isClosed => .isClosed | .offset => .offset

end Request

structure Answer where
  request : Request
  reply : Reply

/-- What the producer's thread is doing. -/
inductive Producing where
  /-- In the middle of a step, with a script left. -/
  | working (machine : Machine) (script : Script)
  /-- Waiting with an item, which has been read already. -/
  | offering (item : Item) (machine : Machine) (script : Script)
  | finished (machine : Machine)

namespace Producing

/-- Goes on to the next item, to the end of the step, or to the end of the run. The second part is the
scan offset, which a step publishes when it ends. -/
def work (m : Machine) (s : Script) (published : Nat) : Producing × Nat :=
  match Machine.proceed s m with
  | .token t s' m' => (.offering (.token t) m' s', published)
  | .error e m' => (.offering (.error e) m' (.goto .done), m'.offset)
  | .settled m' => (if m'.state = .done then .finished m' else .working m' m'.script, m'.offset)

/-- Behind a token the step goes on, and behind an error there is nothing. -/
def received (i : Item) (m : Machine) (s : Script) : Producing :=
  match i with
  | .token _ => .working m s
  | .error _ => .finished m

/-- The step that a refused token stops publishes its offset too. That of an error has ended before. -/
def refused (i : Item) (m : Machine) (published : Nat) : Producing × Nat :=
  match i with
  | .token _ => (.finished m, m.offset)
  | .error _ => (.finished m, published)

end Producing

/-- What the consumer's thread is doing. -/
inductive Calling where
  | nothing
  | receiving
  /-- Receiving all the items, of which some have come. -/
  | collecting (items : List Item)
  /-- Waiting for the producer to stop, with the answer to a request. -/
  | joining (request : Request) (reply : Reply)

structure Handoff where
  producer : Producing
  /-- The scan offset that was published last. -/
  offset : Nat
  consumer : Calling
  closed : Bool
  /-- The calls still to come. -/
  requests : List Request
  answers : List Answer

namespace Handoff

def start (config : Config) (source : Text) (requests : List Request) : Handoff :=
  let m := Machine.start config source
  ⟨.working m m.script, 0, .nothing, false, requests, []⟩

def answer (r : Request) (reply : Reply) (h : Handoff) : Handoff :=
  { h with consumer := .nothing, answers := h.answers ++ [⟨r, reply⟩] }

/-- Nothing is received from a stream that is closed. -/
def ask (r : Request) (h : Handoff) : Handoff :=
  match r with
  | .next => if h.closed then h.answer r .nothing else { h with consumer := .receiving }
  | .rest => if h.closed then h.answer r (.items []) else { h with consumer := .collecting [] }
  | .close => { h with closed := true, consumer := .joining r (.verdict true) }
  | .isClosed => h.answer r (.verdict h.closed)
  | .offset => h.answer r (.number h.offset)

/-- The steps of the two threads. -/
inductive Step : Handoff → Handoff → Prop where
  | work {h : Handoff} {m : Machine} {s : Script} (working : h.producer = .working m s) :
      Step h { h with producer := (Producing.work m s h.offset).1
                      offset := (Producing.work m s h.offset).2 }
  | receive {h : Handoff} {i : Item} {m : Machine} {s : Script}
      (offering : h.producer = .offering i m s) (receiving : h.consumer = .receiving) :
      Step h { h.answer .next (.item i) with producer := Producing.received i m s }
  | collect {h : Handoff} {i : Item} {is : List Item} {m : Machine} {s : Script}
      (offering : h.producer = .offering i m s) (collecting : h.consumer = .collecting is) :
      Step h { h with consumer := .collecting (is ++ [i]), producer := Producing.received i m s }
  | refuse {h : Handoff} {i : Item} {m : Machine} {s : Script}
      (offering : h.producer = .offering i m s) (closed : h.closed = true) :
      Step h { h with producer := (Producing.refused i m h.offset).1
                      offset := (Producing.refused i m h.offset).2 }
  | ask {h : Handoff} {r : Request} {rs : List Request} (ready : h.consumer = .nothing)
      (requests : h.requests = r :: rs) : Step h (({ h with requests := rs } : Handoff).ask r)
  | receiveEnd {h : Handoff} {m : Machine} (finished : h.producer = .finished m)
      (receiving : h.consumer = .receiving) :
      Step h { h with closed := true, consumer := .joining .next .nothing }
  | collectEnd {h : Handoff} {is : List Item} {m : Machine} (finished : h.producer = .finished m)
      (collecting : h.consumer = .collecting is) :
      Step h { h with closed := true, consumer := .joining .rest (.items is) }
  | join {h : Handoff} {r : Request} {reply : Reply} {m : Machine}
      (finished : h.producer = .finished m) (joining : h.consumer = .joining r reply) :
      Step h (h.answer r reply)

/-- The threads get from one state to the other in some order of their steps. -/
inductive Reaches : Handoff → Handoff → Prop where
  | refl (h : Handoff) : Reaches h h
  | step {h h' h'' : Handoff} (before : Reaches h h') (step : Step h' h'') : Reaches h h''

end Handoff

namespace Stream

/-- The answers of a stream to calls, and the stream then. -/
def answers : List Request → Stream → List Answer × Stream
  | [], s => ([], s)
  | r :: rs, s =>
    match s.ask r.query with
    | (reply, .stream s') => (⟨r, reply⟩ :: (answers rs s').1, (answers rs s').2)
    | (reply, _) => ([⟨r, reply⟩], s)

end Stream

end StyleLex

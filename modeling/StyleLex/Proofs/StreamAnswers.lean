import StyleLex.Handoff
import StyleLex.Proofs.StopOffsets

/-!
# The answers of a stream

The answers to the calls of a consumer follow from the run that the producer performs and from the
answers before them, whether the producer runs on demand or on a thread of its own. Only the offset of
a stream that is still open depends on how far ahead the producer is.
-/
namespace StyleLex

namespace Answer

/-- The items received with an answer. -/
def items : Answer → List Item
  | ⟨.next, .item i⟩ => [i]
  | ⟨.rest, .items is⟩ => is
  | _ => []

/-- Whether a stream is closed behind an answer because of the call, or because it met the end. -/
def closes : Answer → Bool
  | ⟨.close, _⟩ | ⟨.rest, _⟩ | ⟨.next, .nothing⟩ => true
  | _ => false

def received (as : List Answer) : List Item := as.flatMap items

def tokensReceived (as : List Answer) : Nat := ((received as).filterMap Item.token?).length

/-- The answer to a call behind `earlier` ones, from a stream over `run`. -/
def Correct (run : Run) (earlier : List Answer) : Answer → Prop
  | ⟨.next, reply⟩ => reply =
      if earlier.any closes then .nothing else .ofItem? run.items[(received earlier).length]?
  | ⟨.rest, reply⟩ => reply =
      if earlier.any closes then .items [] else .items (run.items.drop (received earlier).length)
  | ⟨.close, reply⟩ => reply = .verdict true
  | ⟨.isClosed, reply⟩ => reply = .verdict (earlier.any closes)
  | ⟨.offset, reply⟩ => earlier.any closes = true →
      reply = .number (run.stopOffset (tokensReceived earlier))

/-- Each answer is correct behind those before it. -/
inductive Answered (run : Run) : List Answer → Prop where
  | nothing : Answered run []
  | snoc {as : List Answer} {a : Answer} (before : Answered run as) (correct : a.Correct run as) :
      Answered run (as ++ [a])

variable {run : Run} {as earlier later : List Answer} {a : Answer}

@[simp] theorem received_append (as bs : List Answer) :
    received (as ++ bs) = received as ++ received bs := by simp [received]

@[simp] theorem received_singleton (a : Answer) : received [a] = a.items := by simp [received]

theorem Correct.items_of_closed (h : a.Correct run as) (hclosed : as.any closes = true) :
    a.items = [] := by
  obtain ⟨r, reply⟩ := a
  cases r with
  | next =>
    rw [Correct, if_pos hclosed] at h
    rw [h, items]
    all_goals nofun
  | rest =>
    rw [Correct, if_pos hclosed] at h
    rw [h, items]
  | close => rfl
  | isClosed => rfl
  | offset => rfl

theorem Correct.items_of_open (h : a.Correct run as) (hopen : as.any closes = false) :
    a.items <+: run.items.drop (received as).length := by
  obtain ⟨r, reply⟩ := a
  cases r with
  | next =>
    rw [Correct, hopen, if_neg nofun] at h
    cases hi : run.items[(received as).length]? with
    | none =>
      rw [h, hi, Reply.ofItem?, items]
      · exact List.nil_prefix
      all_goals nofun
    | some i =>
      rw [h, hi, Reply.ofItem?, items, List.cons_prefix_iff]
      refine ⟨run.items.drop ((received as).length + 1), ?_, List.nil_prefix⟩
      rw [List.drop_eq_getElem_cons (List.getElem?_eq_some_iff.1 hi).1, (List.getElem?_eq_some_iff.1 hi).2]
  | rest =>
    rw [Correct, hopen, if_neg nofun] at h
    have hitems : items ⟨.rest, reply⟩ = run.items.drop (received as).length := by rw [h, items]
    exact ⟨[], (List.append_nil _).trans hitems⟩
  | close => exact List.nil_prefix
  | isClosed => exact List.nil_prefix
  | offset => exact List.nil_prefix

/-- What is received are the first items of the run. -/
theorem Answered.received (h : Answered run as) : received as <+: run.items := by
  induction h with
  | nothing => exact List.nil_prefix
  | @snoc as a before correct ih =>
    rw [received_append, received_singleton]
    cases hany : as.any closes with
    | true =>
      rw [correct.items_of_closed hany, List.append_nil]
      exact ih
    | false =>
      obtain ⟨rest, hrest⟩ := ih
      have hitems := correct.items_of_open hany
      rw [← hrest, List.drop_left] at hitems
      rw [← hrest]
      exact (List.prefix_append_right_inj _).2 hitems

/-- Nothing is received behind an answer that closes the stream. -/
theorem Answered.received_of_closed (h : Answered run as) (split : as = earlier ++ later)
    (hclosed : earlier.any closes = true) : Answer.received later = [] := by
  induction h generalizing later with
  | nothing => rw [(List.append_eq_nil_iff.1 split.symm).2, Answer.received, List.flatMap_nil]
  | @snoc as a before correct ih =>
    rcases List.eq_nil_or_concat later with rfl | ⟨later, b, rfl⟩
    · rfl
    · rw [List.concat_eq_append, ← List.append_assoc] at split
      obtain ⟨rfl, hb⟩ := List.append_inj' split rfl
      cases hb
      have hany : (earlier ++ later).any closes = true := by
        rw [List.any_append, hclosed, Bool.true_or]
      rw [List.concat_eq_append, received_append, received_singleton, ih rfl,
        correct.items_of_closed hany, List.append_nil]

end Answer

namespace Stream

open Answer

variable {run : Run} {as : List Answer} {s : Stream}

/-- The stream stands behind its answers in `run`, with its producer stopped if it is closed. -/
structure Keeps (run : Run) (as : List Answer) (s : Stream) : Prop where
  answered : Answered run as
  closed : s.closed = as.any closes
  producer : ∃ r, run.Leaves (received as) r ∧
    if s.closed then s.producer.machine.offset = r.stopOffset 0
    else s.producer.remaining = r ∧ s.producer.machine.Aligned

theorem keeps_start (c : Config) (source : Text) :
    (start c source).Keeps (Machine.start c source).run [] where
  answered := .nothing
  closed := rfl
  producer := ⟨_, Run.leaves_all _, rfl, Machine.aligned_start c source⟩

theorem keeps_stopped {m : Machine} {a : Answer} {r r' : Run} (h : s.Keeps run as)
    (correct : a.Correct run as) (hcloses : a.closes = true) (hleaves : run.Leaves (received as) r)
    (hitems : r.Leaves a.items r') (hoffset : m.offset = r'.stopOffset 0) :
    (stopped m).Keeps run (as ++ [a]) where
  answered := h.answered.snoc correct
  closed := by simp [stopped, hcloses]
  producer := by
    refine ⟨r', ?_, hoffset⟩
    rw [received_append, received_singleton]
    exact hleaves.append hitems

/-- An answer with which nothing is received and nothing is closed. -/
theorem Keeps.same {a : Answer} (h : s.Keeps run as) (correct : a.Correct run as)
    (hitems : a.items = []) (hcloses : as.any closes = false → a.closes = false) :
    s.Keeps run (as ++ [a]) where
  answered := h.answered.snoc correct
  closed := by
    rw [h.closed, List.any_append]
    cases hany : as.any closes with
    | true => rfl
    | false => simp [hcloses hany]
  producer := by
    rw [received_append, received_singleton, hitems, List.append_nil]
    exact h.producer

theorem Keeps.ask_next (h : s.Keeps run as) :
    s.next.2.Keeps run (as ++ [⟨.next, .ofItem? s.next.1⟩]) := by
  obtain ⟨r, hleaves, hproducer⟩ := h.producer
  cases hclosed : s.closed with
  | true =>
    have hany : as.any closes = true := by rw [← h.closed, hclosed]
    have hnext : s.next = (none, s) := by rw [next, if_pos hclosed]
    rw [hnext]
    exact h.same (by rw [Correct, if_pos hany, Reply.ofItem?]) rfl (by simp [hany])
  | false =>
    have hany : as.any closes = false := by rw [← h.closed, hclosed]
    rw [hclosed, if_neg Bool.false_ne_true] at hproducer
    obtain ⟨rfl, haligned⟩ := hproducer
    have hheads := Producer.heads_offer haligned
    rw [next, hclosed, if_neg Bool.false_ne_true]
    cases ho : s.producer.offer with
    | item i p =>
      rw [ho] at hheads
      obtain ⟨-, hitem, haligned'⟩ := hheads
      have hfirst : run.items[(received as).length]? = some i := by
        rw [hleaves.getElem?, hitem.items]
        rfl
      refine ⟨h.answered.snoc ?_, ?_, ⟨_, ?_, rfl, haligned'⟩⟩
      · rw [Correct, hany, if_neg Bool.false_ne_true, hfirst]
      · simp [hany, closes, Reply.ofItem?]
      · rw [received_append, received_singleton]
        exact hleaves.append hitem
    | «over» m =>
      rw [ho] at hheads
      obtain ⟨hoffset, hitems⟩ := hheads
      have hfirst : run.items[(received as).length]? = none := by
        rw [hleaves.getElem?, hitems]
        rfl
      refine keeps_stopped h ?_ rfl hleaves (Run.leaves_all _) hoffset
      rw [Correct, hany, if_neg Bool.false_ne_true, hfirst]

theorem Keeps.ask_rest (h : s.Keeps run as) :
    s.drain.2.Keeps run (as ++ [⟨.rest, .items s.drain.1⟩]) := by
  obtain ⟨r, hleaves, hproducer⟩ := h.producer
  cases hclosed : s.closed with
  | true =>
    have hany : as.any closes = true := by rw [← h.closed, hclosed]
    have hdrain : s.drain = ([], s) := by rw [drain, if_pos hclosed]
    rw [hdrain]
    exact h.same (by rw [Correct, if_pos hany]) rfl (by simp [hany])
  | false =>
    have hany : as.any closes = false := by rw [← h.closed, hclosed]
    rw [hclosed, if_neg nofun] at hproducer
    obtain ⟨rfl, -⟩ := hproducer
    rw [drain, hclosed, if_neg nofun]
    have hall : s.producer.remaining.Leaves s.producer.remaining.items
        ⟨[], none, s.producer.remaining.machine⟩ := ⟨(List.append_nil _).symm, rfl⟩
    refine keeps_stopped h ?_ rfl hleaves hall rfl
    rw [Correct, hany, if_neg nofun, hleaves.drop]

theorem Keeps.ask_close (h : s.Keeps run as) :
    s.close.Keeps run (as ++ [⟨.close, .verdict true⟩]) := by
  obtain ⟨r, hleaves, hproducer⟩ := h.producer
  cases hclosed : s.closed with
  | true =>
    have hany : as.any closes = true := by rw [← h.closed, hclosed]
    rw [close, if_pos hclosed]
    exact h.same rfl rfl (by simp [hany])
  | false =>
    rw [hclosed, if_neg nofun] at hproducer
    obtain ⟨rfl, haligned⟩ := hproducer
    rw [close, hclosed, if_neg nofun]
    exact keeps_stopped h rfl rfl hleaves (Run.leaves_all _) (Producer.heads_offer haligned).1

theorem Keeps.ask_offset (h : s.Keeps run as) :
    s.Keeps run (as ++ [⟨.offset, .ofNumber? s.settledOffset?⟩]) := by
  obtain ⟨r, hleaves, hproducer⟩ := h.producer
  refine h.same ?_ rfl fun _ => rfl
  intro hany
  have hclosed : s.closed = true := by rw [h.closed, hany]
  rw [hclosed, if_pos rfl] at hproducer
  rw [settledOffset?, if_pos hclosed, Reply.ofNumber?, hproducer, tokensReceived, hleaves.stopOffset]

theorem Keeps.ask (h : s.Keeps run as) (r : Request) :
    ∃ reply s', s.ask r.query = (reply, .stream s') ∧ s'.Keeps run (as ++ [⟨r, reply⟩]) := by
  cases r with
  | next => exact ⟨_, _, rfl, h.ask_next⟩
  | rest => exact ⟨_, _, rfl, h.ask_rest⟩
  | close => exact ⟨_, _, rfl, h.ask_close⟩
  | isClosed => exact ⟨_, _, rfl, h.same (by rw [Correct, h.closed]) rfl fun _ => rfl⟩
  | offset => exact ⟨_, _, rfl, h.ask_offset⟩

theorem Keeps.answers (h : s.Keeps run as) (rs : List Request) :
    (answers rs s).2.Keeps run (as ++ (answers rs s).1) ∧
      (answers rs s).1.map Answer.request = rs := by
  induction rs generalizing s as with
  | nil =>
    rw [Stream.answers, List.append_nil]
    exact ⟨h, rfl⟩
  | cons r rs ih =>
    obtain ⟨reply, s', hask, hs'⟩ := h.ask r
    obtain ⟨htail, hrequests⟩ := ih hs'
    rw [Stream.answers, hask]
    constructor
    · rw [List.append_assoc] at htail
      exact htail
    · rw [List.map_cons, hrequests]

end Stream

end StyleLex

import StyleLex.Proofs.StreamAnswers

/-!
# Answers under every schedule

In whatever order the two threads take their steps, the producer stands in the run behind the items
that were received, and the published offset is that of the place where it stopped.
-/
namespace StyleLex

open Answer

namespace Producing

variable {m : Machine} {s : Script} {i : Item} {r : Run} {p : Nat} {closed : Bool}

/-- The run `r` is still to come. A producer that has finished has nothing left, or was refused. -/
def Holds (published : Nat) (closed : Bool) (r : Run) : Producing → Prop
  | .working m s => (Producer.mk m s).remaining = r ∧ m.Aligned
  | .offering (.token t) m s =>
    (Producer.mk m s).remaining.handOver t = r ∧ m.Aligned ∧ m.offset = t.stop
  | .offering (.error e) m _ => r = ⟨[], some e, m⟩ ∧ published = m.offset
  | .finished _ => published = r.stopOffset 0 ∧ (closed = false → r.items = [])

theorem Holds.work (h : (working m s).Holds p closed r) :
    (Producing.work m s p).1.Holds (Producing.work m s p).2 closed r := by
  obtain ⟨rfl, haligned⟩ := h
  have halign := haligned.proceed s
  rw [Producing.work]
  cases hp : Machine.proceed s m with
  | token t s' m' =>
    rw [hp] at halign
    exact ⟨(Producer.remaining_of_token hp).symm, halign⟩
  | error e m' => exact ⟨Producer.remaining_of_error hp, rfl⟩
  | settled m' =>
    rw [hp] at halign
    rw [Producer.remaining_of_settled hp]
    dsimp only
    split
    case isTrue hdone =>
      rw [Machine.run_of_done hdone]
      exact ⟨rfl, fun _ => rfl⟩
    case isFalse hdone => exact ⟨(Machine.run_of_not_done hdone).symm, halign⟩

theorem Holds.leaves (h : (offering i m s).Holds p closed r) :
    ∃ r', r.Leaves [i] r' ∧ (received i m s).Holds p closed r' := by
  cases i with
  | token t =>
    obtain ⟨rfl, haligned, -⟩ := h
    exact ⟨_, Run.leaves_handOver t _, rfl, haligned⟩
  | error e =>
    obtain ⟨rfl, hpublished⟩ := h
    exact ⟨⟨[], none, m⟩, ⟨rfl, rfl⟩, hpublished, fun _ => rfl⟩

theorem Holds.refused (h : (offering i m s).Holds p true r) :
    (Producing.refused i m p).1.Holds (Producing.refused i m p).2 true r := by
  cases i with
  | token t =>
    obtain ⟨rfl, -, hstop⟩ := h
    exact ⟨hstop, nofun⟩
  | error e =>
    obtain ⟨rfl, hpublished⟩ := h
    exact ⟨hpublished, nofun⟩

theorem Holds.close {producer : Producing} (h : producer.Holds p closed r) :
    producer.Holds p true r := by
  cases producer with
  | working m s => exact h
  | offering i m s => cases i <;> exact h
  | finished m => exact ⟨h.1, nofun⟩

end Producing

namespace Calling

/-- The items received in the current call. -/
def items : Calling → List Item
  | .nothing | .receiving => []
  | .collecting is => is
  | .joining r reply => (Answer.mk r reply).items

/-- The request of the current call. -/
def request? : Calling → Option Request
  | .nothing => none
  | .receiving => some .next
  | .collecting _ => some .rest
  | .joining r _ => some r

/-- Between two calls a closed stream has a producer that has finished, and in the middle of a call that
receives the stream is open. -/
def Fits (run : Run) (as : List Answer) (producer : Producing) (closed : Bool) : Calling → Prop
  | .nothing => closed = as.any closes ∧ (closed = true → ∃ m, producer = .finished m)
  | .receiving | .collecting _ => closed = false ∧ as.any closes = false
  | .joining r reply => closed = true ∧ (Answer.mk r reply).closes = true ∧
      (Answer.mk r reply).Correct run as

end Calling

namespace Handoff

/-- What holds of the two threads under every schedule. -/
structure Keeps (run : Run) (requests : List Request) (h : Handoff) : Prop where
  answered : Answered run h.answers
  producer : ∃ r, run.Leaves (received h.answers ++ h.consumer.items) r ∧
    h.producer.Holds h.offset h.closed r
  consumer : h.consumer.Fits run h.answers h.producer h.closed
  requests : h.answers.map Answer.request ++ (h.consumer.request?.toList ++ h.requests) = requests

variable {run : Run} {requests : List Request} {h h' : Handoff}

theorem keeps_start (c : Config) (source : Text) (requests : List Request) :
    (start c source requests).Keeps (Machine.start c source).run requests where
  answered := .nothing
  producer := by
    have hrun := Machine.run_of_not_done (m := Machine.start c source) nofun
    exact ⟨_, Run.leaves_all _, hrun.symm, Machine.aligned_start c source⟩
  consumer := ⟨rfl, nofun⟩
  requests := rfl

theorem Keeps.work {m : Machine} {s : Script} (hk : h.Keeps run requests)
    (working : h.producer = .working m s) :
    Keeps run requests { h with producer := (Producing.work m s h.offset).1
                                offset := (Producing.work m s h.offset).2 } where
  answered := hk.answered
  producer := by
    obtain ⟨r, hleaves, hholds⟩ := hk.producer
    rw [working] at hholds
    exact ⟨r, hleaves, hholds.work⟩
  consumer := by
    have hfits := hk.consumer
    cases hc : h.consumer with
    | nothing =>
      rw [hc, working] at hfits
      refine ⟨hfits.1, fun hclosed => ?_⟩
      obtain ⟨m', hm'⟩ := hfits.2 hclosed
      cases hm'
    | receiving => rwa [hc] at hfits
    | collecting is => rwa [hc] at hfits
    | joining r reply => rwa [hc] at hfits
  requests := hk.requests

theorem Keeps.refuse {i : Item} {m : Machine} {s : Script} (hk : h.Keeps run requests)
    (offering : h.producer = .offering i m s) (closed : h.closed = true) :
    Keeps run requests { h with producer := (Producing.refused i m h.offset).1
                                offset := (Producing.refused i m h.offset).2 } where
  answered := hk.answered
  producer := by
    obtain ⟨r, hleaves, hholds⟩ := hk.producer
    rw [offering, closed] at hholds
    refine ⟨r, hleaves, ?_⟩
    rw [closed]
    exact hholds.refused
  consumer := by
    have hfits := hk.consumer
    cases hc : h.consumer with
    | nothing =>
      rw [hc, offering] at hfits
      obtain ⟨m', hm'⟩ := hfits.2 closed
      cases hm'
    | receiving => rwa [hc] at hfits
    | collecting is => rwa [hc] at hfits
    | joining r reply => rwa [hc] at hfits
  requests := hk.requests

theorem Keeps.receive {i : Item} {m : Machine} {s : Script} (hk : h.Keeps run requests)
    (offering : h.producer = .offering i m s) (receiving : h.consumer = .receiving) :
    Keeps run requests { h.answer .next (.item i) with producer := Producing.received i m s } := by
  obtain ⟨r, hleaves, hholds⟩ := hk.producer
  obtain ⟨hclosed, hany⟩ : h.closed = false ∧ h.answers.any closes = false := by
    have hfits := hk.consumer
    rwa [receiving] at hfits
  rw [receiving, Calling.items, List.append_nil] at hleaves
  rw [offering] at hholds
  obtain ⟨r', hitem, hholds'⟩ := hholds.leaves
  have hfirst : run.items[(received h.answers).length]? = some i := by
    rw [hleaves.getElem?, hitem.items]
    rfl
  have hrequests := hk.requests
  rw [receiving] at hrequests
  constructor
  case answered => exact hk.answered.snoc (by rw [Correct, hany, if_neg Bool.false_ne_true, hfirst, Reply.ofItem?])
  case producer =>
    refine ⟨r', ?_, hholds'⟩
    have hall := hleaves.append hitem
    simpa [answer, Calling.items, Answer.items] using hall
  case consumer => exact ⟨by simp [answer, hclosed, hany, closes], by simp [answer, hclosed]⟩
  case requests => simpa [answer, Calling.request?] using hrequests

theorem Keeps.collect {i : Item} {is : List Item} {m : Machine} {s : Script}
    (hk : h.Keeps run requests) (offering : h.producer = .offering i m s)
    (collecting : h.consumer = .collecting is) :
    Keeps run requests
      { h with consumer := .collecting (is ++ [i]), producer := Producing.received i m s } := by
  obtain ⟨r, hleaves, hholds⟩ := hk.producer
  have hfits := hk.consumer
  have hrequests := hk.requests
  rw [collecting] at hleaves hfits hrequests
  rw [offering] at hholds
  obtain ⟨r', hitem, hholds'⟩ := hholds.leaves
  constructor
  case answered => exact hk.answered
  case producer =>
    refine ⟨r', ?_, hholds'⟩
    have hall := hleaves.append hitem
    rwa [List.append_assoc] at hall
  case consumer => exact hfits
  case requests => exact hrequests

/-- A producer that has finished while the stream was open has handed over everything. -/
theorem Keeps.items_nil {m : Machine} (hk : h.Keeps run requests)
    (finished : h.producer = .finished m) (hclosed : h.closed = false) :
    ∃ r, run.Leaves (received h.answers ++ h.consumer.items) r ∧ r.items = [] ∧
      h.producer.Holds h.offset true r := by
  obtain ⟨r, hleaves, hholds⟩ := hk.producer
  have hclose := hholds.close
  rw [finished] at hholds
  exact ⟨r, hleaves, hholds.2 hclosed, hclose⟩

theorem Keeps.receiveEnd {m : Machine} (hk : h.Keeps run requests)
    (finished : h.producer = .finished m) (receiving : h.consumer = .receiving) :
    Keeps run requests { h with closed := true, consumer := .joining .next .nothing } := by
  have hfits := hk.consumer
  have hrequests := hk.requests
  rw [receiving] at hfits hrequests
  obtain ⟨r, hleaves, hnil, hholds⟩ := hk.items_nil finished hfits.1
  rw [receiving, Calling.items, List.append_nil] at hleaves
  have hfirst : run.items[(received h.answers).length]? = none := by
    rw [hleaves.getElem?, hnil]
    rfl
  constructor
  case answered => exact hk.answered
  case producer =>
    refine ⟨r, ?_, hholds⟩
    rw [Calling.items, Answer.items, List.append_nil]
    · exact hleaves
    all_goals
      intro _ h
      cases h
  case consumer => exact ⟨rfl, rfl, by rw [Correct, hfits.2, if_neg Bool.false_ne_true, hfirst, Reply.ofItem?]⟩
  case requests => exact hrequests

theorem Keeps.collectEnd {is : List Item} {m : Machine} (hk : h.Keeps run requests)
    (finished : h.producer = .finished m) (collecting : h.consumer = .collecting is) :
    Keeps run requests { h with closed := true, consumer := .joining .rest (.items is) } := by
  have hfits := hk.consumer
  have hrequests := hk.requests
  rw [collecting] at hfits hrequests
  obtain ⟨r, hleaves, hnil, hholds⟩ := hk.items_nil finished hfits.1
  rw [collecting, Calling.items] at hleaves
  have hdrop : run.items.drop (received h.answers).length = is := by
    rw [hleaves.items, hnil, List.append_nil, List.drop_left]
  constructor
  case answered => exact hk.answered
  case producer => exact ⟨r, hleaves, hholds⟩
  case consumer => exact ⟨rfl, rfl, by rw [Correct, hfits.2, if_neg Bool.false_ne_true, hdrop]⟩
  case requests => exact hrequests

theorem Keeps.join {r : Request} {reply : Reply} {m : Machine} (hk : h.Keeps run requests)
    (finished : h.producer = .finished m) (joining : h.consumer = .joining r reply) :
    (h.answer r reply).Keeps run requests := by
  obtain ⟨r', hleaves, hholds⟩ := hk.producer
  have hfits := hk.consumer
  have hrequests := hk.requests
  rw [joining] at hleaves hfits hrequests
  obtain ⟨hclosed, hcloses, hcorrect⟩ := hfits
  constructor
  case answered => exact hk.answered.snoc hcorrect
  case producer =>
    refine ⟨r', ?_, hholds⟩
    simpa [answer, Calling.items] using hleaves
  case consumer => exact ⟨by simp [answer, hclosed, hcloses], fun _ => ⟨m, finished⟩⟩
  case requests => simpa [answer, Calling.request?] using hrequests

/-- An answer at once, with which nothing is received and nothing is closed. -/
theorem Keeps.reply {r : Request} {rs : List Request} {reply : Reply} (hk : h.Keeps run requests)
    (ready : h.consumer = .nothing) (hr : h.requests = r :: rs)
    (correct : Correct run h.answers ⟨r, reply⟩) (hitems : Answer.items ⟨r, reply⟩ = [])
    (hcloses : h.answers.any closes = false → closes ⟨r, reply⟩ = false) :
    (({ h with requests := rs } : Handoff).answer r reply).Keeps run requests := by
  obtain ⟨r', hleaves, hholds⟩ := hk.producer
  have hfits := hk.consumer
  have hrequests := hk.requests
  rw [ready] at hleaves hfits hrequests
  constructor
  case answered => exact hk.answered.snoc correct
  case producer =>
    refine ⟨r', ?_, hholds⟩
    simpa [answer, Calling.items, hitems] using hleaves
  case consumer =>
    refine ⟨?_, hfits.2⟩
    cases hany : h.answers.any closes with
    | true => simp [answer, hfits.1, hany]
    | false => simp [answer, hfits.1, hany, hcloses hany]
  case requests => simpa [answer, Calling.request?, hr] using hrequests

theorem Keeps.ask {r : Request} {rs : List Request} (hk : h.Keeps run requests)
    (ready : h.consumer = .nothing) (hr : h.requests = r :: rs) :
    (({ h with requests := rs } : Handoff).ask r).Keeps run requests := by
  obtain ⟨r', hleaves, hholds⟩ := hk.producer
  obtain ⟨hclosed, hfinished⟩ : h.closed = h.answers.any closes ∧
      (h.closed = true → ∃ m, h.producer = .finished m) := by
    have hfits := hk.consumer
    rwa [ready] at hfits
  have hrequests := hk.requests
  rw [ready, hr] at hrequests
  rw [ready] at hleaves
  cases r with
  | next =>
    rw [Handoff.ask]
    dsimp only
    split
    case isTrue h' =>
      rw [hclosed] at h'
      exact hk.reply ready hr (by rw [Correct, if_pos h']) rfl (by simp [h'])
    case isFalse h' =>
      rw [Bool.not_eq_true] at h'
      exact ⟨hk.answered, ⟨r', hleaves, hholds⟩, ⟨h', hclosed ▸ h'⟩, hrequests⟩
  | rest =>
    rw [Handoff.ask]
    dsimp only
    split
    case isTrue h' =>
      rw [hclosed] at h'
      exact hk.reply ready hr (by rw [Correct, if_pos h']) rfl (by simp [h'])
    case isFalse h' =>
      rw [Bool.not_eq_true] at h'
      exact ⟨hk.answered, ⟨r', hleaves, hholds⟩, ⟨h', hclosed ▸ h'⟩, hrequests⟩
  | close => exact ⟨hk.answered, ⟨r', hleaves, hholds.close⟩, ⟨rfl, rfl, rfl⟩, hrequests⟩
  | isClosed => exact hk.reply ready hr (by rw [Correct, hclosed]) rfl fun _ => rfl
  | offset =>
    refine hk.reply ready hr ?_ rfl fun _ => rfl
    intro hany
    obtain ⟨m, hm⟩ := hfinished (hclosed.trans hany)
    rw [hm] at hholds
    rw [Calling.items, List.append_nil] at hleaves
    rw [hholds.1, tokensReceived, hleaves.stopOffset]

theorem Keeps.step (hk : h.Keeps run requests) (hs : Step h h') : h'.Keeps run requests := by
  cases hs with
  | work working => exact hk.work working
  | receive offering receiving => exact hk.receive offering receiving
  | collect offering collecting => exact hk.collect offering collecting
  | refuse offering closed => exact hk.refuse offering closed
  | ask ready hr => exact hk.ask ready hr
  | receiveEnd finished receiving => exact hk.receiveEnd finished receiving
  | collectEnd finished collecting => exact hk.collectEnd finished collecting
  | join finished joining => exact hk.join finished joining

theorem Keeps.reaches (hk : h.Keeps run requests) (hr : Reaches h h') : h'.Keeps run requests := by
  induction hr with
  | refl => exact hk
  | step before hs ih => exact ih.step hs

/-- To an offset a number is answered, at once. -/
structure TellsOffset (h : Handoff) : Prop where
  answers : ∀ a ∈ h.answers, a.request = .offset → ∃ n, a.reply = .number n
  joining : ∀ r reply, h.consumer = .joining r reply → r ≠ .offset

theorem tellsOffset_start (c : Config) (source : Text) (requests : List Request) :
    (start c source requests).TellsOffset where
  answers := fun _ hmem => absurd hmem List.not_mem_nil
  joining := by
    intro _ _ hjoining
    cases hjoining

theorem TellsOffset.answer {r : Request} {reply : Reply} (ht : h.TellsOffset)
    (hr : r = .offset → ∃ n, reply = .number n) : (h.answer r reply).TellsOffset where
  answers := by
    intro a hmem hoffset
    rcases List.mem_append.1 hmem with hmem | hmem
    · exact ht.answers a hmem hoffset
    · obtain rfl := List.mem_singleton.1 hmem
      exact hr hoffset
  joining := by
    intro _ _ hjoining
    cases hjoining

theorem TellsOffset.ask {r : Request} {rs : List Request} (ht : h.TellsOffset) :
    (({ h with requests := rs } : Handoff).ask r).TellsOffset := by
  have hrest : ({ h with requests := rs } : Handoff).TellsOffset := ⟨ht.answers, ht.joining⟩
  cases r with
  | next =>
    rw [Handoff.ask]
    split
    · exact hrest.answer nofun
    · refine ⟨ht.answers, fun _ _ hjoining => ?_⟩
      cases hjoining
  | rest =>
    rw [Handoff.ask]
    split
    · exact hrest.answer nofun
    · refine ⟨ht.answers, fun _ _ hjoining => ?_⟩
      cases hjoining
  | close =>
    refine ⟨ht.answers, ?_⟩
    rintro _ _ ⟨⟩
    exact nofun
  | isClosed => exact hrest.answer nofun
  | offset => exact hrest.answer fun _ => ⟨h.offset, rfl⟩

theorem TellsOffset.step (ht : h.TellsOffset) (hs : Step h h') : h'.TellsOffset := by
  cases hs with
  | work => exact ⟨ht.answers, ht.joining⟩
  | refuse => exact ⟨ht.answers, ht.joining⟩
  | @receive i =>
    have hanswer : (h.answer .next (.item i)).TellsOffset := ht.answer nofun
    exact ⟨hanswer.answers, hanswer.joining⟩
  | collect =>
    refine ⟨ht.answers, fun _ _ hjoining => ?_⟩
    cases hjoining
  | ask => exact ht.ask
  | receiveEnd =>
    refine ⟨ht.answers, ?_⟩
    rintro _ _ ⟨⟩
    exact nofun
  | collectEnd =>
    refine ⟨ht.answers, ?_⟩
    rintro _ _ ⟨⟩
    exact nofun
  | join finished joining => exact ht.answer fun hr => absurd hr (ht.joining _ _ joining)

end Handoff

end StyleLex

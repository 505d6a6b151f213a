import Mathlib.Order.WellFounded
import StyleLex.Proofs.HandoffAnswers

/-!
# Cancelled streams

A stream hands over the items of the run in order until it is closed, and tells then where the run was
stopped. No schedule of its two threads gets stuck, and none goes on for ever.
-/
namespace StyleLex

open Answer

namespace Script

/-- How many tokens a script hands over. -/
def handovers : Script → Nat
  | .skip _ s | .enter _ s | .leave s | .note _ s => s.handovers
  | .emit _ _ s => s.handovers + 1
  | .goto _ | .resume | .fail _ _ => 0

end Script

namespace Machine

variable {m m' : Machine} {s s' : Script} {t : Token}

/-- What is left of a script behind a token hands over one token less, and leaves the same budget. -/
theorem left_of_token (h : proceed s m = .token t s' m') :
    s'.left m'.cursor.rest.length m'.depth = s.left m.cursor.rest.length m.depth ∧
      s.handovers = s'.handovers + 1 := by
  induction s generalizing m with
  | skip u s ih =>
    have htail := ih h
    rwa [rest_skip, List.length_drop, depth_skip] at htail
  | emit k u s ih =>
    cases h
    rw [rest_take, List.length_drop, depth_take]
    exact ⟨rfl, rfl⟩
  | enter mode s ih =>
    have htail := ih h
    rwa [depth_enter] at htail
  | leave s ih =>
    have htail := ih h
    rwa [depth_leave] at htail
  | note c s ih => exact ih (m := m.note c) h
  | goto st => cases h
  | resume => cases h
  | fail u f => cases h

theorem budget_of_settled (h : proceed s m = .settled m') :
    m'.budget ≤ s.left m.cursor.rest.length m.depth := by
  have hle := budget_perform_le s m
  rwa [perform_of_settled h] at hle

end Machine

/-- The order in which pairs are compared by what weighs more first. -/
abbrev Lower : Nat × Nat → Nat × Nat → Prop := Prod.Lex (· < ·) (· < ·)

namespace Producing

variable {m : Machine} {s : Script}

/-- What a producer has still to do: the budget behind its script, and the tokens of the script. -/
def rank : Producing → Nat × Nat
  | .working m s => (s.left m.cursor.rest.length m.depth, 2 * s.handovers + 2)
  | .offering (.token _) m s => (s.left m.cursor.rest.length m.depth, 2 * s.handovers + 3)
  | .offering (.error _) _ _ => (0, 1)
  | .finished _ => (0, 0)

theorem one_lt_rank (m : Machine) (s : Script) : 1 < (working m s).rank.2 := by
  rw [rank]
  omega

theorem lower_of_snd {p q : Nat × Nat} (hfst : p.1 = 0) (hsnd : p.2 < q.2) : Lower p q := by
  rw [Lower, Prod.lex_def, hfst]
  omega

theorem rank_work (m : Machine) (s : Script) (published : Nat) :
    Lower (Producing.work m s published).1.rank (working m s).rank := by
  have hone := one_lt_rank m s
  rw [Producing.work]
  cases hp : Machine.proceed s m with
  | token t s' m' =>
    obtain ⟨hleft, hhandovers⟩ := Machine.left_of_token hp
    rw [rank, rank, hleft]
    exact .right _ (by omega)
  | error e m' => exact lower_of_snd rfl hone
  | settled m' =>
    dsimp only
    split
    case isTrue hdone => exact lower_of_snd rfl (Nat.lt_of_succ_lt hone)
    case isFalse hdone =>
      have hbudget := Machine.budget_of_settled hp
      have hleft := Script.left_ofState_lt hdone m'.view m'.depth
      exact .left _ _ (Nat.lt_of_lt_of_le hleft hbudget)

theorem rank_received (i : Item) (m : Machine) (s : Script) :
    Lower (received i m s).rank (offering i m s).rank := by
  cases i with
  | token t => exact .right _ (Nat.lt_succ_self _)
  | error e => exact .right _ Nat.zero_lt_one

theorem rank_refused (i : Item) (m : Machine) (s : Script) (published : Nat) :
    Lower (refused i m published).1.rank (offering i m s).rank := by
  cases i with
  | token t => exact lower_of_snd rfl (Nat.succ_pos _)
  | error e => exact .right _ Nat.zero_lt_one

end Producing

namespace Calling

/-- A call receives first and is then joined. -/
def rank : Calling → Nat
  | .nothing => 0
  | .joining _ _ => 1
  | .receiving | .collecting _ => 2

end Calling

namespace Handoff

variable {run : Run} {requests : List Request} {h h' : Handoff}

def rank (h : Handoff) : (Nat × Nat) × (Nat × Nat) :=
  (h.producer.rank, h.requests.length, h.consumer.rank)

theorem rank_ask {r : Request} {rs : List Request} (hr : h.requests = r :: rs) :
    Prod.Lex Lower Lower (({ h with requests := rs } : Handoff).ask r).rank h.rank := by
  have hask : (({ h with requests := rs } : Handoff).ask r).producer = h.producer ∧
      (({ h with requests := rs } : Handoff).ask r).requests = rs := by
    cases r with
    | next => rw [ask]; dsimp only; split <;> exact ⟨rfl, rfl⟩
    | rest => rw [ask]; dsimp only; split <;> exact ⟨rfl, rfl⟩
    | close => exact ⟨rfl, rfl⟩
    | isClosed => exact ⟨rfl, rfl⟩
    | offset => exact ⟨rfl, rfl⟩
  rw [rank, rank, hask.1, hask.2, hr]
  exact .right _ (.left _ _ (Nat.lt_succ_self _))

theorem Step.rank (hs : Step h h') : Prod.Lex Lower Lower h'.rank h.rank := by
  cases hs with
  | @work m s working =>
    have hwork := Producing.rank_work m s h.offset
    rw [← working] at hwork
    exact .left _ _ hwork
  | @receive i m s offering receiving =>
    have hreceived := Producing.rank_received i m s
    rw [← offering] at hreceived
    exact .left _ _ hreceived
  | @collect i is m s offering collecting =>
    have hreceived := Producing.rank_received i m s
    rw [← offering] at hreceived
    exact .left _ _ hreceived
  | @refuse i m s offering closed =>
    have hrefused := Producing.rank_refused i m s h.offset
    rw [← offering] at hrefused
    exact .left _ _ hrefused
  | ask ready hr => exact rank_ask hr
  | receiveEnd finished receiving =>
    refine .right _ (.right _ ?_)
    rw [receiving]
    exact Nat.lt_succ_self 1
  | collectEnd finished collecting =>
    refine .right _ (.right _ ?_)
    rw [collecting]
    exact Nat.lt_succ_self 1
  | join finished joining =>
    refine .right _ (.right _ ?_)
    rw [joining]
    exact Nat.zero_lt_one

theorem wellFounded_rank : WellFounded (Prod.Lex Lower Lower) := by
  have hlower : WellFounded Lower := Nat.lt_wfRel.wf.prod_lex Nat.lt_wfRel.wf
  exact hlower.prod_lex hlower

/-- The two threads cannot take steps for ever. -/
theorem wellFounded_step : WellFounded fun h' h : Handoff => Step h h' :=
  Subrelation.wf Step.rank (InvImage.wf rank wellFounded_rank)

/-- As long as calls are to be answered, one of the threads can take a step. -/
theorem Keeps.progress (hk : h.Keeps run requests) :
    (h.consumer = .nothing ∧ h.requests = []) ∨ ∃ h', Step h h' := by
  have hfits := hk.consumer
  cases hp : h.producer with
  | working m s => exact .inr ⟨_, .work hp⟩
  | offering i m s =>
    cases hc : h.consumer with
    | nothing =>
      cases hr : h.requests with
      | nil => exact .inl ⟨rfl, rfl⟩
      | cons r rs => exact .inr ⟨_, .ask hc hr⟩
    | receiving => exact .inr ⟨_, .receive hp hc⟩
    | collecting is => exact .inr ⟨_, .collect hp hc⟩
    | joining r reply =>
      rw [hc] at hfits
      exact .inr ⟨_, .refuse hp hfits.1⟩
  | finished m =>
    cases hc : h.consumer with
    | nothing =>
      cases hr : h.requests with
      | nil => exact .inl ⟨rfl, rfl⟩
      | cons r rs => exact .inr ⟨_, .ask hc hr⟩
    | receiving => exact .inr ⟨_, .receiveEnd hp hc⟩
    | collecting is => exact .inr ⟨_, .collectEnd hp hc⟩
    | joining r reply => exact .inr ⟨_, .join hp hc⟩

end Handoff

/-- The answers of a stream over `source` up to a moment at which it is closed or not: what was received
is what a pull hands out first, nothing is received once the stream is closed, and each answer is
correct behind those before it. -/
structure Exact (c : Config) (source : Text) (as : List Answer) (closed : Bool) : Prop where
  pulled : ∀ n i, (received as)[n]? = some i → answer Pull.next n (.start c source) = some i
  closed : closed = as.any closes
  silent : ∀ earlier later, as = earlier ++ later → earlier.any closes = true → received later = []
  answered : Answered (Machine.start c source).run as

theorem Answer.Answered.exact {c : Config} {source : Text} {as : List Answer} {closed : Bool}
    (h : Answered (Machine.start c source).run as) (hclosed : closed = as.any closes) :
    Exact c source as closed where
  pulled := by
    intro n i hi
    rw [answer_of_holds (fun _ _ hs => Pull.next_of_holds hs) (Pull.holds_start c source)]
    obtain ⟨rest, hrest⟩ := h.received
    rw [← hrest, List.getElem?_append_left (List.getElem?_eq_some_iff.1 hi).1]
    exact hi
  closed := hclosed
  silent := fun _ _ split hany => h.received_of_closed split hany
  answered := h

/-- A stream answers exactly, and every schedule of the two threads behind it answers the calls one by
one and exactly. None of the schedules gets stuck or goes on for ever. -/
theorem cancellation_exact (c : Config) (source : Text) (requests : List Request) :
    let stream := Stream.answers requests (.start c source)
    let run := (Machine.start c source).run
    Exact c source stream.1 stream.2.closed ∧ stream.1.map Answer.request = requests ∧
      (run.error? = none → run.machine.offset = source.byteSize) ∧
      (∀ h : Handoff, Handoff.Reaches (.start c source requests) h →
        (h.consumer = .nothing →
          Exact c source h.answers h.closed ∧ h.answers.map Answer.request ++ h.requests = requests) ∧
        ((h.consumer = .nothing ∧ h.requests = []) ∨ ∃ h', Handoff.Step h h')) ∧
      WellFounded fun h' h : Handoff => Handoff.Step h h' := by
  intro stream run
  obtain ⟨hkeeps, hrequests⟩ := (Stream.keeps_start c source).answers requests
  refine ⟨hkeeps.answered.exact hkeeps.closed, hrequests, ?_, ?_, Handoff.wellFounded_step⟩
  · exact Machine.offset_run (Machine.coherent_start c source) (Machine.stands_start c source) nofun
  · intro h hreaches
    have hk := (Handoff.keeps_start c source requests).reaches hreaches
    refine ⟨fun ready => ?_, hk.progress⟩
    have hfits := hk.consumer
    have hasked := hk.requests
    rw [ready] at hfits hasked
    exact ⟨hk.answered.exact hfits.1, hasked⟩

/-- The number is received and its unit is refused, in the middle of one step. -/
theorem cancellation_exact_unit : ∃ h : Handoff,
    Handoff.Reaches (.start .standard "1px".toList [.next, .close, .offset]) h ∧
      h.answers = [⟨.next, .item (.token (.make .integer ['1'] 0 1))⟩, ⟨.close, .verdict true⟩,
        ⟨.offset, .number 3⟩] ∧
      Exact .standard "1px".toList h.answers h.closed := by
  have hreaches := Handoff.Reaches.refl (.start .standard "1px".toList [.next, .close, .offset])
  replace hreaches := hreaches.step (.work rfl)
  replace hreaches := hreaches.step (.ask rfl rfl)
  replace hreaches := hreaches.step (.receive rfl rfl)
  replace hreaches := hreaches.step (.work rfl)
  replace hreaches := hreaches.step (.ask rfl rfl)
  replace hreaches := hreaches.step (.refuse rfl rfl)
  replace hreaches := hreaches.step (.join rfl rfl)
  replace hreaches := hreaches.step (.ask rfl rfl)
  exact ⟨_, hreaches, rfl, ((cancellation_exact _ _ _).2.2.2.1 _ hreaches).1 rfl |>.1⟩

end StyleLex

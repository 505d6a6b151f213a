import StyleLex.PullRun
import StyleLex.StreamRun
import StyleLex.Proofs.RunSteps

/-!
# All consumers receive the same items

A consumer holds a list of items if it hands out the head and then holds the tail. A pull and a
stream over one text hold the items of one run.
-/
namespace StyleLex

/-- The answer of a consumer to a request, after `n` earlier ones. -/
def answer {σ : Type} (next : σ → Option Item × σ) : Nat → σ → Option Item
  | 0, s => (next s).1
  | n + 1, s => answer next n (next s).2

/-- A consumer that hands out items in order answers with each once, and then with nothing. -/
theorem answer_of_holds {σ : Type} {next : σ → Option Item × σ} {Holds : σ → List Item → Prop}
    (step : ∀ s is, Holds s is → (next s).1 = is.head? ∧ Holds (next s).2 is.tail) {s : σ}
    {is : List Item} (h : Holds s is) (n : Nat) : answer next n s = is[n]? := by
  induction n generalizing s is with
  | zero =>
    rw [← List.head?_eq_getElem?]
    exact (step s is h).1
  | succ n ih =>
    rw [← List.getElem?_tail]
    exact ih (step s is h).2

namespace Pull

/-- The items to come are `is`, and an error among them has stopped the machine. -/
structure Holds (p : Pull) (is : List Item) : Prop where
  items : p.remaining.items = is
  stopped : p.error? ≠ none → p.machine.state = .done

theorem remaining_ofRun {m : Machine} (h : m.state ≠ .done) : (ofRun m.step).remaining = m.run :=
  (Machine.run_of_not_done h).symm

theorem items_of_done {m : Machine} (h : m.state = .done) (e? : Option LexError) :
    (remaining ⟨m, [], e?⟩).items = e?.toList.map .error := by
  simp [remaining, Machine.run_of_done h, Run.followedBy, Run.items]

theorem next_of_holds {p : Pull} {is : List Item} (h : p.Holds is) :
    p.next.1 = is.head? ∧ p.next.2.Holds is.tail := by
  induction hb : p.machine.budget using Nat.strongRecOn generalizing p with
  | _ n ih =>
    subst hb
    obtain ⟨m, queue, error?⟩ := p
    obtain ⟨rfl, stopped⟩ := h
    cases queue with
    | cons t ts =>
      rw [next]
      exact ⟨rfl, rfl, stopped⟩
    | nil =>
      cases error? with
      | some e =>
        have hdone : m.state = .done := stopped nofun
        rw [next, items_of_done hdone]
        exact ⟨rfl, items_of_done hdone none, nofun⟩
      | none =>
        by_cases hdone : m.state = .done
        · rw [next, dif_pos hdone, items_of_done hdone]
          exact ⟨rfl, items_of_done hdone none, nofun⟩
        · have hnext : (ofRun m.step).Holds m.run.items :=
            ⟨by rw [remaining_ofRun hdone], Machine.state_step_of_error⟩
          rw [next, dif_neg hdone]
          exact ih _ (Machine.budget_step_lt hdone) hnext rfl

theorem holds_start (c : Config) (source : Text) :
    (start c source).Holds (Machine.start c source).run.items :=
  ⟨rfl, nofun⟩

end Pull

namespace Offer

/-- The offer is the first of the items, and its producer goes on with the others. -/
def Begins : Offer → List Item → Prop
  | .item i p, is => is = i :: p.remaining.items
  | .over _, is => is = []

end Offer

namespace Producer

variable {m m' : Machine} {s s' : Script}

theorem remaining_of_token {t : Token} (h : Machine.proceed s m = .token t s' m') :
    (Producer.mk m s).remaining = (Producer.mk m' s').remaining.handOver t := by
  rw [remaining, ← Machine.run_proceed, h]
  rfl

theorem remaining_of_settled (h : Machine.proceed s m = .settled m') :
    (Producer.mk m s).remaining = m'.run := by
  rw [remaining, Machine.perform_of_settled h]
  rfl

theorem items_of_done (m : Machine) : (Producer.mk m (.goto .done)).remaining.items = [] := by
  have hrun := Machine.run_of_done (m := m.goto .done) rfl
  simp [remaining, Machine.perform, hrun, Run.followedBy, Run.items]

/-- An error stops the machine, so nothing comes behind it. -/
theorem remaining_of_error {e : LexError} (h : Machine.proceed s m = .error e m') :
    (Producer.mk m s).remaining = ⟨[], some e, m'⟩ := by
  have hperform : Machine.perform s m = ⟨[], some e, m'⟩ := by
    rw [← Machine.run_proceed, h, Machine.Progress.run]
  have hdone : m'.state = .done := by
    have herror : (Machine.perform s m).error? ≠ none := by
      rw [hperform]
      exact Option.some_ne_none e
    have hstate := Machine.state_of_error herror
    rwa [hperform] at hstate
  simp [remaining, hperform, Machine.run_of_done hdone, Run.followedBy]

theorem items_of_error {e : LexError} (h : Machine.proceed s m = .error e m') :
    (Producer.mk m s).remaining.items = [.error e] := by
  rw [remaining_of_error h]
  rfl

theorem begins_offer_machine (m : Machine) : m.offer.Begins m.run.items := by
  induction hb : m.budget using Nat.strongRecOn generalizing m with
  | _ n ih =>
    subst hb
    rw [Machine.offer]
    split
    case isTrue hdone =>
      rw [Machine.run_of_done hdone]
      rfl
    case isFalse hdone =>
      have hrun : m.run = (Producer.mk m m.script).remaining := Machine.run_of_not_done hdone
      rw [hrun]
      split
      case h_1 t s m' hp =>
        rw [remaining_of_token hp]
        rfl
      case h_2 e m' hp =>
        rw [items_of_error hp, Offer.Begins, items_of_done]
      case h_3 m' hp =>
        rw [remaining_of_settled hp]
        exact ih _ (Machine.budget_lt_of_settled hdone hp) _ rfl

theorem begins_offer (p : Producer) : p.offer.Begins p.remaining.items := by
  obtain ⟨m, s⟩ := p
  rw [offer]
  split
  case h_1 t s' m' hp =>
    rw [remaining_of_token hp]
    rfl
  case h_2 e m' hp =>
    rw [items_of_error hp, Offer.Begins, items_of_done]
  case h_3 m' hp =>
    rw [remaining_of_settled hp]
    exact begins_offer_machine m'

end Producer

namespace Stream

/-- The items to come are `is`, and none come from a stream that is closed. -/
def Holds (s : Stream) (is : List Item) : Prop :=
  if s.closed then is = [] else s.producer.remaining.items = is

theorem next_of_holds {s : Stream} {is : List Item} (h : s.Holds is) :
    s.next.1 = is.head? ∧ s.next.2.Holds is.tail := by
  obtain ⟨p, closed⟩ := s
  cases closed with
  | true =>
    obtain rfl : is = [] := h
    exact ⟨rfl, rfl⟩
  | false =>
    obtain rfl : p.remaining.items = is := h
    have hoffer := p.begins_offer
    rw [next, if_neg nofun]
    dsimp only
    split
    case h_1 i p' hp =>
      rw [hp] at hoffer
      have hitems : p.remaining.items = i :: p'.remaining.items := hoffer
      rw [hitems]
      exact ⟨rfl, rfl⟩
    case h_2 m hp =>
      rw [hp] at hoffer
      have hitems : p.remaining.items = [] := hoffer
      rw [hitems]
      exact ⟨rfl, rfl⟩

theorem holds_start (c : Config) (source : Text) :
    (start c source).Holds (Machine.start c source).run.items := rfl

end Stream

/-- One list of tokens and one outcome are what every way of running gives: the whole run at once, a
pull asked any number of times, a stream asked any number of times, and either of them drained. -/
theorem consumers_agree (c : Config) (source : Text) : ∃ (ts : List Token) (e? : Option LexError),
    tokenize c source = e?.elim (.ok ts) .error ∧
      (∀ n, answer Pull.next n (.start c source) =
        (ts.map Item.token ++ e?.toList.map Item.error)[n]?) ∧
      (∀ n, answer Stream.next n (.start c source) =
        (ts.map Item.token ++ e?.toList.map Item.error)[n]?) ∧
      (Pull.start c source).drain.1 = ts.map Item.token ++ e?.toList.map Item.error ∧
      (Stream.start c source).drain.1 = ts.map Item.token ++ e?.toList.map Item.error := by
  refine ⟨_, _, tokenize_eq c source, ?_, ?_, rfl, rfl⟩
  · exact answer_of_holds (fun _ _ h => Pull.next_of_holds h) (Pull.holds_start c source)
  · exact answer_of_holds (fun _ _ h => Stream.next_of_holds h) (Stream.holds_start c source)

end StyleLex

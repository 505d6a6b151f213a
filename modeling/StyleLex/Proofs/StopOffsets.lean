import StyleLex.Proofs.ConsumerAgreement
import StyleLex.Proofs.TokenPlaces

/-!
# Where a run can be stopped

A machine that hands over a token stands at the end of it, so a producer with an item on offer stands
at the end of that item. What is still to come of a run tells where it would stop.
-/
namespace StyleLex

namespace Item

def token? : Item → Option Token
  | .token t => some t
  | .error _ => none

end Item

namespace Run

variable {run r : Run} {received : List Item}

theorem tokens_items (r : Run) : r.items.filterMap Item.token? = r.tokens := by
  obtain ⟨ts, e?, m⟩ := r
  cases e? <;> simp [items, List.filterMap_map, Function.comp_def, Item.token?]

/-- How far the text has been scanned if the run is stopped behind its first `k` tokens: to the end of
the next one, or as far as the run gets. -/
def stopOffset (r : Run) (k : Nat) : Nat := (r.tokens[k]?.map (·.stop)).getD r.machine.offset

/-- Behind the items received of `run` there is `r` still to come. -/
structure Leaves (run : Run) (received : List Item) (r : Run) : Prop where
  items : run.items = received ++ r.items
  offset : r.machine.offset = run.machine.offset

theorem leaves_all (run : Run) : run.Leaves [] run := ⟨rfl, rfl⟩

theorem Leaves.getElem? (h : run.Leaves received r) : run.items[received.length]? = r.items.head? := by
  rw [h.items, List.getElem?_append_right (Nat.le_refl _), Nat.sub_self, List.head?_eq_getElem?]

theorem Leaves.drop (h : run.Leaves received r) : run.items.drop received.length = r.items := by
  rw [h.items, List.drop_left]

theorem Leaves.stopOffset (h : run.Leaves received r) :
    run.stopOffset (received.filterMap Item.token?).length = r.stopOffset 0 := by
  have htokens : run.tokens = received.filterMap Item.token? ++ r.tokens := by
    rw [← tokens_items run, h.items, List.filterMap_append, tokens_items r]
  rw [Run.stopOffset, htokens, List.getElem?_append_right (Nat.le_refl _), Nat.sub_self, ← h.offset]
  rfl

theorem Leaves.append {is : List Item} {r' : Run} (h : run.Leaves received r)
    (hr : r.Leaves is r') : run.Leaves (received ++ is) r' where
  items := by rw [h.items, hr.items, List.append_assoc]
  offset := hr.offset.trans h.offset

theorem leaves_handOver (t : Token) (r : Run) : (r.handOver t).Leaves [.token t] r := ⟨rfl, rfl⟩

end Run

namespace Machine

variable {m m' : Machine}

/-- The two ends of the pending lexeme are as far apart as it is long. -/
def Aligned (m : Machine) : Prop := m.cursor.pos = m.cursor.start + m.cursor.pending.byteSize

theorem aligned_start (c : Config) (source : Text) : (start c source).Aligned := rfl

theorem aligned_skip (t : Text) (m : Machine) : (m.skip t).Aligned := rfl

theorem aligned_take (t : Text) (m : Machine) : (m.take t).2.Aligned := rfl

theorem Aligned.stop (h : m.Aligned) (t : Text) : (m.stop t).Aligned := by
  have hends : m.cursor.pos + t.byteSize = m.cursor.start + Text.byteSize (t.reverse ++ m.cursor.pending) := by
    rw [h, Text.byteSize_append, Text.byteSize_reverse]
    omega
  exact hends

theorem Aligned.perform (h : m.Aligned) (s : Script) : (perform s m).machine.Aligned := by
  induction s generalizing m with
  | skip t s ih => exact ih (aligned_skip t m)
  | emit k t s ih => exact ih (aligned_take t m)
  | enter mode s ih => exact ih (m := m.enter mode) h
  | leave s ih => exact ih (m := m.leave) h
  | note c s ih => exact ih (m := m.note c) h
  | goto st => exact h
  | resume => exact h
  | fail t f => exact h.stop t

theorem Aligned.stop_take (h : m.Aligned) (t : Text) : (m.take t).1.stop = (m.take t).2.offset := by
  have hstop : (m.take t).1.stop =
      m.cursor.start + Text.byteSize (t.reverse ++ m.cursor.pending).reverse := rfl
  rw [hstop, Text.byteSize_reverse]
  exact (h.stop t).symm

namespace Progress

/-- The token that is handed over next ends where the machine stands then. -/
def Aligned : Progress → Prop
  | .token t _ m => m.Aligned ∧ m.offset = t.stop
  | .error _ m | .settled m => m.Aligned

end Progress

theorem Aligned.proceed (h : m.Aligned) (s : Script) : (proceed s m).Aligned := by
  induction s generalizing m with
  | skip t s ih => exact ih (aligned_skip t m)
  | emit k t s ih => exact ⟨aligned_take t m, (h.stop_take t).symm⟩
  | enter mode s ih => exact ih (m := m.enter mode) h
  | leave s ih => exact ih (m := m.leave) h
  | note c s ih => exact ih (m := m.note c) h
  | goto st => exact h
  | resume => exact h
  | fail t f => exact h.stop t

/-- A run without an error ends behind the whole text. -/
theorem offset_run {source before : Text} (hm : m.Coherent) (h : m.Stands source before)
    (hend : m.state = .done → m.cursor.rest = []) (he : m.run.error? = none) :
    m.run.machine.offset = source.byteSize := by
  induction m using run_induction generalizing before with
  | done m hdone =>
    have hsplit := h.cursor.split
    rw [run_of_done hdone]
    rw [hend hdone, List.append_nil] at hsplit
    rw [hsplit]
    exact h.cursor.pos
  | error m hdone herror =>
    rw [run_of_error herror] at he
    exact absurd he herror
  | step m hdone hstep ih =>
    obtain ⟨hstands, hend'⟩ := stands_perform h (hm.reads hdone) hstep
    rw [run_eq m] at he ⊢
    rw [Run.error?_followedBy, show m.step.error? = none from hstep] at he
    exact ih (hm.step hstep) hstands hend' he

end Machine

namespace Producer

variable {m m' : Machine} {s : Script} {e : LexError}

theorem leaves_of_error (h : Machine.proceed s m = .error e m') :
    (Producer.mk m s).remaining.Leaves [.error e] (Producer.mk m' (.goto .done)).remaining := by
  have hrun := Machine.run_of_done (m := m'.goto .done) rfl
  have hremaining : (Producer.mk m' (.goto .done)).remaining = ⟨[], none, m'.goto .done⟩ := by
    rw [remaining, Machine.perform, hrun, Run.nothing_followedBy]
  rw [remaining_of_error h, hremaining]
  exact ⟨rfl, rfl⟩

theorem stopOffset_of_error (h : Machine.proceed s m = .error e m') :
    m'.offset = (Producer.mk m s).remaining.stopOffset 0 := by
  rw [remaining_of_error h]
  rfl

end Producer

namespace Offer

/-- The offer is the first item of the run still to come, and its producer stands where the run would
be stopped. -/
def Heads (o : Offer) (r : Run) : Prop :=
  o.machine.offset = r.stopOffset 0 ∧ match o with
    | .item i p => r.Leaves [i] p.remaining ∧ p.machine.Aligned
    | .over _ => r.items = []

end Offer

namespace Producer

theorem heads_offer_machine {m : Machine} (h : m.Aligned) : m.offer.Heads m.run := by
  induction hb : m.budget using Nat.strongRecOn generalizing m with
  | _ n ih =>
    subst hb
    rw [Machine.offer]
    split
    case isTrue hdone =>
      rw [Machine.run_of_done hdone]
      exact ⟨rfl, rfl⟩
    case isFalse hdone =>
      have hrun : m.run = (Producer.mk m m.script).remaining := Machine.run_of_not_done hdone
      rw [hrun]
      have halign := h.proceed m.script
      split
      case h_1 t s m' hp =>
        rw [hp] at halign
        rw [remaining_of_token hp]
        exact ⟨halign.2, Run.leaves_handOver t _, halign.1⟩
      case h_2 e m' hp =>
        rw [hp] at halign
        exact ⟨stopOffset_of_error hp, leaves_of_error hp, halign⟩
      case h_3 m' hp =>
        rw [hp] at halign
        rw [remaining_of_settled hp]
        exact ih _ (Machine.budget_lt_of_settled hdone hp) halign rfl

theorem heads_offer {p : Producer} (h : p.machine.Aligned) : p.offer.Heads p.remaining := by
  obtain ⟨m, s⟩ := p
  have halign := h.proceed s
  rw [offer]
  split
  case h_1 t s' m' hp =>
    rw [hp] at halign
    rw [remaining_of_token hp]
    exact ⟨halign.2, Run.leaves_handOver t _, halign.1⟩
  case h_2 e m' hp =>
    rw [hp] at halign
    exact ⟨stopOffset_of_error hp, leaves_of_error hp, halign⟩
  case h_3 m' hp =>
    rw [hp] at halign
    rw [remaining_of_settled hp]
    exact heads_offer_machine halign

end Producer

end StyleLex

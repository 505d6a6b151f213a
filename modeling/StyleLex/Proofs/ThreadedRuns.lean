import Mathlib.Logic.Hydra
import StyleLex.Proofs.StreamCancellation
import StyleLex.ThreadedSession

/-!
# Schedules of a session

Every command of a session with threads can be answered, whatever has happened before it. No schedule
goes on for ever.
-/
namespace StyleLex

variable {run : Run} {requests : List Request} {r : Request} {q : Query} {id : Nat}

namespace Handoff

variable {h h' : Handoff}

theorem Keeps.call (hk : h.Keeps run requests) (r : Request) :
    (h.call r).Keeps run (requests ++ [r]) where
  answered := hk.answered
  producer := hk.producer
  consumer := hk.consumer
  requests := by
    have hrequests := hk.requests
    rw [← hrequests]
    simp [Handoff.call]

theorem Reaches.head {g : Handoff} (hs : Step g h) (hr : Reaches h h') : Reaches g h' := by
  induction hr with
  | refl => exact (Reaches.refl g).step hs
  | step _ hs' ih => exact ih.step hs'

theorem TellsOffset.call (ht : h.TellsOffset) (r : Request) : (h.call r).TellsOffset :=
  ⟨ht.answers, ht.joining⟩

/-- All calls are answered at last. -/
theorem Keeps.exists_idle (hk : h.Keeps run requests) : ∃ h', Reaches h h' ∧ h'.Idle := by
  induction h using wellFounded_step.induction with
  | _ h ih =>
    rcases hk.progress with hidle | ⟨h₁, hs⟩
    · exact ⟨h, .refl h, hidle⟩
    · obtain ⟨h', hreaches, hidle⟩ := ih h₁ hs (hk.step hs)
      exact ⟨h', hreaches.head hs, hidle⟩

end Handoff

namespace Handle

variable {h h' : Handle Handoff} {reply : Reply}

/-- Behind a stream there are two threads that keep to the run of some text. -/
def Live : Handle Handoff → Prop
  | .stream h => (∃ run requests, h.Keeps run requests) ∧ h.TellsOffset
  | .pull _ | .dropped => True

theorem Live.begin (hl : h.Live) (q : Query) : (h.begin q).Live := by
  cases h with
  | pull p => exact trivial
  | dropped => exact trivial
  | stream h =>
    obtain ⟨⟨run, requests, hk⟩, ht⟩ := hl
    cases hq : q.request? with
    | none =>
      rw [Handle.begin, hq]
      exact ⟨⟨run, requests, hk⟩, ht⟩
    | some r =>
      rw [Handle.begin, hq]
      exact ⟨⟨run, _, hk.call r⟩, ht.call r⟩

theorem Live.works (hl : h.Live) (hw : h.Works h') : h'.Live := by
  cases hw with
  | stream hs =>
    obtain ⟨⟨run, requests, hk⟩, ht⟩ := hl
    exact ⟨⟨run, requests, hk.step hs⟩, ht.step hs⟩

theorem Live.answers (hl : h.Live) (ha : h.Answers q reply h') : h'.Live := by
  cases ha with
  | pull told =>
    cases q with
    | _ =>
      obtain ⟨-, rfl⟩ := Prod.mk.inj told
      exact trivial
  | stream idle told =>
    cases q with
    | drop =>
      obtain ⟨-, rfl⟩ := Prod.mk.inj told
      exact trivial
    | _ =>
      obtain ⟨-, rfl⟩ := Prod.mk.inj told
      exact hl
  | dropped => exact trivial

/-- What is left to do for the threads behind a handle. -/
def rank : Handle Handoff → (Nat × Nat) × (Nat × Nat)
  | .stream h => h.rank
  | .pull _ | .dropped => ((0, 0), (0, 0))

end Handle

namespace ThreadedSession

variable {s s' s'' : ThreadedSession} {reply? : Option Reply} {rs rs' : List Reply}
  {h h' : Handle Handoff} {c : Command}

theorem Runs.trans (hr : Runs s rs s') (hr' : Runs s' rs' s'') : Runs s (rs ++ rs') s'' := by
  induction hr with
  | refl => exact hr'
  | step first _ ih =>
    rw [List.append_assoc]
    exact .step first (ih hr')

theorem Step.runs (hs : Step s reply? s') : Runs s reply?.toList s' := by
  have hr := Runs.step hs (.refl s')
  rwa [List.append_nil] at hr

theorem put_of_getElem? (handle : s.handles[id]? = some h) : s.put id h = s := by
  obtain ⟨hlt, rfl⟩ := List.getElem?_eq_some_iff.1 handle
  rw [put, List.set_getElem_self]

@[simp] theorem put_put (s : ThreadedSession) (id : Nat) (h h' : Handle Handoff) :
    (s.put id h).put id h' = s.put id h' := by simp [put]

@[simp] theorem put_await (s : ThreadedSession) (id : Nat) (h h' : Handle Handoff) :
    (s.await id h).put id h' = s.await id h' := by simp [await, put]

@[simp] theorem advance_await (s : ThreadedSession) (id : Nat) (h : Handle Handoff) :
    (s.await id h).advance = (s.put id h).advance := rfl

@[simp] theorem length_put (s : ThreadedSession) (id : Nat) (h : Handle Handoff) :
    (s.put id h).handles.length = s.handles.length := List.length_set

theorem getElem?_put (handle : s.handles[id]? = some h) (h' : Handle Handoff) :
    (s.put id h').handles[id]? = some h' :=
  List.getElem?_set_self (List.getElem?_eq_some_iff.1 handle).1

theorem getElem?_await (handle : s.handles[id]? = some h) (h' : Handle Handoff) :
    (s.await id h').handles[id]? = some h' := getElem?_put handle h'

/-- The handles are live, and only a query of one of them is waited for. -/
structure Live (s : ThreadedSession) : Prop where
  handles : ∀ h ∈ s.handles, h.Live
  calling : s.calling = true → ∃ id q, s.commands.head? = some (.ask id q) ∧ id < s.handles.length

theorem live_start (l : Lexer) (cs : List Command) : (start l cs).Live where
  handles := fun _ hmem => absurd hmem List.not_mem_nil
  calling := fun hcalling => absurd hcalling Bool.false_ne_true

theorem live_handoff (l : Lexer) : (Handle.stream l.handoff).Live :=
  ⟨⟨_, [], Handoff.keeps_start l.config l.source []⟩, Handoff.tellsOffset_start l.config l.source []⟩

theorem live_opened {l : Lexer} (opened : l.opened? c = some h) : h.Live := by
  cases c with
  | tokens =>
    obtain rfl := Option.some.inj opened
    exact trivial
  | spawn =>
    obtain rfl := Option.some.inj opened
    exact live_handoff l
  | spawnCopy =>
    obtain rfl := Option.some.inj opened
    exact live_handoff l.copy
  | tokenize | source | config | ask => simp [Lexer.opened?] at opened

theorem Live.handle (hl : s.Live) (handle : s.handles[id]? = some h) : h.Live :=
  hl.handles h (List.mem_of_getElem? handle)

theorem Live.put (hl : s.Live) (hh : h.Live) (id : Nat) : (s.put id h).Live where
  handles := by
    intro h' hmem
    rcases List.mem_or_eq_of_mem_set hmem with hmem | rfl
    · exact hl.handles h' hmem
    · exact hh
  calling := by
    rw [length_put]
    exact hl.calling

theorem Live.advance (hl : s.Live) : s.advance.Live := ⟨hl.handles, nofun⟩

theorem Live.step (hl : s.Live) (hs : Step s reply? s') : s'.Live := by
  cases hs with
  | «open» ready ahead opened =>
    refine ⟨fun h' hmem => ?_, nofun⟩
    rcases List.mem_append.1 hmem with hmem | hmem
    · exact hl.handles h' hmem
    · obtain rfl := List.mem_singleton.1 hmem
      exact live_opened opened
  | tell => exact hl.advance
  | missing => exact hl.advance
  | @call id q h ready ahead handle =>
    refine ⟨(hl.put ((hl.handle handle).begin q) id).handles, fun _ => ⟨id, q, ahead, ?_⟩⟩
    rw [await, length_put]
    exact (List.getElem?_eq_some_iff.1 handle).1
  | work handle works => exact hl.put ((hl.handle handle).works works) _
  | answer calling ahead handle answers => exact (hl.put ((hl.handle handle).answers answers) _).advance

theorem Live.runs (hl : s.Live) (hr : Runs s rs s') : s'.Live := by
  induction hr with
  | refl => exact hl
  | step first _ ih => exact ih (hl.step first)

/-- The threads behind one stream take their steps while all else stands still. -/
theorem runs_of_reaches {g g' : Handoff} (handle : s.handles[id]? = some (.stream g))
    (hr : Handoff.Reaches g g') : Runs s [] (s.put id (.stream g')) := by
  induction hr with
  | refl =>
    rw [put_of_getElem? handle]
    exact .refl s
  | @step g₁ g₂ _ hs ih =>
    have hwork : Step (s.put id (.stream g₁)) none (s.put id (.stream g₂)) := by
      have hw := Step.work (getElem?_put handle (.stream g₁)) (.stream hs)
      rwa [put_put] at hw
    exact ih.trans hwork.runs

/-- A query that was begun can be answered. -/
theorem exists_answer (hl : h.Live) (handle : s.handles[id]? = some h) (calling : s.calling = true)
    (ahead : s.commands.head? = some (.ask id q)) : ∃ reply h', Runs s [reply] (s.put id h').advance := by
  have hanswer {s : ThreadedSession} {h h' : Handle Handoff} {reply : Reply}
      (handle : s.handles[id]? = some h) (calling : s.calling = true)
      (ahead : s.commands.head? = some (.ask id q)) (answers : h.Answers q reply h') :
      Runs s [reply] (s.put id h').advance := (Step.answer calling ahead handle answers).runs
  cases h with
  | pull p => exact ⟨_, _, hanswer handle calling ahead (.pull rfl)⟩
  | dropped => exact ⟨_, _, hanswer handle calling ahead .dropped⟩
  | stream g =>
    obtain ⟨⟨run, requests, hk⟩, -⟩ := hl
    obtain ⟨g', hreaches, hidle⟩ := hk.exists_idle
    have hruns := runs_of_reaches handle hreaches
    have hlast := hanswer (getElem?_put handle (.stream g')) calling ahead (.stream hidle rfl)
    rw [put_put] at hlast
    exact ⟨_, _, hruns.trans hlast⟩

/-- Whether it was begun or not, a query can be answered by steps on its own handle. -/
theorem Live.exists_answer (hl : s.Live) (handle : s.handles[id]? = some h)
    (ahead : s.commands.head? = some (.ask id q)) : ∃ reply h', Runs s [reply] (s.put id h').advance := by
  have hh := hl.handle handle
  cases hcalling : s.calling with
  | true => exact ThreadedSession.exists_answer hh handle hcalling ahead
  | false =>
    have hcall := (Step.call hcalling ahead handle).runs
    obtain ⟨reply, h', hruns⟩ :=
      ThreadedSession.exists_answer (hh.begin q) (getElem?_await handle _) rfl ahead
    rw [put_await, advance_await] at hruns
    exact ⟨reply, h', hcall.trans hruns⟩

theorem Live.ready (hl : s.Live) (ahead : s.commands.head? = some c)
    (hask : ∀ id q, c = .ask id q → s.handles.length ≤ id) : s.calling = false := by
  rw [← Bool.not_eq_true]
  intro hcalling
  obtain ⟨id, q, hhead, hlt⟩ := hl.calling hcalling
  exact Nat.not_le_of_lt hlt (hask id q (Option.some.inj (ahead.symm.trans hhead)))

/-- The next command can be answered. -/
theorem Live.exists_reply (hl : s.Live) (ahead : s.commands.head? = some c) :
    ∃ reply s', Runs s [reply] s' ∧ s'.commands = s.commands.tail := by
  cases c with
  | tokens | spawn | spawnCopy => exact ⟨_, _, (Step.open (hl.ready ahead nofun) ahead rfl).runs, rfl⟩
  | tokenize | source | config => exact ⟨_, _, (Step.tell (hl.ready ahead nofun) ahead rfl).runs, rfl⟩
  | ask id q =>
    cases handle : s.handles[id]? with
    | none =>
      have hle := List.getElem?_eq_none_iff.1 handle
      have hready := hl.ready ahead (by
        rintro id' q' ⟨⟩
        exact hle)
      exact ⟨_, _, (Step.missing hready ahead handle).runs, rfl⟩
    | some h =>
      obtain ⟨reply, h', hruns⟩ := hl.exists_answer handle ahead
      exact ⟨reply, _, hruns, rfl⟩

/-- All commands can be answered. -/
theorem Live.exists_end (hl : s.Live) : ∃ rs s', Runs s rs s' ∧ s'.commands = [] := by
  induction hcs : s.commands generalizing s with
  | nil => exact ⟨[], s, .refl s, hcs⟩
  | cons c cs ih =>
    obtain ⟨reply, s₁, hruns, hcommands⟩ := hl.exists_reply (by rw [hcs, List.head?_cons])
    obtain ⟨rs, s', hruns', hend⟩ := ih (hl.runs hruns) (by rw [hcommands, hcs, List.tail_cons])
    exact ⟨_, s', hruns.trans hruns', hend⟩

/-- What is left to do: for the caller, and for the threads behind the handles. -/
def rank (s : ThreadedSession) : Nat × Multiset ((Nat × Nat) × (Nat × Nat)) :=
  (2 * s.commands.length - s.calling.toNat, s.handles.map Handle.rank)

/-- The order of the ranks, in which the threads behind one handle are compared at a time. -/
abbrev LowerRank : Nat × Multiset ((Nat × Nat) × (Nat × Nat)) →
    Nat × Multiset ((Nat × Nat) × (Nat × Nat)) → Prop :=
  Prod.Lex (· < ·) (Relation.CutExpand (Prod.Lex Lower Lower))

theorem rank_put (handle : s.handles[id]? = some h) (hlt : Prod.Lex Lower Lower h'.rank h.rank) :
    LowerRank (s.put id h').rank s.rank := by
  obtain ⟨hid, rfl⟩ := List.getElem?_eq_some_iff.1 handle
  refine .right _ ?_
  have hnew := ((List.set_perm_cons_eraseIdx hid h').map Handle.rank)
  have hold := ((List.getElem_cons_eraseIdx_perm hid).map Handle.rank)
  rw [put, Multiset.coe_eq_coe.2 hnew, ← Multiset.coe_eq_coe.2 hold, List.map_cons, List.map_cons,
    ← Multiset.cons_coe, ← Multiset.cons_coe, ← Multiset.singleton_add, ← Multiset.singleton_add]
  exact Relation.cutExpand_single_add hlt _

theorem rank_advance {handles : List (Handle Handoff)} (ahead : s.commands.head? = some c) :
    LowerRank { s.advance with handles }.rank s.rank := by
  obtain ⟨cs, hcs⟩ := List.head?_eq_some_iff.1 ahead
  refine .left _ _ ?_
  have hle := Bool.toNat_le s.calling
  simp only [advance, hcs, List.tail_cons, List.length_cons, Bool.toNat_false]
  omega

theorem Step.rank (hs : Step s reply? s') : LowerRank s'.rank s.rank := by
  cases hs with
  | «open» ready ahead opened => exact rank_advance ahead
  | tell ready ahead told => exact rank_advance ahead
  | missing ready ahead missing => exact rank_advance ahead
  | answer calling ahead handle answers => exact rank_advance ahead
  | call ready ahead handle =>
    obtain ⟨cs, hcs⟩ := List.head?_eq_some_iff.1 ahead
    refine .left _ _ ?_
    rw [await, put, hcs, ready]
    simp
  | work handle works =>
    refine rank_put handle ?_
    cases works with
    | stream hs => exact hs.rank

/-- No schedule of a session goes on for ever. -/
theorem wellFounded_step : WellFounded fun s' s : ThreadedSession => ∃ reply?, Step s reply? s' := by
  have hrank : WellFounded LowerRank := Nat.lt_wfRel.wf.prod_lex Handoff.wellFounded_rank.cutExpand
  exact Subrelation.wf (fun ⟨_, hs⟩ => Step.rank hs) (InvImage.wf ThreadedSession.rank hrank)

end ThreadedSession

end StyleLex

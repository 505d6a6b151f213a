import StyleLex.Proofs.DetachedCompounds
import StyleLex.Proofs.LocalStates
import StyleLex.Proofs.ReachedMachines

/-!
# Machines inside blocks

A machine that reads a value or a selector does the same inside of blocks, and with other text behind
the seam, as long as its script does not hang there.
-/
namespace StyleLex

variable {c : Config} {ms outer : List Mode} {x y w rest : Text} {s s' : Script} {st : State}

/-- The innermost mode, and so how the text goes on, is not changed by blocks around it. -/
theorem resume_append (ms : List Mode) (houter : Blocks outer) :
    State.ofMode (topMode (ms ++ outer)) = State.ofMode (topMode ms) := by
  cases ms with
  | nil => exact houter.resume
  | cons mode ms => rfl

namespace Script

/-- Only a statement sees more than the mode that it belongs to. -/
theorem ofState_append (hst : st ≠ .statement) (hfits : st.Fits c ms) {v : View}
    (htop : v.top = topMode ms) (houter : v.outer = topMode ms.tail) (rest : Text) :
    ofState st ⟨v.config, topMode (ms ++ outer), topMode (ms ++ outer).tail, v.compound, rest⟩ =
      ofState st { v with rest := rest } := by
  obtain ⟨config, top, around, compound, _⟩ := v
  dsimp only at htop houter
  subst htop houter
  cases hfits with
  | statement => exact absurd rfl hst
  | atRule => rfl
  | assignment => rfl
  | property => rfl
  | selector => rfl
  | group => rfl
  | pseudoArguments => rfl
  | value => rfl
  | call => rfl
  | interpolation modes => cases modes <;> rfl
  | selectorInterpolation => rfl
  | done => rfl

/-- In the middle of a statement the text must not end. -/
theorem fails_of_nil (hst : st ≠ .statement) (hdone : st ≠ .done) {v : View} (h : v.rest = []) :
    ∃ t f, ofState st v = .fail t f ∨ ofState st v = .skip [] (.fail t f) := by
  obtain ⟨config, top, around, compound, _⟩ := v
  dsimp only at h
  subst h
  cases st with
  | statement => exact absurd rfl hst
  | done => exact absurd rfl hdone
  | interpolation =>
    obtain ⟨_, body⟩ := config
    cases body with
    | tokens => exact ⟨_, _, .inr rfl⟩
    | skipped => exact ⟨_, _, .inl rfl⟩
  | atRule => exact ⟨_, _, .inl rfl⟩
  | assignment => exact ⟨_, _, .inl rfl⟩
  | property => exact ⟨_, _, .inl rfl⟩
  | selector => exact ⟨_, _, .inl rfl⟩
  | «attribute» => exact ⟨_, _, .inr rfl⟩
  | pseudoArguments => exact ⟨_, _, .inl rfl⟩
  | value => exact ⟨_, _, .inr rfl⟩

end Script

namespace Machine

variable {m m' : Machine} {ps : List Piece}

theorem error_of_rest_nil (hst : m.state ≠ .statement) (hdone : m.state ≠ .done)
    (h : m.cursor.rest = []) : m.step.error? ≠ none := by
  obtain ⟨t, f, hs | hs⟩ := Script.fails_of_nil hst hdone (v := m.view) h
  · rw [step, script, hs]
    exact Option.some_ne_none _
  · rw [step, script, hs]
    exact Option.some_ne_none _

/-- The machine is past the text that stands behind the seam, or stands in front of it in the middle
of a statement. -/
def Stalls (n : Nat) (m : Machine) : Prop :=
  m.cursor.rest.length < n ∨ m.cursor.rest.length = n ∧ m.state ≠ .statement ∧ m.state ≠ .done

theorem stalls_perform {n : Nat} (h : s.Hangs n m.cursor.rest) (he : (perform s m).error? = none) :
    (perform s m).machine.Stalls n := by
  induction s generalizing m with
  | skip t s ih => exact ih (m := m.skip t) h he
  | emit k t s ih => exact ih (m := (m.take t).2) h he
  | enter mode s ih => exact ih (m := m.enter mode) h he
  | leave s ih => exact ih (m := m.leave) h he
  | note g s ih => exact ih (m := m.note g) h he
  | goto st => exact h
  | resume => exact .inl h
  | fail t f => cases he

/-- If all the text that is left is read without an error, then it does not end in the middle of a
statement. -/
theorem not_stalls_of_ok (hok : m.run.error? = none) : ¬m.Stalls 0 := by
  rintro (hlt | ⟨hlength, hst, hdone⟩)
  · exact absurd hlt (Nat.not_lt_zero _)
  · exact error_of_rest_nil hst hdone (List.length_eq_zero_iff.1 hlength) (error?_step_of_run hok).1

theorem Reaches.kept (h : m.Reaches ps m') (hm : m.Coherent) (hkept : m.compound.Kept m.openModes) :
    m'.compound.Kept m'.openModes := by
  induction h with
  | refl => exact hkept
  | step _ ok _ ih => exact ih (hm.step ok) (hm.kept_step hkept ok)

/-- `m'` does what `m` does, inside of `outer`. -/
structure Within (outer : List Mode) (m m' : Machine) : Prop where
  config : m'.config = m.config
  modes : m'.openModes = m.openModes ++ outer
  state : m'.state = m.state
  compound : m'.compound = m.compound

theorem Within.skip (h : Within outer m m') (t : Text) : Within outer (m.skip t) (m'.skip t) :=
  ⟨h.config, h.modes, h.state, h.compound⟩

theorem Within.take (h : Within outer m m') (t : Text) : Within outer (m.take t).2 (m'.take t).2 :=
  ⟨h.config, h.modes, h.state, h.compound⟩

theorem Within.note (h : Within outer m m') (g : Compound) : Within outer (m.note g) (m'.note g) :=
  ⟨h.config, h.modes, h.state, rfl⟩

theorem Within.enter (h : Within outer m m') (mode : Mode) :
    Within outer (m.enter mode) (m'.enter mode) :=
  ⟨h.config, congrArg (mode :: ·) h.modes, h.state, h.compound⟩

theorem Within.leave (h : Within outer m m') (ne : m.openModes ≠ []) :
    Within outer m.leave m'.leave := by
  refine ⟨h.config, ?_, h.state, h.compound⟩
  rw [openModes_leave, openModes_leave, h.modes, List.tail_append_of_ne_nil ne]

theorem Within.perform (h : Within outer m m') (houter : Blocks outer)
    (hs : s.Brackets m.openModes) (he : (perform s m).error? = none) :
    (Machine.perform s m').error? = none ∧
      Within outer (Machine.perform s m).machine (Machine.perform s m').machine := by
  generalize hms : m.openModes = ms at hs
  have hleave {m : Machine} {mode : Mode} {ms : List Mode} (hms : m.openModes = mode :: ms) :
      m.openModes ≠ [] ∧ m.leave.openModes = ms := by
    rw [openModes_leave, hms]
    exact ⟨nofun, rfl⟩
  induction hs generalizing m m' with
  | @skip t s ms _ ih => exact ih (h.skip t) he hms
  | @emit k t s ms _ _ ih => exact ih (h.take t) he hms
  | @opens mode k t s ms _ _ ih => exact ih ((h.enter mode).take t) he (congrArg (mode :: ·) hms)
  | @closes mode k o t s ms _ _ _ ih =>
    obtain ⟨hne, hbehind⟩ := hleave (m := (m.take t).2) hms
    exact ih ((h.take t).leave hne) he hbehind
  | @enter mode s ms _ _ ih => exact ih (h.enter mode) he (congrArg (mode :: ·) hms)
  | leave _ _ ih =>
    obtain ⟨hne, hbehind⟩ := hleave hms
    exact ih (h.leave hne) he hbehind
  | @note g s ms _ ih => exact ih (h.note g) he hms
  | arguments => exact ⟨rfl, h.config, congrArg (_ :: ·) h.modes, rfl, rfl⟩
  | goto => exact ⟨rfl, h.config, h.modes, rfl, h.compound⟩
  | resume =>
    refine ⟨rfl, h.config, h.modes, ?_, h.compound⟩
    have hstate := resume_append m.openModes houter
    rwa [← h.modes, topMode_openModes, topMode_openModes] at hstate
  | fail => cases he

theorem Within.script_eq (h : Within outer m m') (hm : m.Coherent)
    (hst : m.state ≠ .statement ∨ outer = []) :
    m'.script = .ofState m.state { m.view with rest := m'.cursor.rest } := by
  have htop := m'.topMode_openModes
  have houter : topMode m'.openModes.tail = m'.modes.outer := by
    rw [← openModes_leave, topMode_openModes]
    rfl
  have hshows := hm.view_shows
  rw [script, view, h.state, h.config, h.compound, ← htop, ← houter, h.modes]
  rcases hst with hst | rfl
  · exact Script.ofState_append hst hm.fits (v := m.view) hshows.top hshows.outer m'.cursor.rest
  · rw [List.append_nil, ← hshows.top, ← hshows.outer]
    rfl

/-- `m'` does what `m` does, inside of `outer`. The text ahead of them is the same up to a seam, where
`x` stands behind it for `m` and `y` for `m'`. -/
structure Embedded (outer : List Mode) (x y : Text) (m m' : Machine) : Prop where
  inside : Within outer m m'
  text : ∃ w, m.cursor.rest = w ++ x ∧ m'.cursor.rest = w ++ y ∧ (w = [] ∨ Text.Seam x w)

theorem Embedded.agree (h : Embedded outer x y m m') (hm : m.Coherent) (hst : m.state ≠ .statement)
    (ahead : m.cursor.rest ≠ x) : Script.Agree x m.cursor.rest m.script m'.script := by
  obtain ⟨w, hrest, hrest', hw⟩ := h.text
  have hseam : Text.Seam x w := by
    refine hw.resolve_left ?_
    rintro rfl
    exact ahead hrest
  have hview : m.view = { m.view with rest := w ++ x } := by
    rw [← hrest]
    rfl
  rw [h.inside.script_eq hm (.inl hst), script, hrest, hrest', hview]
  exact Script.agree_ofState hst m.view hseam

theorem Embedded.step (h : Embedded outer x y m m') (houter : Blocks outer) (hm : m.Coherent)
    (running : m.state ≠ .done) (he : m.step.error? = none) (hs : m'.script = m.script)
    (hle : x.length ≤ m.step.machine.cursor.rest.length) :
    m'.step.error? = none ∧ Embedded outer x y m.step.machine m'.step.machine := by
  obtain ⟨he', hinside⟩ := h.inside.perform houter hm.brackets he
  obtain ⟨w, hrest, hrest', hw⟩ := h.text
  have hpassed := hm.rest_step running he
  obtain ⟨w', rfl, hbehind⟩ : ∃ w', w = Piece.texts m.script.pieces ++ w' ∧
      m.step.machine.cursor.rest = w' ++ x := by
    rw [hrest] at hpassed
    rcases List.append_eq_append_iff.1 hpassed with ⟨u, htexts, hx⟩ | ⟨w', hw', hbehind⟩
    · have hlength := congrArg List.length hx
      rw [List.length_append] at hlength
      obtain rfl := List.length_eq_zero_iff.1 (by omega : u.length = 0)
      refine ⟨[], ?_, ?_⟩
      · rw [htexts, List.append_nil, List.append_nil]
      · rw [hx, List.nil_append, List.nil_append]
    · exact ⟨w', hw', hbehind⟩
  have hrest_step := rest_perform he'
  rw [hrest', List.append_assoc, List.drop_left] at hrest_step
  have hstep : m'.step = Machine.perform m.script m' := by rw [Machine.step, hs]
  rw [hstep]
  refine ⟨he', hinside, w', hbehind, hrest_step, ?_⟩
  by_cases hnil : w' = []
  · exact .inl hnil
  · refine .inr ((hw.resolve_left ?_).suffix hnil)
    exact fun hempty => hnil (List.append_eq_nil_iff.1 hempty).2

/-- Side by side the machines get to `p` and `p'`, up to the first token of the kind of `q`. -/
structure Meet (outer : List Mode) (x y : Text) (q : Kind × Text) (m m' p p' : Machine) : Prop where
  reach : ∃ ps ks, m.Reaches ps p ∧ m'.Reaches ps p' ∧ Piece.spelled ps = ks ++ [q] ∧
    ∀ r ∈ ks, r.1 ≠ q.1
  embedded : Embedded outer x y p p'

variable {p p' : Machine} {q : Kind × Text}

theorem Embedded.meet (h : Embedded outer x y m m') (running : m.state ≠ .done)
    (he : m.step.error? = none) (he' : m'.step.error? = none) (hs : m'.script = m.script)
    (hspelled : Piece.spelled m.script.pieces = [q])
    (hnext : Embedded outer x y m.step.machine m'.step.machine) :
    Meet outer x y q m m' m.step.machine m'.step.machine := by
  have hreaches' := reaches_step (h.inside.state ▸ running) he'
  rw [hs] at hreaches'
  exact ⟨⟨_, [], reaches_step running he, hreaches', hspelled, nofun⟩, hnext⟩

theorem Embedded.meet_behind (h : Embedded outer x y m m') (running : m.state ≠ .done)
    (he : m.step.error? = none) (he' : m'.step.error? = none) (hs : m'.script = m.script)
    (hkinds : ∀ r ∈ Piece.spelled m.script.pieces, r.1 ≠ q.1)
    (hmeet : Meet outer x y q m.step.machine m'.step.machine p p') : Meet outer x y q m m' p p' := by
  obtain ⟨⟨ps, ks, hreaches, hreaches', hspelled, hks⟩, hp⟩ := hmeet
  have hboth := Reaches.step (h.inside.state ▸ running) he' hreaches'
  rw [hs] at hboth
  refine ⟨⟨_, Piece.spelled m.script.pieces ++ ks, .step running he hreaches, hboth, ?_, ?_⟩, hp⟩
  · rw [Piece.spelled_append, hspelled, List.append_assoc]
  · intro r hr
    rcases List.mem_append.1 hr with hr | hr
    · exact hkinds r hr
    · exact hks r hr

end Machine

end StyleLex

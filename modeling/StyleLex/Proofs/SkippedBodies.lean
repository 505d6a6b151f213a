import StyleLex.Proofs.InterpolationBodies
import StyleLex.Proofs.ReachedMachines
import StyleLex.Proofs.Reconfigured
import StyleLex.Proofs.SpacedText

/-!
# Runs that pass over the bodies of interpolations

A run that passes over the bodies of interpolations hands over the tokens of one that reads them, less
those between the ends of interpolations. It stops at the first closing brace, so this holds as long as
none stands inside of a body.
-/
namespace StyleLex

/-- The interpolations that are open behind a token, if `depth` are open in front of it. -/
def Kind.depthBehind (depth : Nat) : Kind → Nat
  | .interpolationStart => depth + 1
  | .interpolationEnd => depth - 1
  | _ => depth

/-- Leaves out the tokens that stand between the two ends of an interpolation, if `depth` are open in
front of them. -/
def withoutBodies : Nat → List Token → List Token
  | _, [] => []
  | depth, t :: ts =>
    let behind := t.kind.depthBehind depth
    if depth = 0 ∨ behind = 0 then t :: withoutBodies behind ts else withoutBodies behind ts

/-- Between the two ends of an interpolation stands no other one, and no string with a closing brace,
if `depth` are open in front of the tokens. -/
def plainBodies : Nat → List Token → Bool
  | _, [] => true
  | depth, t :: ts =>
    (depth = 0 || t.kind ≠ .interpolationStart && !(t.kind = .quotedString && t.text.contains '}'))
      && plainBodies (t.kind.depthBehind depth) ts

variable {source before body : Text} {c : Config} {s : Script} {t : Token} {ts : List Token}
  {ps : List Piece} {frames calls : List Frame}

theorem Kind.depthBehind_of_not_isBound {k : Kind} (h : k.isBound = false) (depth : Nat) :
    k.depthBehind depth = depth := by
  cases k <;> first | rfl | cases h

theorem bodies_outside (h : t.kind.isBound = false) (ts : List Token) :
    withoutBodies 0 (t :: ts) = t :: withoutBodies 0 ts ∧
      plainBodies 0 (t :: ts) = plainBodies 0 ts := by
  simp [withoutBodies, plainBodies, Kind.depthBehind_of_not_isBound h]

theorem bodies_start (h : t.kind = .interpolationStart) (ts : List Token) :
    withoutBodies 0 (t :: ts) = t :: withoutBodies 1 ts ∧
      plainBodies 0 (t :: ts) = plainBodies 1 ts := by
  simp [withoutBodies, plainBodies, h, Kind.depthBehind]

theorem bodies_end (h : t.kind = .interpolationEnd) (ts : List Token) :
    withoutBodies 1 (t :: ts) = t :: withoutBodies 0 ts ∧
      plainBodies 1 (t :: ts) = plainBodies 0 ts := by
  simp [withoutBodies, plainBodies, h, Kind.depthBehind]

theorem bodies_inside (h : t.kind.isBound = false) (ts : List Token) :
    withoutBodies 1 (t :: ts) = withoutBodies 1 ts := by
  simp [withoutBodies, Kind.depthBehind_of_not_isBound h]

theorem plainBodies_inside (h : t.kind.isBound = false) (hplain : plainBodies 1 (t :: ts) = true) :
    (t.kind = .quotedString → '}' ∉ t.text) ∧ plainBodies 1 ts = true := by
  rw [plainBodies, Kind.depthBehind_of_not_isBound h, Bool.and_eq_true] at hplain
  refine ⟨fun hquoted => ?_, hplain.2⟩
  simpa [hquoted] using hplain.1

/-- Buried pieces are left out, and hold no closing brace at all if no string in them does. -/
theorem bodies_buried (hps : ∀ p ∈ ps, p.Buried)
    (hplain : plainBodies 1 (Piece.tokens before ps ++ ts) = true) :
    '}' ∉ Piece.texts ps ∧ plainBodies 1 ts = true ∧
      withoutBodies 1 (Piece.tokens before ps ++ ts) = withoutBodies 1 ts := by
  induction ps generalizing before with
  | nil => exact ⟨List.not_mem_nil, hplain, rfl⟩
  | cons p ps ih =>
    obtain ⟨hp, hbehind⟩ := List.forall_mem_cons.1 hps
    rw [Piece.texts_cons, List.mem_append, not_or]
    cases p with
    | gap t =>
      obtain ⟨htexts, hbehind⟩ := ih hbehind hplain
      exact ⟨⟨hp, htexts⟩, hbehind⟩
    | token k t =>
      obtain ⟨hbound, htext⟩ := hp
      obtain ⟨hstring, hplain⟩ := plainBodies_inside (t := .make k t _ _) hbound hplain
      obtain ⟨htexts, hbehind, hleft⟩ := ih hbehind hplain
      refine ⟨⟨?_, htexts⟩, hbehind, ?_⟩
      · by_cases hk : k = .quotedString
        · exact hstring hk
        · exact htext hk
      · rw [← hleft]
        exact bodies_inside (t := .make k t _ _) hbound _

namespace Machine

variable {m p : Machine}

/-- The machine stands behind the beginning of an interpolation that is in no other one. -/
structure AtBody (p : Machine) : Prop where
  state : p.state = .interpolation
  modes : ∃ outer, p.openModes = .interpolation :: outer ∧ .interpolation ∉ outer

/-- A script around interpolations hands over nothing that is left out, and leads to the body of one if
it opens it. -/
theorem surface_perform (hs : s.Surface) (hout : .interpolation ∉ m.openModes) :
    ∃ depth, (∀ ts, withoutBodies 0 ((perform s m).tokens ++ ts) =
          (perform s m).tokens ++ withoutBodies depth ts ∧
        plainBodies 0 ((perform s m).tokens ++ ts) = plainBodies depth ts) ∧
      (depth = 0 ∧ .interpolation ∉ (perform s m).machine.openModes ∨
        depth = 1 ∧ (perform s m).machine.AtBody) := by
  induction hs generalizing m with
  | skip _ ih => exact ih (m := m.skip _) hout
  | @emit k t s plain _ ih =>
    obtain ⟨depth, hbodies, hbehind⟩ := ih (m := (m.take t).2) hout
    refine ⟨depth, fun ts => ?_, hbehind⟩
    obtain ⟨hleft, hplain⟩ := hbodies ts
    obtain ⟨hleft', hplain'⟩ := bodies_outside (t := ⟨(m.take t).1, k⟩) plain
      ((perform s (m.take t).2).tokens ++ ts)
    exact ⟨hleft'.trans (congrArg _ hleft), hplain'.trans hplain⟩
  | enter plain _ ih =>
    exact ih (m := m.enter _) (List.not_mem_cons_of_ne_of_not_mem plain.symm hout)
  | leave _ ih =>
    refine ih (m := m.leave) fun hmem => hout ?_
    rw [openModes_leave] at hmem
    exact List.mem_of_mem_tail hmem
  | note _ ih => exact ih (m := m.note _) hout
  | goto => exact ⟨0, fun ts => ⟨rfl, rfl⟩, .inl ⟨rfl, hout⟩⟩
  | resume => exact ⟨0, fun ts => ⟨rfl, rfl⟩, .inl ⟨rfl, hout⟩⟩
  | fail => exact ⟨0, fun ts => ⟨rfl, rfl⟩, .inl ⟨rfl, hout⟩⟩
  | opens => exact ⟨1, fun ts => bodies_start rfl ts, .inr ⟨rfl, rfl, _, rfl, hout⟩⟩

theorem Coherent.state_ne_interpolation (hm : m.Coherent) (hout : .interpolation ∉ m.openModes) :
    m.state ≠ .interpolation := by
  intro hstate
  have hfits := hm.fits
  rw [hstate] at hfits
  generalize m.openModes = ms at hfits hout
  cases hfits <;> exact hout List.mem_cons_self

theorem Coherent.surface_step (hm : m.Coherent) (hout : .interpolation ∉ m.openModes) :
    ∃ depth, (∀ ts, withoutBodies 0 (m.step.tokens ++ ts) = m.step.tokens ++ withoutBodies depth ts ∧
        plainBodies 0 (m.step.tokens ++ ts) = plainBodies depth ts) ∧
      (depth = 0 ∧ .interpolation ∉ m.step.machine.openModes ∨ depth = 1 ∧ m.step.machine.AtBody) :=
  surface_perform (Script.surface_ofState (v := m.view) (hm.state_ne_interpolation hout) hm.compound)
    hout

/-- The machine `m` has come from `p` into the body of its interpolation, over `body`, in which no
interpolation ends. Only calls are open in the body. -/
structure InBody (source before body : Text) (calls : List Frame) (p m : Machine) : Prop where
  atBody : p.AtBody
  entry : p.Stands source before
  stands : m.Stands source (before ++ body)
  plain : '}' ∉ body
  frames : m.modes.frames = calls ++ p.modes.frames
  calls : ∀ f ∈ calls, f.mode = .functionArguments
  compound : m.compound = p.compound

/-- A script inside of a body opens and closes calls only. -/
theorem frames_perform (hs : s.InBody calls.length) (hframes : m.modes.frames = calls ++ frames)
    (hcalls : ∀ f ∈ calls, f.mode = .functionArguments) (he : (perform s m).error? = none) :
    (perform s m).machine.compound = m.compound ∧
      ∃ calls', (perform s m).machine.modes.frames = calls' ++ frames ∧
        ∀ f ∈ calls', f.mode = .functionArguments := by
  induction s generalizing m calls with
  | skip t s ih => exact ih (m := m.skip t) hs.2 hframes hcalls he
  | emit k t s ih => exact ih (m := (m.take t).2) hs.2 hframes hcalls he
  | enter mode s ih =>
    let f : Frame := ⟨mode, m.cursor.start, m.cursor.startLine⟩
    have hbehind : s.InBody (f :: calls).length := hs.2
    have hopened : (m.enter mode).modes.frames = (f :: calls) ++ frames := congrArg (f :: ·) hframes
    exact ih hbehind hopened (List.forall_mem_cons.2 ⟨hs.1, hcalls⟩) he
  | leave s ih =>
    obtain ⟨hne, hs⟩ := hs
    cases calls with
    | nil => exact absurd rfl hne
    | cons f calls =>
      refine ih (m := m.leave) hs ?_ (List.forall_mem_cons.1 hcalls).2 he
      exact congrArg List.tail hframes
  | note g s ih => exact hs.elim
  | goto st => exact ⟨rfl, calls, hframes, hcalls⟩
  | resume => exact ⟨rfl, calls, hframes, hcalls⟩
  | fail t f => cases he

end Machine

/-- The end of an interpolation is its last token, and is handed over before the mode is closed. -/
theorem Script.CloseForm.perform {v : View} (hs : CloseForm v s) (m : Machine) :
    ∃ t : Token, (Machine.perform s m).tokens = [t] ∧ t.kind = .interpolationEnd ∧
      (Machine.perform s m).machine.openModes = m.openModes.tail := by
  cases hs with
  | selector => exact ⟨_, rfl, rfl, Machine.openModes_leave (m.take _).2⟩
  | value => exact ⟨_, rfl, rfl, Machine.openModes_leave (m.take _).2⟩

theorem State.Fits.eq_interpolation {st : State} {ms : List Mode}
    (h : st.Fits c (.interpolation :: ms)) : st = .interpolation := by
  cases h with
  | statement outer => cases outer
  | atRule outer => cases outer
  | assignment outer => cases outer
  | interpolation => rfl
  | selectorInterpolation => rfl

theorem State.Fits.eq_value {st : State} {ms : List Mode}
    (h : st.Fits c (.functionArguments :: ms)) : st = .value := by
  cases h with
  | statement outer => cases outer
  | atRule outer => cases outer
  | assignment outer => cases outer
  | call => rfl

/-- The scripts inside of the body of an interpolation, with `n` calls open: the body ends, another
interpolation begins, or the body goes on. -/
inductive Script.BodyForm (v : View) (n : Nat) : Script → Prop where
  | close {blank t : Text} {s : Script} (bottom : n = 0)
      (munch : v.rest.Munch isSpace blank ('}' :: t)) (form : CloseForm v s) :
      BodyForm v n (.skip blank s)
  | opens {blank : Text} : BodyForm v n (.skip blank openInterpolation)
  | inside {s : Script} (inside : s.InBody n) : BodyForm v n s

namespace Machine

variable {m p : Machine}

/-- Only calls are open in the body. -/
theorem InBody.modes (h : InBody source before body calls p m) : ∃ outer,
    m.openModes = calls.map Frame.mode ++ .interpolation :: outer ∧ .interpolation ∉ outer := by
  obtain ⟨outer, hmodes, hout⟩ := h.atBody.modes
  refine ⟨outer, ?_, hout⟩
  rw [← hmodes, openModes, h.frames, List.map_append]
  rfl

theorem InBody.state (h : InBody source before body [] p m) (hm : m.Coherent) :
    m.state = .interpolation := by
  obtain ⟨outer, hmodes, -⟩ := h.modes
  have hfits := hm.fits
  rw [hmodes] at hfits
  exact hfits.eq_interpolation

theorem InBody.form (h : InBody source before body calls p m) (hm : m.Coherent)
    (htokens : m.config.interpolation = .tokens) : Script.BodyForm m.view calls.length m.script := by
  obtain ⟨outer, hopen, -⟩ := h.modes
  have hfits := hm.fits
  rw [hopen] at hfits
  cases calls with
  | nil =>
    have hscript : m.script = .interpolation m.view := by
      rw [script, h.state hm, Script.ofState]
    have hform := Script.interpolation_form m.view
    rw [hscript]
    generalize Script.interpolation m.view = s at hform ⊢
    cases hform with
    | unclosedSkipped skipped => cases skipped.symm.trans htokens
    | skipped skipped => cases skipped.symm.trans htokens
    | unclosed _ munch => exact .inside ⟨munch.not_mem rfl, trivial⟩
    | close _ munch close => exact .close rfl munch close
    | component _ munch _ form =>
      rcases form.inBody (n := 0) with rfl | hinside
      · exact .opens
      · exact .inside ⟨munch.not_mem rfl, hinside⟩
  | cons f calls =>
    have hf := h.calls f List.mem_cons_self
    rw [List.map_cons, List.cons_append, hf] at hfits hopen
    have hcall : m.view.inCall = true := by
      have htop : m.modes.top = .functionArguments := by rw [← topMode_openModes, hopen]; rfl
      exact decide_eq_true htop
    obtain ⟨blank, rest, s, munch, form, hvalue⟩ := Script.value_form m.view
    rw [script, hfits.eq_value, Script.ofState, hvalue]
    rcases form.inBody hcall (Nat.succ_ne_zero calls.length) with rfl | hinside
    · exact .opens
    · exact .inside ⟨munch.not_mem rfl, hinside⟩

/-- Two machines at the same place in a text have the same cursor. -/
theorem Stands.cursor_eq (h : m.Stands source before) (h' : p.Stands source before)
    (hunread : m.cursor.unread = p.cursor.unread) : m.cursor = p.cursor := by
  have hrest : m.cursor.rest = p.cursor.rest := List.append_cancel_left (h.split.symm.trans h'.split)
  have hpending : m.cursor.pending = p.cursor.pending :=
    (List.reverse_eq_nil_iff.1 h.lexeme).trans (List.reverse_eq_nil_iff.1 h'.lexeme).symm
  have hpos := h.place.1.trans h'.place.1.symm
  have hline := h.place.2.trans h'.place.2.symm
  have hstart := h.cursor.start.trans h'.cursor.start.symm
  have hstartLine := h.cursor.startLine.trans h'.cursor.startLine.symm
  obtain ⟨_, ⟨_, _, _, _, _, _, _⟩, _, _, _⟩ := m
  obtain ⟨_, ⟨_, _, _, _, _, _, _⟩, _, _, _⟩ := p
  simp_all only

theorem InBody.rest_eq (h : InBody source before body calls p m) :
    p.cursor.rest = body ++ m.cursor.rest := by
  have hsplit := h.entry.split.symm.trans h.stands.split
  rw [List.append_assoc] at hsplit
  exact List.append_cancel_left hsplit

/-- Where the body ends, a machine that passes over it at once does the same. -/
theorem InBody.step_close {blank tail : Text} (h : InBody source before body [] p m)
    (hstate : m.state = .interpolation) (munch : m.cursor.rest.Munch isSpace blank ('}' :: tail))
    (form : Script.CloseForm m.view s) (hscript : m.script = .skip blank s)
    (hskipped : c.interpolation = .skipped) : (p.reconfigure c).step = m.step.reconfigure c := by
  have hmodes : m.modes = p.modes := by
    obtain ⟨_, _, ⟨_⟩, _, _⟩ := m
    exact congrArg ModeStack.mk h.frames
  have hahead : p.cursor.rest = (body ++ blank) ++ '}' :: tail := by
    rw [h.rest_eq, munch.split, List.append_assoc]
  have hplain : '}' ∉ body ++ blank := by
    rw [List.mem_append, not_or]
    exact ⟨h.plain, munch.not_mem rfl⟩
  have hskip : (p.reconfigure c).skip (body ++ blank) = (m.skip blank).reconfigure c := by
    have hcursor := (h.stands.skip munch.split).cursor_eq (p := p.skip (body ++ blank))
      (by rw [List.append_assoc]; exact h.entry.skip hahead) rfl
    have hfields : (p.reconfigure c).skip (body ++ blank) =
        ⟨c, (p.skip (body ++ blank)).cursor, p.modes, p.state, p.compound⟩ := rfl
    rw [hfields, ← hcursor, ← hmodes, h.atBody.state, ← hstate, ← h.compound]
    rfl
  have hscript' : (p.reconfigure c).script = .skip (body ++ blank) s := by
    have houter : (p.view.reconfigure c).outer = m.view.outer := congrArg ModeStack.outer hmodes.symm
    have hcompound : (p.view.reconfigure c).compound = m.view.compound := h.compound.symm
    have hclose : Script.closeInterpolation (p.view.reconfigure c) = s := by
      rw [Script.closeInterpolation, houter, hcompound]
      cases form with
      | selector outer => rw [if_pos outer]
      | value outer => rw [if_neg outer]
    have hrest : (p.view.reconfigure c).rest = (body ++ blank) ++ '}' :: tail := hahead
    have hconfig : (p.view.reconfigure c).config.interpolation = .skipped := hskipped
    have hstate' : (p.reconfigure c).script = .interpolation (p.view.reconfigure c) := by
      rw [script, show (p.reconfigure c).state = .interpolation from h.atBody.state]
      rfl
    rw [hstate', Script.interpolation, hconfig, hrest, Text.upTo?_split hplain]
    exact congrArg _ hclose
  rw [Machine.step, hscript', perform, hskip, perform_reconfigure, Machine.step, hscript, perform]

theorem InBody.running (h : InBody source before body calls p m) (hm : m.Coherent) :
    m.state ≠ .done := by
  obtain ⟨outer, hmodes, -⟩ := h.modes
  intro hdone
  have hfits := hm.fits
  rw [hdone, hmodes] at hfits
  generalize hms : calls.map Frame.mode ++ Mode.interpolation :: outer = ms at hfits
  cases hfits
  exact List.cons_ne_nil _ _ (List.append_eq_nil_iff.1 hms).2

/-- The run of `p` is what is left of the run of `m` without bodies, if `depth` of them are open. -/
def SkipsBodies (depth : Nat) (m p : Machine) : Prop :=
  p.run.error? = none ∧ p.run.tokens = withoutBodies depth m.run.tokens

/-- A step in which nothing is left out. -/
theorem SkipsBodies.step {depth depth' : Nat}
    (h : SkipsBodies depth' m.step.machine (m.step.machine.reconfigure c))
    (hp : p.step = m.step.reconfigure c) (ok : m.step.error? = none)
    (hbodies : withoutBodies depth (m.step.tokens ++ m.step.machine.run.tokens) =
      m.step.tokens ++ withoutBodies depth' m.step.machine.run.tokens) : SkipsBodies depth m p := by
  rw [SkipsBodies, run_eq p, hp, tokens_run_eq m, hbodies, ← h.2]
  constructor
  · rw [Run.error?_followedBy, show (m.step.reconfigure c).error? = none from ok, Option.none_or]
    exact h.1
  · rfl

/-- What is left of the run of `m` is that of a machine that passes over bodies: from the same place if
`m` is in no interpolation, and from the beginning of the body if it is in one. -/
structure SkippedFrom (source : Text) (c : Config) (m : Machine) : Prop where
  outside : ∀ {before}, m.Stands source before → .interpolation ∉ m.openModes →
    plainBodies 0 m.run.tokens = true → SkipsBodies 0 m (m.reconfigure c)
  inside : ∀ {before body calls p}, InBody source before body calls p m →
    plainBodies 1 m.run.tokens = true → SkipsBodies 1 m (p.reconfigure c)

/-- Outside of all interpolations both machines do the same, also at the beginning of a body. -/
theorem SkippedFrom.step_outside (next : SkippedFrom source c m.step.machine) (hm : m.Coherent)
    (h : m.Stands source before) (hdone : m.state ≠ .done) (ok : m.step.error? = none)
    (hsemicolon : c.requireSemicolon = m.config.requireSemicolon)
    (hout : .interpolation ∉ m.openModes) (hplain : plainBodies 0 m.run.tokens = true) :
    SkipsBodies 0 m (m.reconfigure c) := by
  obtain ⟨depth, hbodies, hbehind⟩ := hm.surface_step hout
  have hstands := (stands_perform h (hm.reads hdone) ok).1
  have halike := State.alike_of_ne_interpolation (hm.state_ne_interpolation hout) hsemicolon
  rw [tokens_run_eq, (hbodies _).2] at hplain
  refine SkipsBodies.step ?_ (step_reconfigure halike) ok (hbodies _).1
  rcases hbehind with ⟨rfl, hout'⟩ | ⟨rfl, hbody⟩
  · exact next.outside hstands hout' hplain
  · have hentered : InBody source _ [] [] m.step.machine m.step.machine :=
      ⟨hbody, hstands, by rwa [List.append_nil], nofun, rfl, nofun, rfl⟩
    exact next.inside hentered hplain

/-- Both machines come out of the body at once. -/
theorem SkippedFrom.step_close {blank tail front : Text} (next : SkippedFrom source c m.step.machine)
    (hm : m.Coherent) (h : InBody source before body [] p m) (ok : m.step.error? = none)
    (hstands : m.step.machine.Stands source front) (hscript : m.script = .skip blank s)
    (munch : m.cursor.rest.Munch isSpace blank ('}' :: tail)) (form : Script.CloseForm m.view s)
    (hskipped : c.interpolation = .skipped) (hplain : plainBodies 1 m.run.tokens = true) :
    SkipsBodies 1 m (p.reconfigure c) := by
  obtain ⟨t, ht, hkind, hmodes⟩ := form.perform (m.skip blank)
  have hstep : m.step = perform s (m.skip blank) := by rw [Machine.step, hscript, perform]
  rw [← hstep] at ht hmodes
  have hout : .interpolation ∉ m.step.machine.openModes := by
    obtain ⟨outer, hopen, hout⟩ := h.modes
    rw [hmodes, show (m.skip blank).openModes = _ from hopen]
    exact hout
  rw [tokens_run_eq, ht, List.singleton_append, (bodies_end hkind _).2] at hplain
  refine (next.outside hstands hout hplain).step
    (h.step_close (h.state hm) munch form hscript hskipped) ok ?_
  rw [ht]
  exact (bodies_end hkind _).1

/-- The machine that passes over the body waits at its beginning, while the other one reads it. -/
theorem SkippedFrom.step_inside (next : SkippedFrom source c m.step.machine) (hm : m.Coherent)
    (h : InBody source before body calls p m) (hdone : m.state ≠ .done) (ok : m.step.error? = none)
    (hs : m.script.InBody calls.length) (hplain : plainBodies 1 m.run.tokens = true) :
    SkipsBodies 1 m (p.reconfigure c) := by
  have hstands := (stands_perform h.stands (hm.reads hdone) ok).1
  have hpieces := hm.tokens_step h.stands hdone
  obtain ⟨hcompound, calls', hframes, hcalls⟩ := frames_perform hs h.frames h.calls ok
  rw [tokens_run_eq, hpieces] at hplain
  obtain ⟨htexts, hplain, hleft⟩ := bodies_buried hs.buried hplain
  have hbody : InBody source before (body ++ Piece.texts m.script.pieces) calls' p m.step.machine :=
    { h with
      stands := by rwa [← List.append_assoc]
      plain := fun hmem => (List.mem_append.1 hmem).elim h.plain htexts
      frames := hframes
      calls := hcalls
      compound := hcompound.trans h.compound }
  obtain ⟨hok, hbehind⟩ := next.inside hbody hplain
  refine ⟨hok, ?_⟩
  rw [hbehind, tokens_run_eq m, hpieces, hleft]

theorem Coherent.skippedFrom (hm : m.Coherent) (htokens : m.config.interpolation = .tokens)
    (hsemicolon : c.requireSemicolon = m.config.requireSemicolon)
    (hskipped : c.interpolation = .skipped) (he : m.run.error? = none) : SkippedFrom source c m := by
  induction m using run_induction with
  | done m hdone =>
    refine ⟨fun _ _ _ => ?_, fun h _ => absurd hdone (h.running hm)⟩
    rw [SkipsBodies, run_of_done hdone, run_of_done (m := m.reconfigure c) hdone]
    exact ⟨rfl, rfl⟩
  | error m hdone herror =>
    rw [run_of_error herror] at he
    exact absurd he herror
  | step m hdone ok ih =>
    have hconfig : m.step.machine.config = m.config := config_perform _ m
    have next := ih (hm.step ok) (hconfig ▸ htokens) (hconfig ▸ hsemicolon)
      (error?_step_of_run he).2
    refine ⟨fun h hout => next.step_outside hm h hdone ok hsemicolon hout, ?_⟩
    intro before body calls p h hplain
    have hform := h.form hm htokens
    generalize hscript : m.script = s at hform
    cases hform with
    | close bottom munch form =>
      obtain rfl := List.length_eq_zero_iff.1 bottom
      have hstands := (stands_perform h.stands (hm.reads hdone) ok).1
      exact next.step_close hm h ok hstands hscript munch form hskipped hplain
    | opens =>
      -- The interpolation that begins here is in the body, which holds none.
      obtain ⟨t, ht, hkind⟩ : ∃ t : Token, m.step.tokens = [t] ∧ t.kind = .interpolationStart := by
        rw [Machine.step, hscript]
        exact ⟨_, rfl, rfl⟩
      rw [tokens_run_eq, ht] at hplain
      simp [plainBodies, hkind] at hplain
    | inside hs => exact next.step_inside hm h hdone ok (hscript ▸ hs) hplain

end Machine

/-- A text that is read without an error if the bodies of interpolations are read too gives the same
tokens, less those inside of bodies, if the bodies are passed over. No body may hold another
interpolation, or a string with a closing brace. -/
theorem tokenize_skipped (required : Bool) (source : Text) (ts : List Token)
    (hok : tokenize ⟨required, .tokens⟩ source = .ok ts) (hplain : plainBodies 0 ts = true) :
    tokenize ⟨required, .skipped⟩ source = .ok (withoutBodies 0 ts) := by
  obtain ⟨rfl, he⟩ := run_of_tokenize hok
  have hskipped : Machine.SkippedFrom source ⟨required, .skipped⟩ (.start ⟨required, .tokens⟩ source) :=
    (Machine.coherent_start _ source).skippedFrom rfl rfl rfl he
  obtain ⟨he', htokens⟩ := hskipped.outside (Machine.stands_start _ source) List.not_mem_nil hplain
  rw [← htokens]
  exact tokenize_of_run he'

/-- A call in an interpolation of a selector, and a string in one of a value. -/
theorem tokenize_skipped_call_and_string :
    let source := "a#\x7bf(x)\x7d\x7bb:#\x7b'y'\x7d\x7d".toList
    let ts := [.make .tagSelector ['a'] 0 1, .make .interpolationStart ['#', '{'] 1 1,
      .make .constant ['f'] 3 1, .make .parenStart ['('] 4 1, .make .constant ['x'] 5 1,
      .make .parenEnd [')'] 6 1, .make .interpolationEnd ['}'] 7 1, .make .braceStart ['{'] 8 1,
      .make .propertyName ['b'] 9 1, .make .colon [':'] 10 1,
      .make .interpolationStart ['#', '{'] 11 1, .make .quotedString ['y'] 14 1,
      .make .interpolationEnd ['}'] 16 1, .make .braceEnd ['}'] 17 1]
    tokenize ⟨false, .tokens⟩ source = .ok ts ∧ plainBodies 0 ts = true ∧
      tokenize ⟨false, .skipped⟩ source =
        .ok [.make .tagSelector ['a'] 0 1, .make .interpolationStart ['#', '{'] 1 1,
          .make .interpolationEnd ['}'] 7 1, .make .braceStart ['{'] 8 1,
          .make .propertyName ['b'] 9 1, .make .colon [':'] 10 1,
          .make .interpolationStart ['#', '{'] 11 1, .make .interpolationEnd ['}'] 16 1,
          .make .braceEnd ['}'] 17 1] := by
  intro source ts
  have hok : tokenize ⟨false, .tokens⟩ source = .ok ts := by decide +kernel
  have hplain : plainBodies 0 ts = true := by decide +kernel
  exact ⟨hok, hplain, tokenize_skipped false source ts hok hplain⟩

end StyleLex

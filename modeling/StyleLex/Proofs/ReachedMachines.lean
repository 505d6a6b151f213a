import StyleLex.Proofs.OpenBrackets
import StyleLex.Proofs.TokenPlaces

/-!
# Machines on the way

A machine gets to another one in steps that do not fail, over the pieces of text that their scripts
move over. A script moves over the same pieces wherever it is performed.
-/
namespace StyleLex

namespace Piece

variable {ps qs : List Piece}

/-- The tokens among pieces, by kind and text. -/
def spelled : List Piece → List (Kind × Text)
  | [] => []
  | .gap _ :: ps => spelled ps
  | .token k t :: ps => (k, t) :: spelled ps

@[simp] theorem spelled_append (ps qs : List Piece) :
    spelled (ps ++ qs) = spelled ps ++ spelled qs := by
  induction ps with
  | nil => rfl
  | cons p ps ih => cases p <;> simp [spelled, ih]

theorem spelled_tokens (before : Text) (ps : List Piece) :
    (tokens before ps).map (fun t => (t.kind, t.text)) = spelled ps := by
  induction ps generalizing before with
  | nil => rfl
  | cons p ps ih =>
    cases p with
    | gap t => exact ih _
    | token k t => exact congrArg ((k, t) :: ·) (ih _)

end Piece

namespace Machine

variable {m m' m'' : Machine} {s : Script} {ps qs : List Piece} {source before : Text}

theorem kinds_perform (s : Script) (m : Machine) :
    (perform s m).kinds = (Piece.spelled s.pieces).map Prod.fst := by
  induction s generalizing m with
  | skip t s ih => exact ih _
  | emit k t s ih => exact congrArg (k :: ·) (ih _)
  | enter mode s ih => exact ih _
  | leave s ih => exact ih _
  | note c s ih => exact ih _
  | goto st => rfl
  | resume => rfl
  | fail t f => rfl

theorem rest_perform (he : (perform s m).error? = none) :
    (perform s m).machine.cursor.rest = m.cursor.rest.drop (Piece.texts s.pieces).length := by
  induction s generalizing m with
  | skip t s ih =>
    have htail := ih (m := m.skip t) he
    rw [rest_skip, List.drop_drop] at htail
    rw [Script.pieces, Piece.texts_cons, List.length_append]
    exact htail
  | emit k t s ih =>
    have htail := ih (m := (m.take t).2) he
    rw [rest_take, List.drop_drop] at htail
    rw [Script.pieces, Piece.texts_cons, List.length_append]
    exact htail
  | enter mode s ih => exact ih (m := m.enter mode) he
  | leave s ih => exact ih (m := m.leave) he
  | note c s ih => exact ih (m := m.note c) he
  | goto st => rfl
  | resume => rfl
  | fail t f => cases he

/-- A step passes the text in front of what it leaves. -/
theorem Coherent.rest_step (hm : m.Coherent) (h : m.state ≠ .done) (he : m.step.error? = none) :
    m.cursor.rest = Piece.texts m.script.pieces ++ m.step.machine.cursor.rest := by
  obtain ⟨tail, hsplit⟩ := (hm.reads h).split
  have hrest := rest_perform he
  rw [hsplit, List.drop_left] at hrest
  rw [hsplit]
  exact congrArg _ hrest.symm

theorem error?_step_of_run (h : m.run.error? = none) :
    m.step.error? = none ∧ m.step.machine.run.error? = none := by
  rw [run_eq, Run.error?_followedBy, Option.or_eq_none_iff] at h
  exact h

/-- The machine gets to `m'` over the pieces `ps`, without an error. -/
inductive Reaches : Machine → List Piece → Machine → Prop where
  | refl (m : Machine) : Reaches m [] m
  | step {m m' : Machine} {ps : List Piece} (running : m.state ≠ .done) (ok : m.step.error? = none)
      (behind : Reaches m.step.machine ps m') : Reaches m (m.script.pieces ++ ps) m'

theorem Reaches.trans (h : m.Reaches ps m') (h' : m'.Reaches qs m'') : m.Reaches (ps ++ qs) m'' := by
  induction h with
  | refl => exact h'
  | step running ok _ ih =>
    rw [List.append_assoc]
    exact .step running ok (ih h')

theorem reaches_step (running : m.state ≠ .done) (ok : m.step.error? = none) :
    m.Reaches m.script.pieces m.step.machine := by
  have hstep := Reaches.step running ok (.refl m.step.machine)
  rwa [List.append_nil] at hstep

theorem Reaches.error?_run (h : m.Reaches ps m') : m.run.error? = m'.run.error? := by
  induction h with
  | refl => rfl
  | @step m m' ps running ok _ ih =>
    rw [run_eq m, Run.error?_followedBy, show m.step.error? = none from ok, Option.none_or]
    exact ih

theorem Reaches.config (h : m.Reaches ps m') : m'.config = m.config := by
  induction h with
  | refl => rfl
  | @step m m' _ _ _ _ ih => exact ih.trans (config_perform m.script m)

theorem Reaches.coherent (h : m.Reaches ps m') (hm : m.Coherent) : m'.Coherent := by
  induction h with
  | refl => exact hm
  | step _ ok _ ih => exact ih (hm.step ok)

theorem Reaches.rest_eq (h : m.Reaches ps m') (hm : m.Coherent) :
    m.cursor.rest = Piece.texts ps ++ m'.cursor.rest := by
  induction h with
  | refl => rfl
  | step running ok _ ih =>
    rw [hm.rest_step running ok, ih (hm.step ok), Piece.texts_append, List.append_assoc]

theorem Reaches.stands (h : m.Reaches ps m') (hm : m.Coherent) (hs : m.Stands source before) :
    m'.Stands source (before ++ Piece.texts ps) := by
  induction h generalizing before with
  | refl => rwa [Piece.texts_nil, List.append_nil]
  | step running ok _ ih =>
    have hstands := (stands_perform hs (hm.reads running) ok).1
    rw [Piece.texts_append, ← List.append_assoc]
    exact ih (hm.step ok) hstands

/-- A step hands over the tokens among the pieces that it passes. -/
theorem Coherent.tokens_step (hm : m.Coherent) (hs : m.Stands source before)
    (running : m.state ≠ .done) : m.step.tokens = Piece.tokens before m.script.pieces :=
  tokens_perform hs (hm.reads running)

theorem tokens_run_eq (m : Machine) :
    m.run.tokens = m.step.tokens ++ m.step.machine.run.tokens := by
  rw [run_eq m]
  rfl

theorem Reaches.tokens_run (h : m.Reaches ps m') (hm : m.Coherent) (hs : m.Stands source before) :
    m.run.tokens = Piece.tokens before ps ++ m'.run.tokens := by
  induction h generalizing before with
  | refl => rfl
  | @step m m' ps running ok _ ih =>
    have hbehind := ih (hm.step ok) (stands_perform hs (hm.reads running) ok).1
    rw [tokens_run_eq, hm.tokens_step hs running, hbehind, Piece.tokens_append, List.append_assoc]

/-- The tokens to come, by kind and text. -/
def spelling (m : Machine) : List (Kind × Text) := m.run.tokens.map fun t => (t.kind, t.text)

theorem spelling_kinds (m : Machine) : m.spelling.map Prod.fst = m.run.kinds := by
  rw [Machine.spelling, List.map_map]
  rfl

theorem Reaches.spelling (h : m.Reaches ps m') (hm : m.Coherent) (hs : m.Stands source before) :
    m.spelling = Piece.spelled ps ++ m'.spelling := by
  rw [Machine.spelling, h.tokens_run hm hs, List.map_append, Piece.spelled_tokens]
  rfl

theorem Reaches.items_run (h : m.Reaches ps m') (hm : m.Coherent) (hs : m.Stands source before) :
    m.run.items = (Piece.tokens before ps).map .token ++ m'.run.items := by
  rw [Run.items, h.tokens_run hm hs, h.error?_run, List.map_append, List.append_assoc]
  rfl

/-- A frame for every mode can be told from tokens. -/
theorem exists_marked (fs : List Frame) : ∃ st, Marked fs st := by
  induction fs with
  | nil => exact ⟨[], .nil⟩
  | cons f fs ih =>
    obtain ⟨st, hst⟩ := ih
    cases hk : f.mode.opener? with
    | none => exact ⟨st, .plain hk hst⟩
    | some k => exact ⟨.make k [] f.offset f.line :: st, .bracket hk rfl rfl hst⟩

/-- The brackets among the open modes are told by the kinds of the tokens of a step. -/
theorem Coherent.openBrackets_step (hm : m.Coherent) :
    openBrackets (StyleLex.brackets m.openModes) m.step.kinds =
      some (StyleLex.brackets m.step.machine.openModes) := by
  obtain ⟨st, hst⟩ := exists_marked m.modes.frames
  obtain ⟨st', hopen, hst'⟩ := openTokens_perform hm.brackets hst
  have hkinds := openBrackets_kinds st m.step.tokens
  rw [show openTokens st m.step.tokens = some st' from hopen, hst.kinds] at hkinds
  exact hkinds.trans (congrArg some hst'.kinds)

end Machine

end StyleLex

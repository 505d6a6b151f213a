import StyleLex.Proofs.SpacedStates
import StyleLex.Proofs.StatementStarts
import StyleLex.Proofs.WrittenText

/-!
# Runs without positions

What a machine does depends on its state, the open modes, the compound and the text ahead. So a run can
be followed on these alone, and only the places of its tokens are left out.
-/
namespace StyleLex

/-- All that a state depends on, besides the options. -/
structure Outlook where
  /-- The open modes, innermost first. -/
  modes : List Mode
  compound : Compound
  rest : Text

namespace Outlook

def view (c : Config) (o : Outlook) : View :=
  ⟨c, topMode o.modes, topMode o.modes.tail, o.compound, o.rest⟩

@[simp] theorem view_config (c : Config) (o : Outlook) : (o.view c).config = c := rfl

@[simp] theorem view_compound (c : Config) (o : Outlook) : (o.view c).compound = o.compound := rfl

@[simp] theorem view_rest (c : Config) (o : Outlook) : (o.view c).rest = o.rest := rfl

end Outlook

variable {c : Config} {st : State} {o : Outlook} {ks : List (Kind × Text)}

namespace Machine

variable {m : Machine}

/-- What can be said of the machine without positions. -/
structure Faces (c : Config) (st : State) (o : Outlook) (m : Machine) : Prop where
  config : m.config = c
  state : m.state = st
  modes : m.openModes = o.modes
  compound : m.compound = o.compound
  rest : m.cursor.rest = o.rest

theorem Faces.view_eq (h : m.Faces c st o) : m.view = o.view c := by
  rw [Outlook.view, ← h.config, ← h.modes, ← h.compound, ← h.rest, ← openModes_leave,
    topMode_openModes, topMode_openModes]
  rfl

theorem Faces.script_eq (h : m.Faces c st o) : m.script = .ofState st (o.view c) := by
  rw [script, h.state, h.view_eq]

theorem faces_start (c : Config) (source : Text) :
    (start c source).Faces c .statement ⟨[], .detached, source⟩ := by
  constructor <;> rfl

end Machine

/-- Every machine that faces `o` in the state gets to the end of its text, over tokens of these kinds
and texts. -/
def State.Expects (c : Config) (st : State) (o : Outlook) (ks : List (Kind × Text)) : Prop :=
  ∀ m : Machine, m.Faces c st o → ∃ ps p, m.Reaches ps p ∧ p.state = .done ∧ Piece.spelled ps = ks

/-- The script in front of `o`, and the states behind it, get to the end of the text over these
tokens. -/
inductive Script.Expects (c : Config) : Script → Outlook → List (Kind × Text) → Prop where
  | skip {t y : Text} {s : Script} {ms : List Mode} {g : Compound} {ks : List (Kind × Text)}
      (behind : Expects c s ⟨ms, g, y⟩ ks) : Expects c (.skip t s) ⟨ms, g, t ++ y⟩ ks
  | emit {k : Kind} {t y : Text} {s : Script} {ms : List Mode} {g : Compound}
      {ks : List (Kind × Text)} (behind : Expects c s ⟨ms, g, y⟩ ks) :
      Expects c (.emit k t s) ⟨ms, g, t ++ y⟩ ((k, t) :: ks)
  | enter {mode : Mode} {y : Text} {s : Script} {ms : List Mode} {g : Compound}
      {ks : List (Kind × Text)} (behind : Expects c s ⟨mode :: ms, g, y⟩ ks) :
      Expects c (.enter mode s) ⟨ms, g, y⟩ ks
  | leave {mode : Mode} {y : Text} {s : Script} {ms : List Mode} {g : Compound}
      {ks : List (Kind × Text)} (behind : Expects c s ⟨ms, g, y⟩ ks) :
      Expects c (.leave s) ⟨mode :: ms, g, y⟩ ks
  | note {y : Text} {s : Script} {ms : List Mode} {g g' : Compound} {ks : List (Kind × Text)}
      (behind : Expects c s ⟨ms, g', y⟩ ks) : Expects c (.note g' s) ⟨ms, g, y⟩ ks
  | goto {st : State} {o : Outlook} {ks : List (Kind × Text)} (behind : st.Expects c o ks) :
      Expects c (.goto st) o ks
  | resume {y : Text} {ms : List Mode} {g : Compound} {ks : List (Kind × Text)}
      (behind : (State.ofMode (topMode ms)).Expects c ⟨ms, g, y⟩ ks) :
      Expects c .resume ⟨ms, g, y⟩ ks

namespace Machine

variable {m : Machine} {s : Script}

/-- The machine behind the script gets to the end over the tokens that the script leaves. -/
theorem exists_perform (h : s.Expects c o ks) (hm : m.Faces c st o) :
    (perform s m).error? = none ∧ ∃ ps p, (perform s m).machine.Reaches ps p ∧ p.state = .done ∧
      Piece.spelled s.pieces ++ Piece.spelled ps = ks := by
  induction h generalizing m with
  | @skip t y s ms g ks _ ih =>
    exact ih (m := m.skip t)
      ⟨hm.config, hm.state, hm.modes, hm.compound, rest_skip_of_eq hm.rest⟩
  | @emit k t y s ms g ks _ ih =>
    obtain ⟨ok, ps, p, hreaches, hdone, hspelled⟩ := ih (m := (m.take t).2)
      ⟨hm.config, hm.state, hm.modes, hm.compound, rest_take_of_eq hm.rest⟩
    exact ⟨ok, ps, p, hreaches, hdone, congrArg ((k, t) :: ·) hspelled⟩
  | @enter mode y s ms g ks _ ih =>
    exact ih (m := m.enter mode)
      ⟨hm.config, hm.state, congrArg (mode :: ·) hm.modes, hm.compound, hm.rest⟩
  | @leave mode y s ms g ks _ ih =>
    have hmodes : m.leave.openModes = ms := by rw [openModes_leave, hm.modes, List.tail_cons]
    exact ih (m := m.leave) ⟨hm.config, hm.state, hmodes, hm.compound, hm.rest⟩
  | @note y s ms g g' ks _ ih =>
    exact ih (m := m.note g') ⟨hm.config, hm.state, hm.modes, rfl, hm.rest⟩
  | @goto st o ks behind =>
    constructor
    · rfl
    · exact behind (m.goto st) ⟨hm.config, rfl, hm.modes, hm.compound, hm.rest⟩
  | @resume y ms g ks behind =>
    constructor
    · rfl
    · have hstate : m.resume.state = .ofMode (topMode ms) := by
        rw [← show m.openModes = ms from hm.modes, topMode_openModes]
        rfl
      exact behind m.resume ⟨hm.config, hstate, hm.modes, hm.compound, hm.rest⟩

end Machine

/-- A state expects what its script expects. -/
theorem State.expects_of_script (running : st ≠ .done)
    (h : (Script.ofState st (o.view c)).Expects c o ks) : st.Expects c o ks := by
  intro m hm
  rw [← hm.script_eq] at h
  obtain ⟨ok, ps, p, hreaches, hdone, hspelled⟩ := Machine.exists_perform h hm
  refine ⟨m.script.pieces ++ ps, p, .step (hm.state ▸ running) ok hreaches, hdone, ?_⟩
  rw [Piece.spelled_append, hspelled]

namespace Script

variable {next : Text → Script} {k : Kind} {a : Char} {y : Text} {ms : List Mode} {g : Compound}

theorem expects_skipSpaces (x : Spaces) (stop : y.Stops isSpace)
    (h : (next y).Expects c ⟨ms, g, y⟩ ks) :
    (skipSpaces (x.text ++ y) next).Expects c ⟨ms, g, x.text ++ y⟩ ks := by
  rw [skipSpaces_of_munch (x.munch stop)]
  exact h.skip

theorem expects_sigil (x : Name) (stop : y.Stops isNameChar) (h : (next y).Expects c ⟨ms, g, y⟩ ks) :
    (sigil k a (x.text ++ y) next).Expects c ⟨ms, g, a :: (x.text ++ y)⟩ ((k, a :: x.text) :: ks) := by
  rw [sigil_of_munch (x.munch stop) x.ne]
  exact h.emit

theorem expects_quoted (x : QuotedText) (h : (next y).Expects c ⟨ms, g, y⟩ ks) :
    (quoted x.quote (x.body ++ x.quote :: y) next).Expects c ⟨ms, g, x.print ++ y⟩
      ((.quotedString, x.body) :: ks) := by
  have hprint : x.print ++ y = [x.quote] ++ (x.body ++ ([x.quote] ++ y)) := by
    simp [QuotedText.print]
  rw [quoted_of_split x.free, hprint]
  exact h.skip.emit.skip

end Script

theorem State.expects_done (c : Config) (o : Outlook) : State.done.Expects c o [] :=
  fun m hm => ⟨[], m, .refl m, hm.state, rfl⟩

/-- What is expected of a text are the tokens that it has. -/
theorem tokenize_of_expects {source : Text}
    (h : State.statement.Expects c ⟨[], .detached, source⟩ ks) :
    ∃ ts, tokenize c source = .ok ts ∧ ts.map (fun t => (t.kind, t.text)) = ks := by
  obtain ⟨ps, p, hreaches, hdone, hspelled⟩ := h _ (Machine.faces_start c source)
  have hend := Machine.run_of_done hdone
  refine ⟨_, tokenize_of_run ?_, ?_⟩
  · rw [hreaches.error?_run, hend]
  · have hspelling :=
      hreaches.spelling (Machine.coherent_start c source) (Machine.stands_start c source)
    rw [hspelled, Machine.spelling, Machine.spelling, hend] at hspelling
    exact hspelling.trans (List.append_nil ks)

end StyleLex

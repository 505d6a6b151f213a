import StyleLex.Proofs.FaultCauses
import StyleLex.Proofs.RunSteps

/-!
# Runs that start behind other text

A machine that starts further behind in a text does the same, and everything it hands over is as much
further behind.
-/
namespace StyleLex

/-- The lexeme with `bytes` and `lines` more in front of it. -/
def Lexeme.shift (bytes lines : Nat) (l : Lexeme) : Lexeme :=
  { l with offset := l.offset + bytes, line := l.line + lines }

def Token.shift (bytes lines : Nat) (t : Token) : Token := ⟨t.toLexeme.shift bytes lines, t.kind⟩

def LexError.shift (bytes lines : Nat) (e : LexError) : LexError :=
  { e with offset := e.offset + bytes, line := e.line + lines }

def Item.shift (bytes lines : Nat) : Item → Item
  | .token t => .token (t.shift bytes lines)
  | .error e => .error (e.shift bytes lines)

def Cursor.shift (bytes lines : Nat) (c : Cursor) : Cursor :=
  { c with
    pos := c.pos + bytes
    line := c.line + lines
    start := c.start + bytes
    startLine := c.startLine + lines }

def Frame.shift (bytes lines : Nat) (f : Frame) : Frame :=
  { f with offset := f.offset + bytes, line := f.line + lines }

/-- The top level is always opened at the start of the whole text. -/
def ModeStack.shift (bytes lines : Nat) (s : ModeStack) : ModeStack :=
  ⟨s.frames.map (Frame.shift bytes lines)⟩

def Machine.shift (bytes lines : Nat) (m : Machine) : Machine :=
  { m with cursor := m.cursor.shift bytes lines, modes := m.modes.shift bytes lines }

def Run.shift (bytes lines : Nat) (r : Run) : Run :=
  ⟨r.tokens.map (Token.shift bytes lines), r.error?.map (LexError.shift bytes lines),
    r.machine.shift bytes lines⟩

variable {b l : Nat} {t : Text} {m : Machine} {s : Script}

theorem Cursor.shift_advance (t : Text) (c : Cursor) :
    (c.shift b l).advance t = (c.advance t).shift b l := by
  simp only [Cursor.shift, advance, mk.injEq, true_and, and_true]
  omega

namespace ModeStack

theorem top_shift (s : ModeStack) : (s.shift b l).top = s.top := by
  obtain ⟨fs⟩ := s
  cases fs <;> rfl

theorem pop_shift (s : ModeStack) : (s.shift b l).pop.2 = s.pop.2.shift b l := by
  obtain ⟨fs⟩ := s
  cases fs <;> rfl

theorem topFrame_shift {s : ModeStack} (h : s.frames ≠ []) :
    (s.shift b l).topFrame = s.topFrame.shift b l := by
  obtain ⟨fs⟩ := s
  cases fs with
  | nil => exact absurd rfl h
  | cons f fs => rfl

end ModeStack

namespace Run

theorem shift_handOver (t : Token) (r : Run) :
    (r.handOver t).shift b l = (r.shift b l).handOver (t.shift b l) := rfl

theorem shift_followedBy (r next : Run) :
    (r.followedBy next).shift b l = (r.shift b l).followedBy (next.shift b l) := by
  obtain ⟨ts, e?, m⟩ := r
  cases e? <;> simp [Run.shift, followedBy]

theorem items_shift (r : Run) : (r.shift b l).items = r.items.map (Item.shift b l) := by
  obtain ⟨ts, e?, m⟩ := r
  cases e? <;> simp [Run.shift, items, Item.shift, Function.comp_def]

end Run

namespace Script

variable {c : Config} {ms : List Mode} {v : View} {rest : Text}

/-- Where the script reports the place at which the innermost mode was opened, there is one. -/
def Opened : Script → List Mode → Prop
  | .skip _ s, ms | .emit _ _ s, ms | .note _ s, ms => s.Opened ms
  | .enter mode s, ms => s.Opened (mode :: ms)
  | .leave s, ms => s.Opened ms.tail
  | .goto _, _ | .resume, _ => True
  | .fail _ f, ms => f.site = .opener → ms ≠ []

theorem Faults.opened (hs : s.Faults c ms rest) : s.Opened ms := by
  induction hs with
  | skip _ _ ih => exact ih
  | emit _ _ ih => exact ih
  | enter _ ih => exact ih
  | leave _ ih => exact ih
  | note _ ih => exact ih
  | goto => trivial
  | resume => trivial
  | fail justified =>
    cases justified with
    | opener _ bracket =>
      rintro - rfl
      cases bracket
    | _ => exact nofun

theorem ArgumentsForm.opened (hs : ArgumentsForm v s) (h : ms ≠ []) : s.Opened ms := by
  cases hs with
  | unclosed => exact fun _ => h
  | empty => trivial
  | arguments => trivial

theorem opened_ofState {st : State} (hv : v.Shows c ms) (h : st.Fits c ms) :
    (ofState st v).Opened ms := by
  by_cases hst : st = .pseudoArguments
  · subst hst
    refine (pseudoArguments_form v).opened ?_
    cases h
    exact nofun
  · exact (faults_ofState hv h hst).opened

end Script

namespace Machine

theorem shift_skip (t : Text) (m : Machine) : (m.shift b l).skip t = (m.skip t).shift b l := by
  simp only [shift, skip, Cursor.shift_advance]
  rfl

theorem shift_take (t : Text) (m : Machine) :
    (m.shift b l).take t = ((m.take t).1.shift b l, (m.take t).2.shift b l) := by
  simp only [shift, take, Cursor.shift_advance]
  rfl

theorem shift_leave (m : Machine) : (m.shift b l).leave = m.leave.shift b l := by
  simp only [shift, leave, ModeStack.pop_shift]

theorem shift_stop (t : Text) (m : Machine) : (m.shift b l).stop t = (m.stop t).shift b l := by
  simp only [shift, stop, Cursor.shift_advance]

theorem shift_resume (m : Machine) : (m.shift b l).resume = m.resume.shift b l := by
  simp only [shift, resume, goto, ModeStack.top_shift]

/-- A fault is reported further behind, as the machine is. The top level opens nothing. -/
theorem locate_shift {f : Fault} (h : f.site = .opener → m.modes.frames ≠ []) :
    (m.shift b l).locate f = (m.locate f).shift b l := by
  obtain ⟨cause, site⟩ := f
  cases site with
  | scan => simp only [locate, shift, ModeStack.top_shift, LexError.shift, Cursor.shift]
  | lexeme => simp only [locate, shift, ModeStack.top_shift, LexError.shift, Cursor.shift]
  | opener =>
    have hframe : (m.modes.shift b l).topFrame = m.modes.topFrame.shift b l :=
      ModeStack.topFrame_shift (h rfl)
    simp only [locate, shift, ModeStack.top_shift, hframe, LexError.shift, Frame.shift]

theorem perform_shift (hs : s.Opened m.openModes) :
    perform s (m.shift b l) = (perform s m).shift b l := by
  induction s generalizing m with
  | skip t s ih =>
    rw [perform, shift_skip]
    exact ih (m := m.skip t) hs
  | emit k t s ih =>
    rw [perform, perform, shift_take, Run.shift_handOver, ih (m := (m.take t).2) hs]
    rfl
  | enter mode s ih => exact ih (m := m.enter mode) hs
  | leave s ih =>
    rw [Script.Opened, ← openModes_leave] at hs
    rw [perform, shift_leave]
    exact ih hs
  | note g s ih => exact ih (m := m.note g) hs
  | goto => rfl
  | resume =>
    rw [perform, shift_resume]
    rfl
  | fail t f =>
    have hopen : f.site = .opener → (m.stop t).modes.frames ≠ [] :=
      fun hsite hnil => hs hsite (congrArg (List.map Frame.mode) hnil)
    rw [perform, shift_stop, locate_shift hopen]
    rfl

theorem script_shift (m : Machine) : (m.shift b l).script = m.script := by
  have houter : (m.modes.shift b l).outer = m.modes.outer := by
    rw [ModeStack.outer, ModeStack.pop_shift, ModeStack.top_shift, ModeStack.outer]
  simp only [script, view, shift, ModeStack.top_shift, houter]
  rfl

theorem Coherent.step_shift (hm : m.Coherent) : (m.shift b l).step = m.step.shift b l := by
  rw [Machine.step, script_shift]
  exact perform_shift (Script.opened_ofState hm.view_shows hm.fits)

theorem Coherent.run_shift (hm : m.Coherent) : (m.shift b l).run = m.run.shift b l := by
  induction m using run_induction with
  | done m hdone =>
    rw [run_of_done hdone, run_of_done (m := m.shift b l) hdone]
    rfl
  | error m hdone he =>
    have he' : (m.shift b l).step.error? ≠ none := by
      rw [hm.step_shift, Run.shift, Option.map_eq_none_iff.ne]
      exact he
    rw [run_of_error he', run_of_error he, hm.step_shift]
  | step m hdone he ih =>
    rw [run_eq, hm.step_shift, run_eq m, Run.shift_followedBy]
    exact congrArg _ (ih (hm.step he))

end Machine

end StyleLex

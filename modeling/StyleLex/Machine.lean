import StyleLex.StatementScripts
import StyleLex.Token

/-!
# The lexing machine

The machine performs the script of its state on a cursor, which gives the tokens their places.
-/
namespace StyleLex

structure Machine where
  config : Config
  cursor : Cursor
  modes : ModeStack
  state : State
  compound : Compound
  deriving DecidableEq

/-- The tokens handed over, the error that stopped the machine if one did, and the machine then. -/
structure Run where
  tokens : List Token
  error? : Option LexError
  machine : Machine
  deriving DecidableEq

/-- What a consumer receives: a token, or the error behind the last one. -/
inductive Item where
  | token (t : Token)
  | error (e : LexError)
  deriving DecidableEq

namespace Run

def items (r : Run) : List Item := r.tokens.map .token ++ r.error?.toList.map .error

def handOver (t : Token) (r : Run) : Run := { r with tokens := t :: r.tokens }

/-- Goes on with another run behind this one. -/
def followedBy (r next : Run) : Run :=
  ⟨r.tokens ++ next.tokens, r.error?.or next.error?, next.machine⟩

end Run

namespace Machine

def start (config : Config) (source : Text) : Machine :=
  ⟨config, .ofText source, .empty, .statement, .detached⟩

def view (m : Machine) : View := ⟨m.config, m.modes.top, m.modes.outer, m.compound, m.cursor.rest⟩

def script (m : Machine) : Script := .ofState m.state m.view

/-- How far the text has been scanned. -/
def offset (m : Machine) : Nat := m.cursor.pos

def depth (m : Machine) : Nat := m.modes.depth

def skip (t : Text) (m : Machine) : Machine := { m with cursor := (m.cursor.advance t).ignore }

/-- The lexeme that ends behind `t`, and the machine behind it. -/
def take (t : Text) (m : Machine) : Lexeme × Machine :=
  let taken := (m.cursor.advance t).takeLexeme
  (taken.1, { m with cursor := taken.2 })

/-- A mode is opened where the pending lexeme starts. -/
def enter (mode : Mode) (m : Machine) : Machine :=
  { m with modes := m.modes.push ⟨mode, m.cursor.start, m.cursor.startLine⟩ }

def leave (m : Machine) : Machine := { m with modes := m.modes.pop.2 }

def note (c : Compound) (m : Machine) : Machine := { m with compound := c }

def goto (s : State) (m : Machine) : Machine := { m with state := s }

def resume (m : Machine) : Machine := m.goto (.ofMode m.modes.top)

def stop (scanned : Text) (m : Machine) : Machine :=
  { m with cursor := m.cursor.advance scanned, state := .done }

/-- A fault becomes an error at its place, in the innermost mode. -/
def locate (f : Fault) (m : Machine) : LexError :=
  match f.site with
  | .scan => ⟨f.cause, m.cursor.pos, m.cursor.line, m.modes.top⟩
  | .lexeme => ⟨f.cause, m.cursor.start, m.cursor.startLine, m.modes.top⟩
  | .opener => ⟨f.cause, m.modes.topFrame.offset, m.modes.topFrame.line, m.modes.top⟩

@[simp] theorem rest_skip (t : Text) (m : Machine) :
    (m.skip t).cursor.rest = m.cursor.rest.drop t.length := rfl

@[simp] theorem rest_take (t : Text) (m : Machine) :
    (m.take t).2.cursor.rest = m.cursor.rest.drop t.length := rfl

@[simp] theorem depth_skip (t : Text) (m : Machine) : (m.skip t).depth = m.depth := rfl

@[simp] theorem depth_take (t : Text) (m : Machine) : (m.take t).2.depth = m.depth := rfl

@[simp] theorem depth_enter (mode : Mode) (m : Machine) : (m.enter mode).depth = m.depth + 1 := rfl

@[simp] theorem depth_leave (m : Machine) : m.leave.depth = m.depth - 1 := m.modes.depth_pop

def perform : Script → Machine → Run
  | .skip t s, m => perform s (m.skip t)
  | .emit k t s, m => (perform s (m.take t).2).handOver ⟨(m.take t).1, k⟩
  | .enter mode s, m => perform s (m.enter mode)
  | .leave s, m => perform s m.leave
  | .note c s, m => perform s (m.note c)
  | .goto s, m => ⟨[], none, m.goto s⟩
  | .resume, m => ⟨[], none, m.resume⟩
  | .fail t f, m => ⟨[], some ((m.stop t).locate f), m.stop t⟩

/-- Performs the script of the machine's state. -/
def step (m : Machine) : Run := perform m.script m

/-- How a script goes on: up to its next token, to an error, or to its end. -/
inductive Progress where
  | token (t : Token) (next : Script) (m : Machine)
  | error (e : LexError) (m : Machine)
  | settled (m : Machine)

def proceed : Script → Machine → Progress
  | .skip t s, m => proceed s (m.skip t)
  | .emit k t s, m => .token ⟨(m.take t).1, k⟩ s (m.take t).2
  | .enter mode s, m => proceed s (m.enter mode)
  | .leave s, m => proceed s m.leave
  | .note c s, m => proceed s (m.note c)
  | .goto s, m => .settled (m.goto s)
  | .resume, m => .settled m.resume
  | .fail t f, m => .error ((m.stop t).locate f) (m.stop t)

namespace Progress

/-- The run of a script that has come this far. -/
def run : Progress → Run
  | .token t s m => (perform s m).handOver t
  | .error e m => ⟨[], some e, m⟩
  | .settled m => ⟨[], none, m⟩

end Progress

/-- Performing a script at once and token by token is the same. -/
theorem run_proceed (s : Script) (m : Machine) : (proceed s m).run = perform s m := by
  induction s generalizing m with
  | skip t s ih => exact ih _
  | emit k t s ih => rfl
  | enter mode s ih => exact ih _
  | leave s ih => exact ih _
  | note c s ih => exact ih _
  | goto s => rfl
  | resume => rfl
  | fail t f => rfl

theorem perform_of_settled {s : Script} {m m' : Machine} (h : proceed s m = .settled m') :
    perform s m = ⟨[], none, m'⟩ := by
  rw [← run_proceed, h, Progress.run]

end Machine

end StyleLex

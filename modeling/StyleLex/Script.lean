import StyleLex.CharClass
import StyleLex.Config
import StyleLex.Kind
import StyleLex.LexError
import StyleLex.Text

/-!
# Scripts of the lexer's states

A state looks at the text ahead and answers with a script: what to move over, which tokens to hand
over, which modes to open and close, and the state that follows. A script knows no positions, so one
script serves a whole run, a run token by token, and a run that is cut off in the middle.
-/
namespace StyleLex

inductive State where
  /-- At the top level or in a block, in front of a statement. -/
  | statement
  | atRule
  /-- A variable and the colon behind it. -/
  | assignment
  | property | selector | attribute | pseudoArguments | value | interpolation
  | done
  deriving DecidableEq

namespace State

/-- The state that goes on with the text in a mode. -/
def ofMode : Mode → State
  | .topLevel | .block => .statement
  | .selector => .selector
  | .attribute => .attribute
  | .pseudoArguments => .pseudoArguments
  | .value | .functionArguments => .value
  | .interpolation => .interpolation

end State

/-- What the next simple selector of a compound stands behind. -/
inductive Glue where
  | detached | simple | attribute | interpolation
  deriving DecidableEq

/-- The compound selector read so far. -/
structure Compound where
  glue : Glue
  /-- The kind of its last simple selector. -/
  kind? : Option Kind
  deriving DecidableEq

namespace Compound

def detached : Compound := ⟨.detached, none⟩

/-- Whether a simple selector that begins with `c` needs glue in front of it. -/
def gluesTo (c : Char) (g : Compound) : Bool :=
  match g.glue with
  | .detached => false
  | .attribute => c ≠ '['
  | .simple | .interpolation => true

end Compound

/-- What a state sees. -/
structure View where
  config : Config
  /-- The innermost mode. -/
  top : Mode
  /-- The mode around it. -/
  outer : Mode
  compound : Compound
  /-- The text ahead. -/
  rest : Text
  deriving DecidableEq

namespace View

def inCall (v : View) : Bool := v.top = .functionArguments

end View

/-- The place an error is reported at: where the scan stopped, where the lexeme in question starts,
or where the innermost mode was opened. -/
inductive Site where
  | scan | lexeme | opener
  deriving DecidableEq

structure Fault where
  cause : Cause
  site : Site
  deriving DecidableEq

namespace Fault

def unexpected (rest : Text) : Fault := ⟨.unexpected rest.head?, .scan⟩

/-- A mode that the text ahead cannot go on with. At the end of the text a bracket was left open. -/
def unclosed (m : Mode) (rest : Text) : Fault :=
  match rest, m.closer? with
  | [], some c => ⟨.unterminatedLiteral c, .opener⟩
  | _, _ => unexpected rest

end Fault

inductive Script where
  | skip (text : Text) (next : Script)
  | emit (kind : Kind) (text : Text) (next : Script)
  | enter (mode : Mode) (next : Script)
  | leave (next : Script)
  | note (compound : Compound) (next : Script)
  | goto (state : State)
  /-- Goes on with the state of the innermost mode. -/
  | resume
  /-- Moves over `scanned` without a token, and stops the run. -/
  | fail (scanned : Text) (fault : Fault)
  deriving DecidableEq

namespace Script

/-- Passes over the spaces ahead. -/
def skipSpaces (rest : Text) (next : Text → Script) : Script :=
  .skip (rest.takeWhile isSpace) (next (rest.dropWhile isSpace))

/-- A token of one character and the name behind it, which must not be empty. -/
def sigil (kind : Kind) (c : Char) (rest : Text) (next : Text → Script) : Script :=
  let name := rest.takeWhile isNameChar
  if name = [] then .fail [c] (.unexpected rest)
  else .emit kind (c :: name) (next (rest.dropWhile isNameChar))

end Script

end StyleLex

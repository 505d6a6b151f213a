/-!
# Modes and the stack of open modes

A mode is the construct that the text is read in. The top level is always open, below all others.
-/
namespace StyleLex

inductive Mode where
  | topLevel | selector | attribute | block | value | interpolation
  | pseudoArguments | functionArguments
  deriving DecidableEq

namespace Mode

instance : Inhabited Mode := ⟨.topLevel⟩

def all : List Mode :=
  [.topLevel, .selector, .attribute, .block, .value, .interpolation, .pseudoArguments,
    .functionArguments]

def name : Mode → String
  | .topLevel => "TopLevel" | .selector => "Selector" | .attribute => "Attribute"
  | .block => "Block" | .value => "Value" | .interpolation => "Interpolation"
  | .pseudoArguments => "PseudoArguments" | .functionArguments => "FunctionArguments"

def ofName? (s : String) : Option Mode := all.find? fun m => m.name = s

/-- The character that closes the mode, if a bracket opened it. -/
def closer? : Mode → Option Char
  | .block | .interpolation => some '}'
  | .attribute => some ']'
  | .pseudoArguments | .functionArguments => some ')'
  | .topLevel | .selector | .value => none

def describe : Mode → String
  | .topLevel => "at top level"
  | .selector => "in a selector"
  | .attribute => "in an attribute selector"
  | .block => "in a rule block"
  | .value => "in a value"
  | .interpolation => "in an interpolation"
  | .pseudoArguments => "in pseudo selector arguments"
  | .functionArguments => "in function arguments"

theorem mem_all (m : Mode) : m ∈ all := by cases m <;> decide

theorem ofName?_name (m : Mode) : ofName? m.name = some m := by cases m <;> decide

end Mode

/-- A mode with the place where it was opened. -/
structure Frame where
  mode : Mode
  offset : Nat
  line : Nat
  deriving DecidableEq

namespace Frame

def bottom : Frame := ⟨.topLevel, 0, 1⟩

end Frame

/-- The modes open above the top level, innermost first. -/
structure ModeStack where
  frames : List Frame
  deriving DecidableEq

namespace ModeStack

def empty : ModeStack := ⟨[]⟩

def push (f : Frame) (s : ModeStack) : ModeStack := ⟨f :: s.frames⟩

/-- The top level is never popped. -/
def pop (s : ModeStack) : Option Frame × ModeStack := (s.frames.head?, ⟨s.frames.tail⟩)

def topFrame (s : ModeStack) : Frame := s.frames.headD .bottom

def top (s : ModeStack) : Mode := s.topFrame.mode

/-- The mode around the innermost one. -/
def outer (s : ModeStack) : Mode := s.pop.2.top

def depth (s : ModeStack) : Nat := s.frames.length

@[simp] theorem depth_push (f : Frame) (s : ModeStack) : (s.push f).depth = s.depth + 1 := rfl

@[simp] theorem depth_pop (s : ModeStack) : s.pop.2.depth = s.depth - 1 := by
  simp [pop, depth]

@[simp] theorem top_push (f : Frame) (s : ModeStack) : (s.push f).top = f.mode := rfl

@[simp] theorem pop_push (f : Frame) (s : ModeStack) : (s.push f).pop = (some f, s) := rfl

@[simp] theorem outer_push (f : Frame) (s : ModeStack) : (s.push f).outer = s.top := rfl

end ModeStack

end StyleLex

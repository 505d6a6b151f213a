import StyleLex.Checkpoint
import StyleLex.Mode

/-! # Mode stack operations as data, on a stack with one copy put aside -/
namespace StyleLex.ModeStack

inductive Operation where
  | push (frame : Frame) | pop | save | restore

namespace Operation

/-- The popped frame is the answer; the other operations have none. -/
def run : Operation → Checkpoint ModeStack → Option Frame × Checkpoint ModeStack
  | .push f, s => s.edit fun m => (none, m.push f)
  | .pop, s => s.edit ModeStack.pop
  | .save, s => (none, s.save)
  | .restore, s => (none, s.restore)

/-- The answers of a sequence of operations, each with the stack after it. -/
def trace : List Operation → Checkpoint ModeStack → List (Option Frame × ModeStack)
  | [], _ => []
  | o :: os, s => ((o.run s).1, (o.run s).2.current) :: trace os (o.run s).2

end Operation

end StyleLex.ModeStack

/-! # A value together with one copy put aside -/
namespace StyleLex

structure Checkpoint (α : Type) where
  current : α
  saved : α

namespace Checkpoint

variable {α β : Type}

def new (a : α) : Checkpoint α := ⟨a, a⟩

def save (c : Checkpoint α) : Checkpoint α := ⟨c.current, c.current⟩

def restore (c : Checkpoint α) : Checkpoint α := ⟨c.saved, c.saved⟩

/-- Runs an operation on the current value; the copy put aside stays. -/
def edit (f : α → β × α) (c : Checkpoint α) : β × Checkpoint α :=
  ((f c.current).1, ⟨(f c.current).2, c.saved⟩)

end Checkpoint

end StyleLex

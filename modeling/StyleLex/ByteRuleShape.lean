import StyleLex.ByteCursor
import StyleLex.RuleShape

/-!
# The shape of a rule, read from bytes

One byte is looked at after the other, at an index that jumps behind quoted strings and interpolations.
A slice that starts behind the end has no result.
-/
namespace StyleLex.Bytes

/-- The bytes from `i` on. -/
def drop? (b : Bytes) (i : Nat) : Option Bytes := if i ≤ b.length then some (b.drop i) else none

/-- The shape of the rule that is ahead at `i`. -/
def shapeFrom? (b : Bytes) (i : Nat) : Option RuleShape :=
  match _ahead : b[i]? with
  | none => some .declaration
  | some a =>
    if a = '{'.toUInt8 then some .block
    else if a = ';'.toUInt8 ∨ a = '}'.toUInt8 then some .declaration
    else if a = '#'.toUInt8 ∧ b[i + 1]? = some '{'.toUInt8 then
      (b.drop? (i + 2)).bind fun behind =>
        match find? ['}'.toUInt8] behind with
        | none => some .declaration
        | some close => shapeFrom? b (i + close + 3)
    else if a = '"'.toUInt8 ∨ a = '\''.toUInt8 then
      (b.drop? (i + 1)).bind fun behind =>
        match find? [a] behind with
        | none => some .declaration
        | some close => shapeFrom? b (i + close + 2)
    else shapeFrom? b (i + 1)
termination_by b.length - i
decreasing_by
  all_goals
    have hlt := (List.getElem?_eq_some_iff.1 _ahead).1
    omega

theorem shapeFrom?_eq (b : Bytes) (i : Nat) : b.shapeFrom? i =
    match b[i]? with
    | none => some .declaration
    | some a =>
      if a = '{'.toUInt8 then some .block
      else if a = ';'.toUInt8 ∨ a = '}'.toUInt8 then some .declaration
      else if a = '#'.toUInt8 ∧ b[i + 1]? = some '{'.toUInt8 then
        (b.drop? (i + 2)).bind fun behind =>
          match find? ['}'.toUInt8] behind with
          | none => some .declaration
          | some close => b.shapeFrom? (i + close + 3)
      else if a = '"'.toUInt8 ∨ a = '\''.toUInt8 then
        (b.drop? (i + 1)).bind fun behind =>
          match find? [a] behind with
          | none => some .declaration
          | some close => b.shapeFrom? (i + close + 2)
      else b.shapeFrom? (i + 1) := by
  rw [shapeFrom?]
  split <;> simp_all

/-- The shape of the rule that begins with the bytes. -/
def shape? (b : Bytes) : Option RuleShape := b.shapeFrom? 0

end StyleLex.Bytes

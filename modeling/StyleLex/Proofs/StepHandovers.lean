import StyleLex.Proofs.StatementForms
import StyleLex.Proofs.StreamCancellation

/-!
# How many tokens one step hands over

The longest script is that of an attribute: its name, an operator, a value and the closing bracket.
-/
namespace StyleLex

namespace Script

variable {rest : Text} {next : Text → Script} {s : Script} {v : View} {kind : Kind} {a : Char} {n : Nat}

section Next

/-! The scripts of literals go on with others. -/

variable (hnext : ∀ t, (next t).handovers ≤ n)

include hnext

theorem SigilForm.handovers_le (hs : SigilForm kind a rest next s) : s.handovers ≤ n + 1 := by
  cases hs with
  | nameless => exact Nat.zero_le _
  | named => exact Nat.succ_le_succ (hnext _)

theorem QuotedForm.handovers_le (hs : QuotedForm a rest next s) : s.handovers ≤ n + 1 := by
  cases hs with
  | unclosed => exact Nat.zero_le _
  | closed => exact Nat.succ_le_succ (hnext _)

theorem UnitForm.handovers_le (hs : UnitForm rest next s) : s.handovers ≤ n + 1 := by
  cases hs with
  | percent | known => exact Nat.succ_le_succ (hnext _)
  | none => exact Nat.le_succ_of_le (hnext _)
  | unknown => exact Nat.zero_le _

theorem NumberForm.handovers_le (hs : NumberForm rest next s) : s.handovers ≤ n + 2 := by
  cases hs with
  | malformed => exact Nat.zero_le _
  | float _ _ _ _ unit => exact Nat.succ_le_succ (unit.handovers_le hnext)
  | integer _ _ _ unit => exact Nat.succ_le_succ (unit.handovers_le hnext)

theorem HexColorForm.handovers_le (hs : HexColorForm rest next s) : s.handovers ≤ n + 1 := by
  cases hs with
  | color => exact Nat.succ_le_succ (hnext _)
  | malformed => exact Nat.zero_le _

theorem ConstantForm.handovers_le {inCall : Bool} (hs : ConstantForm inCall rest next s) :
    s.handovers ≤ n + 1 := by
  cases hs with
  | none => exact Nat.zero_le _
  | word => exact Nat.succ_le_succ (hnext _)

end Next

theorem ComponentForm.handovers_le {after : State} (hs : ComponentForm v after rest s) :
    s.handovers ≤ 2 := by
  have hgoto (t : Text) : (goto after).handovers ≤ 0 := le_rfl
  cases hs with
  | atEnd | stray => exact Nat.zero_le _
  | interpolation | comma | call => exact Nat.le_succ 1
  | reference _ form => exact (form.handovers_le hgoto).trans (Nat.le_succ 1)
  | hexColor _ _ form => exact (form.handovers_le hgoto).trans (Nat.le_succ 1)
  | quoted _ _ form => exact (form.handovers_le hgoto).trans (Nat.le_succ 1)
  | number _ form => exact form.handovers_le hgoto
  | constant _ _ _ _ form => exact (form.handovers_le hgoto).trans (Nat.le_succ 1)

theorem ValueForm.handovers_le (hs : ValueForm v rest s) : s.handovers ≤ 2 := by
  cases hs with
  | endOfText | endInCall | braceInCall | missing | lenient => exact Nat.zero_le _
  | semicolon | endOfCall => exact Nat.le_succ 1
  | component _ _ _ _ form => exact form.handovers_le

theorem CloseForm.handovers_le (hs : CloseForm v s) : s.handovers ≤ 1 := by
  cases hs with
  | selector | value => exact le_rfl

theorem InterpolationForm.handovers_le (hs : InterpolationForm v s) : s.handovers ≤ 2 := by
  cases hs with
  | unclosedSkipped | unclosed => exact Nat.zero_le _
  | skipped _ _ _ close => exact close.handovers_le.trans (Nat.le_succ 1)
  | close _ _ close => exact close.handovers_le.trans (Nat.le_succ 1)
  | component _ _ _ form => exact form.handovers_le

theorem SimpleForm.handovers_le (hs : SimpleForm a rest s) : s.handovers ≤ 1 := by
  cases hs with
  | group | universal | parent | tag => exact le_rfl
  | pseudo _ form =>
    cases form with
    | nameless => exact Nat.zero_le _
    | bare | arguments => exact le_rfl
  | sigil _ form => exact form.handovers_le fun _ => le_rfl

theorem CompoundForm.handovers_le (hs : CompoundForm v a rest s) : s.handovers ≤ 2 := by
  cases hs with
  | interpolation | continued => exact Nat.le_succ 1
  | simple _ _ _ form => exact form.handovers_le.trans (Nat.le_succ 1)
  | glued _ _ _ form => exact Nat.succ_le_succ form.handovers_le
  | stray => exact Nat.zero_le _

theorem SelectorForm.handovers_le (hs : SelectorForm v s) : s.handovers ≤ 2 := by
  cases hs with
  | atEnd => exact Nat.zero_le _
  | combinator | block | comma | descendant => exact Nat.le_succ 1
  | compound _ _ _ _ _ form => exact form.handovers_le

theorem AttributeEndForm.handovers_le (hs : AttributeEndForm v rest s) : s.handovers ≤ 1 := by
  cases hs with
  | closed => exact le_rfl
  | unclosed => exact Nat.zero_le _

theorem AttributeValueForm.handovers_le (hs : AttributeValueForm v rest s) : s.handovers ≤ 2 := by
  have hend (t : Text) : (attributeEnd v t).handovers ≤ 1 := (attributeEnd_form v t).handovers_le
  cases hs with
  | quoted _ _ form =>
    have hbehind (t : Text) : (skipSpaces t (attributeEnd v)).handovers ≤ 1 := hend _
    exact form.handovers_le hbehind
  | bare => exact Nat.succ_le_succ (hend _)
  | missing => exact Nat.zero_le _

theorem AttributeForm.handovers_le (hs : AttributeForm v s) : s.handovers ≤ 4 := by
  cases hs with
  | nameless => exact Nat.zero_le _
  | named _ _ _ _ form =>
    refine Nat.succ_le_succ ?_
    cases form with
    | none _ form => exact form.handovers_le.trans (Nat.le_add_left 1 2)
    | operator _ _ _ form => exact Nat.succ_le_succ form.handovers_le

theorem ArgumentsForm.handovers_le (hs : ArgumentsForm v s) : s.handovers ≤ 1 := by
  cases hs with
  | unclosed | empty => exact Nat.zero_le _
  | arguments => exact le_rfl

theorem StatementForm.handovers_le (hs : StatementForm v rest s) : s.handovers ≤ 2 := by
  cases hs with
  | finished | unclosed | atRule | assignment | unbalanced | property | selector | stray =>
    exact Nat.zero_le _
  | block | close => exact Nat.le_succ 1
  | quoted _ _ form => exact (form.handovers_le fun _ => le_rfl).trans (Nat.le_succ 1)
  | number _ _ form => exact form.handovers_le fun _ => le_rfl

theorem ColonForm.handovers_le (hs : ColonForm rest s) : s.handovers ≤ 1 := by
  cases hs with
  | colon => exact le_rfl
  | missing => exact Nat.zero_le _

theorem StateForm.handovers_le {st : State} (hs : StateForm v st s) : s.handovers ≤ 4 := by
  have htwo : 2 ≤ 4 := Nat.le_add_left 2 2
  cases hs with
  | statement _ form => exact form.handovers_le.trans htwo
  | atRule form =>
    cases form with
    | atEnd | unknown => exact Nat.zero_le _
    | known => exact Nat.le_add_left 1 3
  | assignment form =>
    cases form with
    | atEnd => exact Nat.zero_le _
    | named _ form => exact (form.handovers_le fun t => (colon_form t).handovers_le).trans htwo
  | property form =>
    cases form with
    | atEnd | stray => exact Nat.zero_le _
    | named _ _ _ form => exact (Nat.succ_le_succ form.handovers_le).trans htwo
  | selector form => exact form.handovers_le.trans htwo
  | group form => exact form.handovers_le
  | pseudoArguments form => exact form.handovers_le.trans (Nat.le_add_left 1 3)
  | value _ form => exact form.handovers_le.trans htwo
  | interpolation form => exact form.handovers_le.trans htwo
  | done => exact Nat.zero_le _

end Script

namespace Machine

theorem length_perform (s : Script) (m : Machine) : (perform s m).tokens.length = s.handovers := by
  induction s generalizing m with
  | skip t s ih => exact ih _
  | emit k t s ih => exact congrArg (· + 1) (ih _)
  | enter mode s ih => exact ih _
  | leave s ih => exact ih _
  | note c s ih => exact ih _
  | goto st => rfl
  | resume => rfl
  | fail t f => rfl

theorem length_step_le (m : Machine) : m.step.tokens.length ≤ 4 := by
  rw [step, length_perform]
  exact (Script.ofState_form _ _).handovers_le

end Machine

end StyleLex

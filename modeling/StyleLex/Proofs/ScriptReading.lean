import StyleLex.Proofs.Layout
import StyleLex.Proofs.KindClasses

/-! # Every script reads the text ahead -/
namespace StyleLex.Script

variable {rest tail t : Text} {next : Text → Script} {s : Script} {v : View} {k : Kind} {a : Char}

theorem reads_emit (hk : k ≠ .andCombinator) (ht : t ≠ []) (split : rest = t ++ tail)
    (h : s.Reads tail) : (emit k t s).Reads rest :=
  ⟨Kind.allows_of_ne hk ht, tail, split, h⟩

theorem reads_one (hk : k ≠ .andCombinator) (ahead : rest = a :: tail) (h : s.Reads tail) :
    (emit k [a] s).Reads rest :=
  reads_emit hk (List.cons_ne_nil _ _) ahead h

theorem reads_goto {st : State} (h : st ≠ .done) : (goto st).Reads rest := fun hst => absurd hst h

theorem reads_fail_nil {f : Fault} : (fail [] f).Reads rest := List.nil_prefix

theorem SpacesForm.reads (hs : SpacesForm rest next s) (h : ∀ tail, (next tail).Reads tail) :
    s.Reads rest := by
  cases hs with
  | spaces munch => exact ⟨_, munch.split, h _⟩

theorem SigilForm.reads (hs : SigilForm k a rest next s) (hk : k ≠ .andCombinator)
    (h : ∀ tail, (next tail).Reads tail) : s.Reads (a :: rest) := by
  cases hs with
  | nameless => exact ⟨rest, rfl⟩
  | named munch => exact reads_emit hk (List.cons_ne_nil _ _) (congrArg (a :: ·) munch.split) (h _)

theorem QuotedForm.reads {q : Char} (hs : QuotedForm q rest next s)
    (h : ∀ tail, (next tail).Reads tail) : s.Reads (q :: rest) := by
  cases hs with
  | unclosed => exact ⟨rest, rfl⟩
  | closed split => exact ⟨rest, rfl, ⟨nofun, fun _ => .inr rfl⟩, _, split, _, rfl, h _⟩

theorem UnitForm.reads (hs : UnitForm rest next s) (h : ∀ tail, (next tail).Reads tail) :
    s.Reads rest := by
  cases hs with
  | percent ahead => exact reads_one nofun ahead (h _)
  | none => exact h rest
  | known munch ne => exact reads_emit nofun ne munch.split (h _)
  | unknown munch => exact ⟨_, munch.split.symm⟩

theorem NumberForm.reads (hs : NumberForm rest next s) (h : ∀ tail, (next tail).Reads tail) :
    s.Reads rest := by
  have hpoint {sgn digits t fraction behind : Text} (whole : Whole rest sgn digits ('.' :: t))
      (munch : t.Munch Char.isDigit fraction behind) :
      rest = (sgn ++ digits ++ '.' :: fraction) ++ behind := by
    rw [whole.split, munch.split]
    simp
  cases hs with
  | malformed whole munch => exact ⟨_, (hpoint whole munch).symm⟩
  | float whole munch _ _ unit => exact reads_emit nofun (by simp) (hpoint whole munch) (unit.reads h)
  | integer whole ne _ unit =>
    exact reads_emit nofun (by simp [ne]) (by rw [whole.split, List.append_assoc]) (unit.reads h)

theorem HexColorForm.reads (hs : HexColorForm rest next s) (h : ∀ tail, (next tail).Reads tail) :
    s.Reads ('#' :: rest) := by
  cases hs with
  | color munch =>
    exact reads_emit nofun (List.cons_ne_nil _ _) (congrArg ('#' :: ·) munch.split) (h _)
  | malformed munch => exact ⟨_, (congrArg ('#' :: ·) munch.split).symm⟩

theorem ConstantForm.reads {inCall : Bool} (hs : ConstantForm inCall rest next s)
    (h : ∀ tail, (next tail).Reads tail) : s.Reads rest := by
  cases hs with
  | none => exact reads_fail_nil
  | word word ne => exact reads_emit nofun ne word.split (h _)

theorem reads_openInterpolation (ahead : rest = '#' :: '{' :: t) : openInterpolation.Reads rest :=
  reads_emit nofun (List.cons_ne_nil _ _) ahead (reads_goto nofun)

theorem ComponentForm.reads {after : State} (hs : ComponentForm v after rest s)
    (hafter : after ≠ .done) : s.Reads rest := by
  have hgoto (t : Text) : (goto after).Reads t := reads_goto hafter
  cases hs with
  | atEnd => exact reads_fail_nil
  | reference ahead form => exact ahead ▸ form.reads nofun hgoto
  | interpolation ahead => exact reads_openInterpolation ahead
  | hexColor ahead _ form => exact ahead ▸ form.reads hgoto
  | quoted ahead _ form => exact ahead ▸ form.reads hgoto
  | comma ahead => exact reads_one nofun ahead (hgoto _)
  | call ahead => exact reads_one nofun ahead (reads_goto nofun)
  | stray => exact reads_fail_nil
  | number _ form => exact form.reads hgoto
  | constant _ _ _ _ form => exact form.reads hgoto

theorem ValueForm.reads (hs : ValueForm v rest s) : s.Reads rest := by
  cases hs with
  | endOfText => exact reads_fail_nil
  | endInCall => exact reads_fail_nil
  | braceInCall => exact reads_fail_nil
  | semicolon ahead => exact reads_one nofun ahead trivial
  | missing => exact reads_fail_nil
  | lenient => trivial
  | endOfCall ahead => exact reads_one nofun ahead trivial
  | component _ _ _ _ form => exact form.reads nofun

theorem CloseForm.reads (hs : CloseForm v s) (ahead : rest = '}' :: t) : s.Reads rest := by
  cases hs with
  | selector => exact reads_one nofun ahead trivial
  | value => exact reads_one nofun ahead trivial

theorem InterpolationForm.reads (hs : InterpolationForm v s) : s.Reads v.rest := by
  cases hs with
  | unclosedSkipped => exact reads_fail_nil
  | skipped _ split _ close => exact ⟨_, split, close.reads rfl⟩
  | unclosed _ munch => exact ⟨_, munch.split, reads_fail_nil⟩
  | close _ munch close => exact ⟨_, munch.split, close.reads rfl⟩
  | component _ munch _ form => exact ⟨_, munch.split, form.reads nofun⟩

theorem PseudoForm.reads (hs : PseudoForm rest s) : s.Reads (':' :: rest) := by
  have hname {colons t name tail : Text} (found : Colons rest colons t)
      (munch : t.Munch isNameChar name tail) : ':' :: rest = (colons ++ name) ++ tail := by
    rw [found.split, munch.split, List.append_assoc]
  cases hs with
  | nameless found => exact ⟨_, found.split.symm⟩
  | bare found munch ne =>
    exact reads_emit nofun (by simp [ne]) (hname found munch) (reads_goto nofun)
  | arguments found munch ne =>
    exact reads_emit nofun (by simp [ne]) (hname found munch) ⟨_, rfl, reads_goto nofun⟩

theorem SimpleForm.reads (hs : SimpleForm a rest s) : s.Reads (a :: rest) := by
  have hgoto (k : Kind) (t : Text) : (noteSimple k <| .goto .selector).Reads t := reads_goto nofun
  cases hs with
  | group => exact reads_one nofun rfl (reads_goto nofun)
  | pseudo start form => exact start ▸ form.reads
  | sigil start form =>
    refine form.reads ?_ (hgoto _)
    rintro rfl
    cases isSelector_of_sigilKind? start
  | universal => exact reads_one nofun rfl (hgoto _ _)
  | parent _ munch =>
    exact reads_emit nofun (List.cons_ne_nil _ _) (congrArg (a :: ·) munch.split) (hgoto _ _)
  | tag _ munch =>
    exact reads_emit nofun (List.cons_ne_nil _ _) (congrArg (a :: ·) munch.split) (hgoto _ _)

theorem CompoundForm.reads (hs : CompoundForm v a rest s) (hv : v.compound.kind? ≠ some .andCombinator) :
    s.Reads (a :: rest) := by
  cases hs with
  | interpolation ahead => exact reads_openInterpolation ahead
  | continued _ _ same munch =>
    refine reads_emit ?_ (List.cons_ne_nil _ _) (congrArg (a :: ·) munch.split) (reads_goto nofun)
    cases hk : v.compound.kind? with
    | none => simp [same, hk]
    | some k => simpa [same, hk] using hv
  | simple _ _ _ form => exact form.reads
  | glued _ _ _ form => exact ⟨⟨fun _ => rfl, fun _ => .inl rfl⟩, _, rfl, form.reads⟩
  | stray => exact reads_fail_nil

theorem SelectorForm.reads (hs : SelectorForm v s) (hv : v.compound.kind? ≠ some .andCombinator) :
    s.Reads v.rest := by
  have hdetached (t : Text) : (Script.note .detached <| .goto .selector).Reads t := reads_goto nofun
  cases hs with
  | atEnd munch => exact ⟨_, munch.split.symm⟩
  | combinator munch known behind =>
    refine ⟨_, munch.split, reads_one ?_ rfl ⟨_, behind.split, hdetached _⟩⟩
    rintro rfl
    unfold combinator? at known
    split at known <;> cases known
  | block munch => exact ⟨_, munch.split, reads_one nofun rfl (reads_goto nofun)⟩
  | comma munch => exact ⟨_, munch.split, reads_one nofun rfl (hdetached _)⟩
  | descendant munch _ _ _ ne => exact reads_emit nofun ne munch.split (hdetached _)
  | compound munch _ _ _ _ form => exact ⟨_, munch.split, form.reads hv⟩

theorem AttributeEndForm.reads (hs : AttributeEndForm v rest s) : s.Reads rest := by
  cases hs with
  | closed ahead => exact reads_one nofun ahead (reads_goto nofun)
  | unclosed => exact reads_fail_nil

theorem AttributeValueForm.reads (hs : AttributeValueForm v rest s) : s.Reads rest := by
  have hend (t : Text) : (attributeEnd v t).Reads t := (attributeEnd_form v t).reads
  cases hs with
  | quoted ahead _ form => exact ahead ▸ form.reads fun _ => skipSpaces_form.reads hend
  | bare munch ne behind => exact reads_emit nofun ne munch.split ⟨_, behind.split, hend _⟩
  | missing => exact reads_fail_nil

theorem AttributeTestForm.reads (hs : AttributeTestForm v rest s) : s.Reads rest := by
  cases hs with
  | none _ form => exact form.reads
  | @operator text t gap tail kind s known split behind form =>
    have hknown : kind ≠ .andCombinator ∧ text ≠ [] := by
      simp only [attributeOperators, List.mem_cons, Prod.mk.injEq, List.not_mem_nil, or_false] at known
      rcases known with h | h | h | h | h | h <;> rw [h.1, h.2] <;> decide
    exact reads_emit hknown.1 hknown.2 split ⟨_, behind.split, form.reads⟩

theorem AttributeForm.reads (hs : AttributeForm v s) : s.Reads v.rest := by
  cases hs with
  | nameless munch => exact ⟨_, munch.split, reads_fail_nil⟩
  | named munch run ne behind form =>
    exact ⟨_, munch.split, reads_emit nofun ne run.split ⟨_, behind.split, form.reads⟩⟩

theorem ArgumentsForm.reads (hs : ArgumentsForm v s) : s.Reads v.rest := by
  cases hs with
  | unclosed => exact List.prefix_refl _
  | empty ahead => exact ⟨_, ahead, trivial⟩
  | arguments _ split ne => exact reads_emit nofun ne split ⟨_, rfl, trivial⟩

theorem ColonForm.reads (hs : ColonForm rest s) : s.Reads rest := by
  cases hs with
  | colon munch => exact ⟨_, munch.split, reads_one nofun rfl (reads_goto nofun)⟩
  | missing munch => exact ⟨_, munch.split, reads_fail_nil⟩

theorem StatementForm.reads (hs : StatementForm v rest s) : s.Reads rest := by
  have hgoto (t : Text) : (goto .statement).Reads t := reads_goto nofun
  cases hs with
  | finished ahead => exact fun _ => ahead
  | unclosed => exact reads_fail_nil
  | atRule => exact reads_goto nofun
  | assignment => exact reads_goto nofun
  | block ahead => exact reads_one nofun ahead (hgoto _)
  | close ahead => exact reads_one nofun ahead trivial
  | unbalanced => exact reads_fail_nil
  | quoted ahead _ form => exact ahead ▸ form.reads hgoto
  | number _ _ form => exact form.reads hgoto
  | property => exact reads_goto nofun
  | selector => exact reads_goto nofun
  | stray => exact reads_fail_nil

theorem AtRuleForm.reads (hs : AtRuleForm rest s) : s.Reads rest := by
  cases hs with
  | atEnd => exact reads_fail_nil
  | known ahead munch known =>
    refine reads_emit ?_ (List.cons_ne_nil _ _) (by rw [ahead, munch.split]; rfl) (reads_goto nofun)
    rintro rfl
    cases isAtRule_of_atKeyword? known
  | unknown ahead munch => exact ⟨_, by rw [ahead, munch.split]; rfl⟩

theorem AssignmentForm.reads (hs : AssignmentForm rest s) : s.Reads rest := by
  cases hs with
  | atEnd => exact reads_fail_nil
  | named ahead form => exact ahead ▸ form.reads nofun fun _ => (colon_form _).reads

theorem PropertyForm.reads (hs : PropertyForm rest s) : s.Reads rest := by
  cases hs with
  | atEnd => exact reads_fail_nil
  | named ahead _ munch form =>
    exact reads_emit nofun (List.cons_ne_nil _ _) (by rw [ahead, munch.split]; rfl) form.reads
  | stray => exact reads_fail_nil

theorem reads_ofState {st : State} (hst : st ≠ .done) (hv : v.compound.kind? ≠ some .andCombinator) :
    (ofState st v).Reads v.rest := by
  have hs := ofState_form st v
  generalize ofState st v = s at hs ⊢
  cases hs with
  | statement munch form => exact ⟨_, munch.split, form.reads⟩
  | atRule form => exact form.reads
  | assignment form => exact form.reads
  | property form => exact form.reads
  | selector form => exact form.reads hv
  | group form => exact form.reads
  | pseudoArguments form => exact form.reads
  | value munch form => exact ⟨_, munch.split, form.reads⟩
  | interpolation form => exact form.reads
  | done => exact absurd rfl hst

end StyleLex.Script

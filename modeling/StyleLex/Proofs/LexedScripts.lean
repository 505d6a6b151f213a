import StyleLex.Proofs.LexicalClasses
import StyleLex.Proofs.ModeStackShapes

/-!
# Scripts and lexical classes

Every token of a script has the text of its kind. The builders of literals say so of the text ahead
alone. Only the unit of a number, a word of a value and a name behind an interpolation depend on what
the trail tells.
-/
namespace StyleLex

/-- Every token of the script has the text of its kind, behind the trail and in front of what is left of
the text ahead. -/
def Script.Lexes : Script → Text → Trail → Prop
  | .skip t s, rest, tr => s.Lexes (rest.drop t.length) (tr.pass t)
  | .emit k t s, rest, tr =>
    tr.Spells t (rest.drop t.length) k ∧ s.Lexes (rest.drop t.length) (tr.take k)
  | .enter _ s, rest, tr | .leave s, rest, tr | .note _ s, rest, tr => s.Lexes rest tr
  | .goto _, _, _ | .resume, _, _ | .fail _ _, _, _ => True

variable {rest tail t : Text} {tr : Trail} {v : View} {k : Kind} {a : Char}

namespace Script

variable {next : Text → Script} {s : Script}

theorem lexes_skip (split : rest = t ++ tail) (h : s.Lexes tail (tr.pass t)) :
    (skip t s).Lexes rest tr := by
  rwa [Lexes, split, List.drop_left]

theorem lexes_emit (split : rest = t ++ tail) (spells : tr.Spells t tail k)
    (h : s.Lexes tail (tr.take k)) : (emit k t s).Lexes rest tr := by
  rw [Lexes, split, List.drop_left]
  exact ⟨spells, h⟩

/-- A token that is always the same. -/
theorem lexes_literal (literal : k.literal? = some t) (other : k.isAtRule = false)
    (split : rest = t ++ tail) (h : s.Lexes tail (tr.take k)) : (emit k t s).Lexes rest tr := by
  refine lexes_emit split (Trail.spells_of_literal literal fun rule => ?_) h
  rw [other] at rule
  cases rule

theorem SigilForm.lexes (hs : SigilForm k a rest next s)
    (spells : ∀ t tail, Text.Signed [a] t tail → tr.Spells t tail k)
    (h : ∀ tail (tr : Trail), (next tail).Lexes tail tr) : s.Lexes (a :: rest) tr := by
  cases hs with
  | nameless => trivial
  | @named name tail munch ne =>
    refine lexes_emit (congrArg (a :: ·) munch.split) (spells _ _ ?_) (h _ _)
    exact ⟨name, rfl, .of_munch munch ne⟩

theorem QuotedForm.lexes {q : Char} (hs : QuotedForm q rest next s) (quote : isQuote q = true)
    (h : ∀ tail (tr : Trail), (next tail).Lexes tail tr) : s.Lexes (q :: rest) tr := by
  cases hs with
  | unclosed => trivial
  | @closed body tail split first =>
    have hstring : ((tr.pass [q]).Spells body (q :: tail) .quotedString) :=
      ⟨q, tr.gap, quote, rfl, first, rfl⟩
    exact lexes_skip rfl (lexes_emit split hstring (lexes_skip rfl (h _ _)))

theorem UnitForm.lexes (hs : UnitForm rest next s) (number : tr.BehindNumber)
    (h : ∀ tail (tr : Trail), (next tail).Lexes tail tr) : s.Lexes rest tr := by
  cases hs with
  | percent ahead => exact lexes_emit ahead ⟨⟨rfl, .inl rfl⟩, number⟩ (h _ _)
  | none => exact h _ _
  | known munch ne known =>
    have hsuffix := (NumberUnit.suffix_of_ofSuffix? known).symm
    exact lexes_emit munch.split ⟨⟨hsuffix, .inr (.of_munch munch ne)⟩, number⟩ (h _ _)
  | unknown => trivial

theorem NumberForm.lexes (hs : NumberForm rest next s)
    (h : ∀ tail (tr : Trail), (next tail).Lexes tail tr) : s.Lexes rest tr := by
  cases hs with
  | malformed => trivial
  | @float sgn digits t fraction behind s whole munch ne only unit =>
    have hsplit : rest = (sgn ++ digits ++ '.' :: fraction) ++ behind := by
      rw [whole.split, munch.split]
      simp
    refine lexes_emit hsplit ?_ (unit.lexes ⟨.inr rfl, rfl⟩ h)
    exact ⟨sgn, digits, fraction, rfl, whole.sign, whole.munch.inside, .of_munch munch ne, only⟩
  | @integer sgn digits tail s whole ne ahead unit =>
    have hsplit : rest = (sgn ++ digits) ++ tail := by rw [whole.split, List.append_assoc]
    refine lexes_emit hsplit ?_ (unit.lexes ⟨.inl rfl, rfl⟩ h)
    exact ⟨sgn, digits, rfl, whole.sign, .of_munch whole.munch ne, ahead⟩

theorem HexColorForm.lexes (hs : HexColorForm rest next s)
    (h : ∀ tail (tr : Trail), (next tail).Lexes tail tr) : s.Lexes ('#' :: rest) tr := by
  cases hs with
  | @color digits tail munch size hex =>
    refine lexes_emit (congrArg ('#' :: ·) munch.split) ?_ (h _ _)
    exact ⟨digits, rfl, size, hex, munch.stop⟩
  | malformed => trivial

theorem Word.isWord {inCall : Bool} {w : Text} (h : Word inCall rest w tail) (ne : w ≠ []) :
    w.IsWord inCall tail where
  ne := ne
  inside := by
    intro a ha
    have hinside := h.inside a ha
    simp only [endsWord, Bool.or_eq_false_iff, decide_eq_false_iff_not] at hinside
    obtain ⟨⟨⟨⟨⟨⟨⟨hopen, hclose⟩, hparen⟩, hend⟩, hcomma⟩, hquote⟩, hspace⟩, hsemicolon⟩ := hinside
    refine ⟨hspace, hquote, by simp [hopen, hclose, hparen, hend, hcomma], fun hcall => ?_⟩
    simpa [hcall] using hsemicolon
  stop := by
    intro a ha
    obtain ⟨t, ht⟩ := List.head?_eq_some_iff.1 ha
    exact h.stop a t ht
  whole := h.whole

theorem ConstantForm.lexes {inCall : Bool} (hs : ConstantForm inCall rest next s)
    (call : tr.inCall = inCall) (h : ∀ tail (tr : Trail), (next tail).Lexes tail tr) :
    s.Lexes rest tr := by
  cases hs with
  | none => trivial
  | word word ne =>
    subst call
    exact lexes_emit word.split (word.isWord ne) (h _ _)

theorem lexes_openInterpolation (ahead : rest = '#' :: '{' :: t) : openInterpolation.Lexes rest tr :=
  lexes_literal rfl rfl ahead trivial

theorem ComponentForm.lexes {after : State} (hs : ComponentForm v after rest s)
    (call : tr.inCall = v.inCall) : s.Lexes rest tr := by
  have hnext (tail : Text) (tr : Trail) : (goto after).Lexes tail tr := trivial
  cases hs with
  | atEnd => trivial
  | reference ahead form => exact ahead ▸ form.lexes (fun _ _ h => h) hnext
  | interpolation ahead => exact lexes_openInterpolation ahead
  | hexColor ahead _ form => exact ahead ▸ form.lexes hnext
  | quoted ahead quote form => exact ahead ▸ form.lexes quote hnext
  | comma ahead => exact lexes_literal rfl rfl ahead trivial
  | call ahead => exact lexes_literal rfl rfl ahead trivial
  | stray => trivial
  | number _ form => exact form.lexes hnext
  | constant _ _ _ _ form => exact form.lexes call hnext

theorem ValueForm.lexes (hs : ValueForm v rest s) (call : tr.inCall = v.inCall) : s.Lexes rest tr := by
  cases hs with
  | endOfText | endInCall | braceInCall | missing | lenient => trivial
  | semicolon ahead => exact lexes_literal rfl rfl ahead trivial
  | endOfCall ahead => exact lexes_literal rfl rfl ahead trivial
  | component _ _ _ _ form => exact form.lexes call

theorem CloseForm.lexes (hs : CloseForm v s) (ahead : rest = '}' :: t) : s.Lexes rest tr := by
  cases hs with
  | selector => exact lexes_literal rfl rfl ahead trivial
  | value => exact lexes_literal rfl rfl ahead trivial

theorem InterpolationForm.lexes (hs : InterpolationForm v s) (call : tr.inCall = v.inCall) :
    s.Lexes v.rest tr := by
  cases hs with
  | unclosedSkipped => trivial
  | skipped _ split _ close => exact lexes_skip split (close.lexes rfl)
  | unclosed => trivial
  | close _ munch close => exact lexes_skip munch.split (close.lexes rfl)
  | component _ munch _ form => exact lexes_skip munch.split (form.lexes call)

theorem PseudoForm.lexes (hs : PseudoForm rest s) : s.Lexes (':' :: rest) tr := by
  have hname {colons t name tail : Text} {s : Script} (found : Colons rest colons t)
      (munch : t.Munch isNameChar name tail) (ne : name ≠ [])
      (h : s.Lexes tail (tr.take .pseudoSelector)) :
      (Script.emit .pseudoSelector (colons ++ name) s).Lexes (':' :: rest) tr := by
    have hsplit : ':' :: rest = (colons ++ name) ++ tail := by
      rw [found.split, munch.split, List.append_assoc]
    refine lexes_emit hsplit ?_ h
    rcases found.short with rfl | rfl
    · exact .inl ⟨name, rfl, .of_munch munch ne⟩
    · exact .inr (.inl ⟨name, rfl, .of_munch munch ne⟩)
  cases hs with
  | nameless => trivial
  | bare found munch ne => exact hname found munch ne trivial
  | arguments found munch ne => exact hname found munch ne trivial

theorem SimpleForm.lexes (hs : SimpleForm a rest s) : s.Lexes (a :: rest) tr := by
  cases hs with
  | group start =>
    subst start
    exact lexes_literal rfl rfl rfl trivial
  | pseudo start form =>
    subst start
    exact form.lexes
  | sigil start form =>
    unfold sigilKind? at start
    split at start <;> cases start
    · exact form.lexes (fun _ _ h => .inl h) fun _ _ => trivial
    · exact form.lexes (fun _ _ h => .inl h) fun _ _ => trivial
  | universal start =>
    subst start
    exact lexes_emit rfl (.inl rfl) trivial
  | parent start munch =>
    refine lexes_emit (congrArg (a :: ·) munch.split) (.inl (.of_munch munch ?_)) trivial
    simpa using start
  | tag start munch =>
    exact lexes_emit (congrArg (a :: ·) munch.split) (.inl (.of_munch munch start)) trivial

theorem CompoundForm.lexes (hs : CompoundForm v a rest s) (hv : v.compound.Plain)
    (joined : v.compound.glue = .interpolation → tr.last? = some .interpolationEnd ∧ tr.gap = []) :
    s.Lexes (a :: rest) tr := by
  cases hs with
  | interpolation ahead => exact lexes_openInterpolation ahead
  | @continued kind name tail glue start same munch =>
    obtain ⟨hlast, htight⟩ := joined glue
    refine lexes_emit (congrArg (a :: ·) munch.split) ?_ trivial
    refine Trail.spells_of_continues (same ▸ hv.kind) ⟨hlast, htight, List.cons_ne_nil a name, rfl, ?_,
      munch.stop⟩
    exact List.forall_mem_cons.2 ⟨start, munch.inside⟩
  | simple _ _ _ form => exact form.lexes
  | glued _ _ _ form => exact lexes_literal rfl rfl rfl form.lexes
  | stray => trivial

theorem SelectorForm.lexes (hs : SelectorForm v s) (hv : v.compound.Plain)
    (joined : v.compound.glue = .interpolation → tr.last? = some .interpolationEnd ∧ tr.gap = []) :
    s.Lexes v.rest tr := by
  cases hs with
  | atEnd => trivial
  | @combinator blank t gap tail a kind munch known =>
    have hliteral : kind.literal? = some [a] ∧ kind.isAtRule = false := by
      unfold combinator? at known
      split at known <;> cases known <;> exact ⟨rfl, rfl⟩
    exact lexes_skip munch.split (lexes_literal hliteral.1 hliteral.2 rfl trivial)
  | block munch => exact lexes_skip munch.split (lexes_literal rfl rfl rfl trivial)
  | comma munch => exact lexes_skip munch.split (lexes_literal rfl rfl rfl trivial)
  | descendant munch _ _ _ ne => exact lexes_emit munch.split (.of_munch munch ne) trivial
  | compound munch _ _ _ tight form =>
    refine lexes_skip munch.split (form.lexes hv fun glue => ?_)
    -- Behind an interpolation no spaces are passed over, or the compound would be detached.
    obtain rfl := tight.resolve_right (by rw [glue]; exact Glue.noConfusion)
    obtain ⟨hlast, htight⟩ := joined glue
    exact ⟨hlast, by rw [Trail.gap_pass, htight]; rfl⟩

theorem AttributeEndForm.lexes (hs : AttributeEndForm v rest s) : s.Lexes rest tr := by
  cases hs with
  | closed ahead => exact lexes_literal rfl rfl ahead trivial
  | unclosed => trivial

theorem AttributeValueForm.lexes (hs : AttributeValueForm v rest s) : s.Lexes rest tr := by
  cases hs with
  | quoted ahead quote form =>
    refine ahead ▸ form.lexes quote fun tail tr => ?_
    exact lexes_skip (Text.munch isSpace tail).split (attributeEnd_form v _).lexes
  | bare munch ne behind =>
    refine lexes_emit munch.split (.of_munch munch ne) ?_
    exact lexes_skip behind.split (attributeEnd_form v _).lexes
  | missing => trivial

theorem literal?_of_mem (h : (t, k) ∈ attributeOperators) :
    k.literal? = some t ∧ k.isAtRule = false := by
  simp only [attributeOperators, List.mem_cons, Prod.mk.injEq, List.not_mem_nil, or_false] at h
  rcases h with ⟨rfl, rfl⟩ | ⟨rfl, rfl⟩ | ⟨rfl, rfl⟩ | ⟨rfl, rfl⟩ | ⟨rfl, rfl⟩ | ⟨rfl, rfl⟩ <;>
    exact ⟨rfl, rfl⟩

theorem AttributeForm.lexes (hs : AttributeForm v s) : s.Lexes v.rest tr := by
  cases hs with
  | nameless => trivial
  | named munch run ne behind form =>
    refine lexes_skip munch.split (lexes_emit run.split (.of_munch run ne) ?_)
    refine lexes_skip behind.split ?_
    cases form with
    | none _ form => exact form.lexes
    | operator known split behind form =>
      obtain ⟨hliteral, hother⟩ := literal?_of_mem known
      exact lexes_literal hliteral hother split (lexes_skip behind.split form.lexes)

theorem ArgumentsForm.lexes (hs : ArgumentsForm v s) : s.Lexes v.rest tr := by
  cases hs with
  | unclosed => trivial
  | empty => trivial
  | arguments found split ne =>
    exact lexes_emit split ⟨ne, closing_of_upToClosing found, rfl⟩ trivial

theorem ColonForm.lexes (hs : ColonForm rest s) : s.Lexes rest tr := by
  cases hs with
  | colon munch => exact lexes_skip munch.split (lexes_literal rfl rfl rfl trivial)
  | missing => trivial

theorem StatementForm.lexes (hs : StatementForm v rest s) : s.Lexes rest tr := by
  have hnext (tail : Text) (tr : Trail) : (goto .statement).Lexes tail tr := trivial
  cases hs with
  | finished | unclosed | atRule | assignment | unbalanced | property | selector | stray => trivial
  | block ahead => exact lexes_literal rfl rfl ahead trivial
  | close ahead => exact lexes_literal rfl rfl ahead trivial
  | quoted ahead quote form => exact ahead ▸ form.lexes quote hnext
  | number _ _ form => exact form.lexes hnext

theorem literal?_of_atKeyword? {name : Text} (h : atKeyword? name = some k) :
    k.literal? = some ('@' :: name) := by
  unfold atKeyword? at h
  split_ifs at h with himport hcharset hextend hinclude <;> cases h
  · rw [himport]; rfl
  · rw [hcharset]; rfl
  · rw [hextend]; rfl
  · rw [hinclude]; rfl

theorem AtRuleForm.lexes (hs : AtRuleForm rest s) (sign : rest.head? = some '@') :
    s.Lexes rest tr := by
  cases hs with
  | atEnd => trivial
  | @known a t name tail kind ahead munch known =>
    rw [ahead] at sign ⊢
    obtain rfl : a = '@' := Option.some.inj sign
    refine lexes_emit (congrArg ('@' :: ·) munch.split) ?_ trivial
    exact Trail.spells_of_literal (literal?_of_atKeyword? known) fun _ => munch.stop
  | unknown => trivial

theorem AssignmentForm.lexes (hs : AssignmentForm rest s) (sign : rest.head? = some '$') :
    s.Lexes rest tr := by
  cases hs with
  | atEnd => trivial
  | @named a t s ahead form =>
    rw [ahead] at sign ⊢
    obtain rfl : a = '$' := Option.some.inj sign
    exact form.lexes (fun _ _ h => h) fun _ _ => (colon_form _).lexes

theorem PropertyForm.lexes (hs : PropertyForm rest s) : s.Lexes rest tr := by
  cases hs with
  | atEnd => trivial
  | @named a t name tail s ahead start munch form =>
    refine lexes_emit (ahead.trans (congrArg (a :: ·) munch.split)) (.of_munch munch ?_) form.lexes
    simpa using start
  | stray => trivial

/-- What the texts of a state's tokens depend on: a call that is open, an interpolation right in front
of a selector, and the sign that the state begins with. -/
structure Prepared (st : State) (v : View) (tr : Trail) : Prop where
  call : tr.inCall = v.inCall
  joined : st = .selector → v.compound.glue = .interpolation →
    tr.last? = some .interpolationEnd ∧ tr.gap = []
  sign : st.Faces v.rest

theorem lexes_ofState {st : State} (hv : v.compound.Plain) (h : Prepared st v tr) :
    (ofState st v).Lexes v.rest tr := by
  have hs := ofState_form st v
  generalize ofState st v = s at hs ⊢
  cases hs with
  | statement munch form => exact lexes_skip munch.split form.lexes
  | atRule form => exact form.lexes h.sign
  | assignment form => exact form.lexes h.sign
  | property form => exact form.lexes
  | selector form => exact form.lexes hv (h.joined rfl)
  | group form => exact form.lexes
  | pseudoArguments form => exact form.lexes
  | value munch form => exact lexes_skip munch.split (form.lexes h.call)
  | interpolation form => exact form.lexes h.call
  | done => trivial

end Script

end StyleLex

import StyleLex.Proofs.Layout
import StyleLex.Proofs.TrailScripts

/-!
# Scripts around interpolations and inside of them

Around interpolations a script closes none, and opens one at its end only. Inside of one, a part of the
value passes over no closing brace but in a string, and opens and closes nothing but calls.
-/
namespace StyleLex

namespace Kind

/-- The token is one end of an interpolation. -/
def isBound : Kind → Bool
  | .interpolationStart | .interpolationEnd => true
  | _ => false

theorem isBound_of_isBracket {k : Kind} (h : k.isBracket = false) : k.isBound = false := by
  cases k <;> first | rfl | cases h

theorem isBound_of_isCalm {k : Kind} (h : k.isCalm = true) : k.isBound = false := by
  cases k <;> first | rfl | cases h

end Kind

theorem Text.Munch.not_mem {p : Char → Bool} {t run tail : Text} {d : Char}
    (h : t.Munch p run tail) (hd : p d = false) : d ∉ run := by
  intro hmem
  rw [h.inside d hmem] at hd
  cases hd

/-- The piece holds no closing brace, if it is no string, and is no end of an interpolation. -/
def Piece.Buried : Piece → Prop
  | .gap t => '}' ∉ t
  | .token k t => k.isBound = false ∧ (k ≠ .quotedString → '}' ∉ t)

namespace Script

/-- The script closes no interpolation, and opens one at its end only. -/
inductive Surface : Script → Prop where
  | skip {t : Text} {s : Script} (behind : s.Surface) : Surface (skip t s)
  | emit {k : Kind} {t : Text} {s : Script} (plain : k.isBound = false) (behind : s.Surface) :
      Surface (emit k t s)
  | enter {mode : Mode} {s : Script} (plain : mode ≠ .interpolation) (behind : s.Surface) :
      Surface (enter mode s)
  | leave {s : Script} (behind : s.Surface) : Surface (leave s)
  | note {g : Compound} {s : Script} (behind : s.Surface) : Surface (note g s)
  | goto {st : State} : Surface (goto st)
  | resume : Surface resume
  | fail {t : Text} {f : Fault} : Surface (fail t f)
  | opens : Surface openInterpolation

/-- The pieces of the script are buried in an interpolation, and it opens and closes calls only. Of the
calls inside of the interpolation `n` are open. -/
def InBody : Script → Nat → Prop
  | .skip t s, n => (Piece.gap t).Buried ∧ s.InBody n
  | .emit k t s, n => (Piece.token k t).Buried ∧ s.InBody n
  | .enter mode s, n => mode = .functionArguments ∧ s.InBody (n + 1)
  | .leave s, n => n ≠ 0 ∧ s.InBody (n - 1)
  | .note _ _, _ => False
  | .goto _, _ | .resume, _ | .fail _ _, _ => True

variable {v : View} {rest t : Text} {next : Text → Script} {s : Script} {k : Kind} {a : Char} {n : Nat}

section Surface

theorem Calm.surface (hs : Calm next s) (h : ∀ tail, (next tail).Surface) : s.Surface := by
  induction hs with
  | next tail => exact h tail
  | skip _ ih => exact .skip ih
  | emit calm _ ih => exact .emit (Kind.isBound_of_isCalm calm) ih
  | fail => exact .fail

theorem ComponentForm.surface {after : State} (hs : ComponentForm v after rest s) : s.Surface := by
  have hnext : ∀ _ : Text, (goto after).Surface := fun _ => .goto
  cases hs with
  | atEnd => exact .fail
  | reference _ form => exact (form.calm rfl).surface hnext
  | interpolation => exact .opens
  | hexColor _ _ form => exact form.calm.surface hnext
  | quoted _ _ form => exact form.calm.surface hnext
  | comma => exact .emit rfl .goto
  | call => exact .enter nofun (.emit rfl .goto)
  | stray => exact .fail
  | number _ form => exact form.calm.surface hnext
  | constant _ _ _ _ form => exact form.calm.surface hnext

theorem ValueForm.surface (hs : ValueForm v rest s) : s.Surface := by
  cases hs with
  | endOfText => exact .fail
  | endInCall => exact .fail
  | braceInCall => exact .fail
  | semicolon => exact .emit rfl (.leave .resume)
  | missing => exact .fail
  | lenient => exact .leave .resume
  | endOfCall => exact .emit rfl (.leave .resume)
  | component _ _ _ _ form => exact form.surface

theorem surface_noteSimple (h : k.isSelector = true) (t : Text) :
    (emit k t <| noteSimple k <| .goto .selector).Surface :=
  .emit (Kind.isBound_of_isBracket (Kind.isBracket_of_isSelector h)) (.note .goto)

theorem SimpleForm.surface (hs : SimpleForm a rest s) : s.Surface := by
  cases hs with
  | group => exact .enter nofun (.emit rfl .goto)
  | pseudo _ form =>
    cases form with
    | nameless => exact .fail
    | bare => exact surface_noteSimple rfl _
    | arguments => exact .emit rfl (.note (.enter nofun (.skip .goto)))
  | sigil start form =>
    cases form with
    | nameless => exact .fail
    | named => exact surface_noteSimple (isSelector_of_sigilKind? start) _
  | universal => exact surface_noteSimple rfl _
  | parent => exact surface_noteSimple rfl _
  | tag => exact surface_noteSimple rfl _

theorem CompoundForm.surface (hs : CompoundForm v a rest s) (hv : v.compound.Plain) : s.Surface := by
  cases hs with
  | interpolation => exact .opens
  | continued _ _ same => exact surface_noteSimple (same ▸ hv.kind) _
  | simple _ _ _ form => exact form.surface
  | glued _ _ _ form => exact .emit rfl form.surface
  | stray => exact .fail

theorem SelectorForm.surface (hs : SelectorForm v s) (hv : v.compound.Plain) : s.Surface := by
  cases hs with
  | atEnd => exact .fail
  | combinator _ known =>
    have hplain := Kind.isBracket_of_isCombinator (isCombinator_of_combinator? known)
    exact .skip (.emit (Kind.isBound_of_isBracket hplain) (.skip (.note .goto)))
  | block => exact .skip (.leave (.enter nofun (.emit rfl (.note .goto))))
  | comma => exact .skip (.emit rfl (.note .goto))
  | descendant => exact .emit rfl (.note .goto)
  | compound _ _ _ _ _ form => exact .skip (form.surface hv)

theorem AttributeEndForm.surface (hs : AttributeEndForm v rest s) : s.Surface := by
  cases hs with
  | closed => exact .emit rfl (.leave (.note .goto))
  | unclosed => exact .fail

theorem AttributeForm.surface (hs : AttributeForm v s) : s.Surface := by
  have hend (r : Text) : (attributeEnd v r).Surface := (attributeEnd_form v r).surface
  cases hs with
  | nameless => exact .skip .fail
  | named _ _ _ _ form =>
    refine .skip (.emit rfl (.skip ?_))
    cases form with
    | none _ form => exact form.surface
    | operator known _ _ form =>
      have hplain := Kind.isBracket_of_isOperator (isOperator_of_mem known)
      refine .emit (Kind.isBound_of_isBracket hplain) (.skip ?_)
      cases form with
      | quoted _ _ form => exact form.calm.surface fun _ => .skip (hend _)
      | bare => exact .emit rfl (.skip (hend _))
      | missing => exact .fail

theorem ArgumentsForm.surface (hs : ArgumentsForm v s) : s.Surface := by
  have hclose : (closeArguments v).Surface := .skip (.leave (.note .resume))
  cases hs with
  | unclosed => exact .fail
  | empty => exact hclose
  | arguments => exact .emit rfl hclose

theorem ColonForm.surface (hs : ColonForm rest s) : s.Surface := by
  cases hs with
  | colon => exact .skip (.emit rfl (.enter nofun .goto))
  | missing => exact .skip .fail

theorem StatementForm.surface (hs : StatementForm v rest s) : s.Surface := by
  cases hs with
  | finished => exact .goto
  | unclosed => exact .fail
  | atRule => exact .goto
  | assignment => exact .goto
  | block => exact .enter nofun (.emit rfl .goto)
  | close => exact .emit rfl (.leave .resume)
  | unbalanced => exact .fail
  | quoted _ _ form => exact form.calm.surface fun _ => .goto
  | number _ _ form => exact form.calm.surface fun _ => .goto
  | property => exact .goto
  | selector => exact .enter nofun (.note .goto)
  | stray => exact .fail

/-- Only the state inside of an interpolation closes it. -/
theorem surface_ofState {st : State} (h : st ≠ .interpolation) (hv : v.compound.Plain) :
    (ofState st v).Surface := by
  have hs := ofState_form st v
  generalize ofState st v = s at hs ⊢
  cases hs with
  | statement _ form => exact .skip form.surface
  | atRule form =>
    cases form with
    | atEnd => exact .fail
    | known _ _ known =>
      have hplain := Kind.isBracket_of_isAtRule (isAtRule_of_atKeyword? known)
      exact .emit (Kind.isBound_of_isBracket hplain) (.enter nofun .goto)
    | unknown => exact .fail
  | assignment form =>
    cases form with
    | atEnd => exact .fail
    | named _ form => exact (form.calm rfl).surface fun _ => (colon_form _).surface
  | property form =>
    cases form with
    | atEnd => exact .fail
    | named _ _ _ form => exact .emit rfl form.surface
    | stray => exact .fail
  | selector form => exact form.surface hv
  | group form => exact form.surface
  | pseudoArguments form => exact form.surface
  | value _ form => exact .skip form.surface
  | interpolation => exact absurd rfl h
  | done => exact .goto

end Surface

section InBody

/-! Each part of a value is buried, and goes on with the interpolation. -/

theorem InBody.buried (hs : s.InBody n) : ∀ p ∈ s.pieces, p.Buried := by
  induction s generalizing n with
  | skip t s ih => exact List.forall_mem_cons.2 ⟨hs.1, ih hs.2⟩
  | emit k t s ih => exact List.forall_mem_cons.2 ⟨hs.1, ih hs.2⟩
  | enter mode s ih => exact ih hs.2
  | leave s ih => exact ih hs.2
  | note g s ih => exact hs.elim
  | goto st => exact List.forall_mem_nil _
  | resume => exact List.forall_mem_nil _
  | fail t f => exact List.forall_mem_nil _

theorem SigilForm.inBody (hs : SigilForm k a rest next s) (hk : k.isBound = false) (ha : '}' ≠ a)
    (h : ∀ tail, (next tail).InBody n) : s.InBody n := by
  cases hs with
  | nameless => trivial
  | named munch =>
    exact ⟨⟨hk, fun _ => List.not_mem_cons_of_ne_of_not_mem ha (munch.not_mem rfl)⟩, h _⟩

theorem QuotedForm.inBody {q : Char} (hs : QuotedForm q rest next s) (hq : isQuote q = true)
    (h : ∀ tail, (next tail).InBody n) : s.InBody n := by
  have hgap : (Piece.gap [q]).Buried := by
    refine List.not_mem_cons_of_ne_of_not_mem ?_ List.not_mem_nil
    rintro rfl
    cases hq
  cases hs with
  | unclosed => trivial
  | closed => exact ⟨hgap, ⟨rfl, fun hne => absurd rfl hne⟩, hgap, h _⟩

theorem UnitForm.inBody (hs : UnitForm rest next s) (h : ∀ tail, (next tail).InBody n) :
    s.InBody n := by
  cases hs with
  | percent => exact ⟨⟨rfl, fun _ => by decide⟩, h _⟩
  | none => exact h _
  | known munch => exact ⟨⟨rfl, fun _ => munch.not_mem rfl⟩, h _⟩
  | unknown => trivial

theorem NumberForm.inBody (hs : NumberForm rest next s) (h : ∀ tail, (next tail).InBody n) :
    s.InBody n := by
  have hsign {sgn digits tail : Text} (whole : Whole rest sgn digits tail) : '}' ∉ sgn := by
    rcases whole.sign with rfl | rfl <;> decide
  cases hs with
  | malformed => trivial
  | float whole munch _ _ unit =>
    have hwhole := whole.munch.not_mem (d := '}') rfl
    have hfraction := munch.not_mem (d := '}') rfl
    exact ⟨⟨rfl, fun _ => by simp [hsign whole, hwhole, hfraction]⟩, unit.inBody h⟩
  | integer whole _ _ unit =>
    have hwhole := whole.munch.not_mem (d := '}') rfl
    exact ⟨⟨rfl, fun _ => by simp [hsign whole, hwhole]⟩, unit.inBody h⟩

theorem HexColorForm.inBody (hs : HexColorForm rest next s) (h : ∀ tail, (next tail).InBody n) :
    s.InBody n := by
  cases hs with
  | color munch =>
    exact ⟨⟨rfl, fun _ => List.not_mem_cons_of_ne_of_not_mem nofun (munch.not_mem rfl)⟩, h _⟩
  | malformed => trivial

theorem ConstantForm.inBody {inCall : Bool} (hs : ConstantForm inCall rest next s)
    (h : ∀ tail, (next tail).InBody n) : s.InBody n := by
  cases hs with
  | none => trivial
  | word word =>
    refine ⟨⟨rfl, fun _ hmem => ?_⟩, h _⟩
    have hends := word.inside '}' hmem
    simp [endsWord] at hends

theorem ComponentForm.inBody {after : State} (hs : ComponentForm v after rest s) :
    s = openInterpolation ∨ s.InBody n := by
  have hnext : ∀ _ : Text, (goto after).InBody n := fun _ => trivial
  cases hs with
  | atEnd => exact .inr trivial
  | reference _ form => exact .inr (form.inBody rfl (by decide) hnext)
  | interpolation => exact .inl rfl
  | hexColor _ _ form => exact .inr (form.inBody hnext)
  | quoted _ quote form => exact .inr (form.inBody quote hnext)
  | comma => exact .inr ⟨⟨rfl, fun _ => by decide⟩, trivial⟩
  | call => exact .inr ⟨rfl, ⟨rfl, fun _ => by decide⟩, trivial⟩
  | stray => exact .inr trivial
  | number _ form => exact .inr (form.inBody hnext)
  | constant _ _ _ _ form => exact .inr (form.inBody hnext)

/-- A call inside of the interpolation goes on with one of its parts, or ends. -/
theorem ValueForm.inBody (hs : ValueForm v rest s) (inside : v.inCall = true) (hn : n ≠ 0) :
    s = openInterpolation ∨ s.InBody n := by
  cases hs with
  | endOfText => exact .inr trivial
  | endInCall => exact .inr trivial
  | braceInCall => exact .inr trivial
  | semicolon _ outside => simp [inside] at outside
  | missing => exact .inr trivial
  | lenient _ outside => simp [inside] at outside
  | endOfCall => exact .inr ⟨⟨rfl, fun _ => by decide⟩, hn, trivial⟩
  | component _ _ _ _ form => exact form.inBody

end InBody

end Script

end StyleLex

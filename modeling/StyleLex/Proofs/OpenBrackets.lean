import StyleLex.Proofs.CursorPosition
import StyleLex.Proofs.OpenModes
import StyleLex.Proofs.TokenGrammar

/-!
# The tokens of open brackets

Every open mode that a bracket began has a token, and the tokens of a run that no later token closes
are those of the open modes, at the places where the modes were opened.
-/
namespace StyleLex

/-- The kind of the token that opens a mode. The parenthesis of a pseudo selector is no token. -/
def Mode.opener? : Mode → Option Kind
  | .block => some .braceStart
  | .attribute => some .attrStart
  | .functionArguments => some .parenStart
  | .interpolation => some .interpolationStart
  | .topLevel | .selector | .value | .pseudoArguments => none

/-- The brackets that are still open behind tokens, innermost first, if `open_` are open in front of
them and each closing bracket belongs to the innermost one. -/
def openTokens (open_ : List Token) : List Token → Option (List Token)
  | [] => some open_
  | t :: ts =>
    match t.kind.opener?, open_ with
    | none, _ => openTokens (if t.kind.opens then t :: open_ else open_) ts
    | some o, u :: outer => if o = u.kind then openTokens outer ts else none
    | some _, [] => none

variable {st ts us : List Token} {t u : Token} {k : Kind}

theorem openTokens_append (st ts us : List Token) :
    openTokens st (ts ++ us) = (openTokens st ts).bind (openTokens · us) := by
  induction ts generalizing st with
  | nil => rfl
  | cons t ts ih =>
    cases hk : t.kind.opener? with
    | none => simp [openTokens, hk, ih]
    | some o =>
      cases st with
      | nil => simp [openTokens, hk]
      | cons u outer =>
        by_cases ho : o = u.kind
        · simp [openTokens, hk, ho, ih]
        · simp [openTokens, hk, ho]

theorem openTokens_of_not_isBracket (h : t.kind.isBracket = false) (st ts : List Token) :
    openTokens st (t :: ts) = openTokens st ts := by
  obtain ⟨hopens, hopener⟩ : t.kind.opens = false ∧ t.kind.opener? = none := by
    simpa [Kind.isBracket] using h
  simp [openTokens, hopener, hopens]

theorem openTokens_of_closes (h : t.kind.opener? = some u.kind) (st ts : List Token) :
    openTokens (u :: st) (t :: ts) = openTokens st ts := by
  simp [openTokens, h]

theorem Mode.opener?_opens {mode : Mode} (h : mode.opener? = some k) :
    k.opens = true ∧ k.opener? = none := by
  cases mode <;> simp only [Mode.opener?, Option.some.injEq, reduceCtorEq] at h <;> subst h <;>
    exact ⟨rfl, rfl⟩

theorem openTokens_of_opens {mode : Mode} (h : mode.opener? = some t.kind) (st ts : List Token) :
    openTokens st (t :: ts) = openTokens (t :: st) ts := by
  obtain ⟨hopens, hopener⟩ := Mode.opener?_opens h
  simp [openTokens, hopens, hopener]

/-- Which brackets are open can be told from the kinds alone. -/
theorem openBrackets_kinds (st ts : List Token) :
    openBrackets (st.map Token.kind) (ts.map Token.kind) =
      (openTokens st ts).map (List.map Token.kind) := by
  induction ts generalizing st with
  | nil => rfl
  | cons t ts ih =>
    cases hk : t.kind.opener? with
    | none =>
      have hst : (if t.kind.opens then t.kind :: st.map Token.kind else st.map Token.kind) =
          (if t.kind.opens then t :: st else st).map Token.kind := by
        split <;> rfl
      rw [List.map_cons, openBrackets, openTokens, hst, ih] <;> exact hk
    | some o =>
      cases st with
      | nil => simp [openBrackets, openTokens, hk]
      | cons u outer =>
        by_cases ho : o = u.kind
        · simp [openBrackets, openTokens, hk, ho, ih]
        · simp [openBrackets, openTokens, hk, ho]

/-- The tokens are those that opened the brackets among the frames, in the same order. -/
inductive Marked : List Frame → List Token → Prop where
  | nil : Marked [] []
  | plain {f : Frame} {fs : List Frame} {ts : List Token} (plain : f.mode.opener? = none)
      (outer : Marked fs ts) : Marked (f :: fs) ts
  | bracket {f : Frame} {fs : List Frame} {t : Token} {ts : List Token}
      (kind : f.mode.opener? = some t.kind) (offset : t.offset = f.offset) (line : t.line = f.line)
      (outer : Marked fs ts) : Marked (f :: fs) (t :: ts)

/-- The brackets among modes, as the kinds of tokens that open them. -/
def brackets (ms : List Mode) : List Kind := ms.filterMap Mode.opener?

theorem Marked.kinds {fs : List Frame} (h : Marked fs st) :
    st.map Token.kind = brackets (fs.map Frame.mode) := by
  induction h with
  | nil => rfl
  | plain plain _ ih => simpa [brackets, plain] using ih
  | bracket kind _ _ _ ih => simpa [brackets, kind] using ih

namespace Script

/-- The script opens a bracket right in front of its token, and closes one right behind its token. Only
behind the name of a pseudo selector does it open the parenthesis of arguments. -/
inductive Brackets : Script → List Mode → Prop where
  | skip {t : Text} {s : Script} {ms : List Mode} (behind : s.Brackets ms) : (skip t s).Brackets ms
  | emit {k : Kind} {t : Text} {s : Script} {ms : List Mode} (plain : k.isBracket = false)
      (behind : s.Brackets ms) : (emit k t s).Brackets ms
  | opens {mode : Mode} {k : Kind} {t : Text} {s : Script} {ms : List Mode}
      (kind : mode.opener? = some k) (behind : s.Brackets (mode :: ms)) :
      (enter mode <| emit k t s).Brackets ms
  | closes {mode : Mode} {k o : Kind} {t : Text} {s : Script} {ms : List Mode}
      (kind : k.opener? = some o) (opened : mode.opener? = some o) (behind : s.Brackets ms) :
      (emit k t <| leave s).Brackets (mode :: ms)
  | enter {mode : Mode} {s : Script} {ms : List Mode} (plain : mode.opener? = none)
      (behind : s.Brackets (mode :: ms)) : (enter mode s).Brackets ms
  | leave {mode : Mode} {s : Script} {ms : List Mode} (plain : mode.opener? = none)
      (behind : s.Brackets ms) : (leave s).Brackets (mode :: ms)
  | note {g : Compound} {s : Script} {ms : List Mode} (behind : s.Brackets ms) :
      (note g s).Brackets ms
  | arguments {t : Text} {ms : List Mode} :
      (emit .pseudoSelector t <| noteSimple .pseudoSelector <| enter .pseudoArguments <|
        skip ['('] <| goto .pseudoArguments).Brackets ms
  | goto {st : State} {ms : List Mode} (other : st ≠ .pseudoArguments) : (goto st).Brackets ms
  | resume {ms : List Mode} (other : topMode ms ≠ .pseudoArguments) : resume.Brackets ms
  | fail {t : Text} {f : Fault} {ms : List Mode} : (fail t f).Brackets ms

end Script

variable {c : Config} {ms : List Mode}

theorem Blocks.ne_arguments (h : Blocks ms) : topMode ms ≠ .pseudoArguments := by
  cases h <;> exact Mode.noConfusion

theorem ValueModes.ne_arguments (h : ValueModes c ms) : topMode ms ≠ .pseudoArguments := by
  cases h <;> exact Mode.noConfusion

namespace Script

variable {rest : Text} {next : Text → Script} {s : Script} {v : View} {a : Char}

theorem SigilForm.brackets (hs : SigilForm k a rest next s) (plain : k.isBracket = false)
    (h : ∀ tail, (next tail).Brackets ms) : s.Brackets ms := by
  cases hs with
  | nameless => exact .fail
  | named => exact .emit plain (h _)

theorem QuotedForm.brackets {q : Char} (hs : QuotedForm q rest next s)
    (h : ∀ tail, (next tail).Brackets ms) : s.Brackets ms := by
  cases hs with
  | unclosed => exact .fail
  | closed => exact .skip (.emit rfl (.skip (h _)))

theorem UnitForm.brackets (hs : UnitForm rest next s) (h : ∀ tail, (next tail).Brackets ms) :
    s.Brackets ms := by
  cases hs with
  | percent => exact .emit rfl (h _)
  | none => exact h _
  | known => exact .emit rfl (h _)
  | unknown => exact .fail

theorem NumberForm.brackets (hs : NumberForm rest next s) (h : ∀ tail, (next tail).Brackets ms) :
    s.Brackets ms := by
  cases hs with
  | malformed => exact .fail
  | float _ _ _ _ unit => exact .emit rfl (unit.brackets h)
  | integer _ _ _ unit => exact .emit rfl (unit.brackets h)

theorem HexColorForm.brackets (hs : HexColorForm rest next s)
    (h : ∀ tail, (next tail).Brackets ms) : s.Brackets ms := by
  cases hs with
  | color => exact .emit rfl (h _)
  | malformed => exact .fail

theorem ConstantForm.brackets {inCall : Bool} (hs : ConstantForm inCall rest next s)
    (h : ∀ tail, (next tail).Brackets ms) : s.Brackets ms := by
  cases hs with
  | none => exact .fail
  | word => exact .emit rfl (h _)

theorem brackets_openInterpolation : openInterpolation.Brackets ms := .opens rfl (.goto nofun)

theorem ComponentForm.brackets {after : State} (hs : ComponentForm v after rest s)
    (hafter : after ≠ .pseudoArguments) : s.Brackets ms := by
  have hgoto {ms : List Mode} : (goto after).Brackets ms := .goto hafter
  cases hs with
  | atEnd => exact .fail
  | reference _ form => exact form.brackets rfl fun _ => hgoto
  | interpolation => exact brackets_openInterpolation
  | hexColor _ _ form => exact form.brackets fun _ => hgoto
  | quoted _ _ form => exact form.brackets fun _ => hgoto
  | comma => exact .emit rfl hgoto
  | call => exact .opens rfl (.goto nofun)
  | stray => exact .fail
  | number _ form => exact form.brackets fun _ => hgoto
  | constant _ _ _ _ form => exact form.brackets fun _ => hgoto

theorem ValueForm.brackets (hs : ValueForm v rest s) (hv : v.Shows c ms)
    (h : State.Fits c .value ms) : s.Brackets ms := by
  cases hs with
  | endOfText => exact .fail
  | endInCall => exact .fail
  | braceInCall => exact .fail
  | semicolon _ outside =>
    obtain ⟨ms', rfl, outer⟩ := h.not_inCall hv outside
    exact .emit rfl (.leave rfl (.resume outer.ne_arguments))
  | missing => exact .fail
  | lenient _ outside =>
    obtain ⟨ms', rfl, outer⟩ := h.not_inCall hv outside
    exact .leave rfl (.resume outer.ne_arguments)
  | endOfCall _ inside =>
    obtain ⟨ms', rfl, outer⟩ := h.inCall hv inside
    exact .closes rfl rfl (.resume outer.ne_arguments)
  | component _ _ _ _ form => exact form.brackets nofun

theorem CloseForm.brackets (hs : CloseForm v s) (h : State.Fits c .interpolation ms) :
    s.Brackets ms := by
  obtain ⟨ms', rfl, hresume⟩ : ∃ ms', ms = .interpolation :: ms' ∧ topMode ms' ≠ .pseudoArguments := by
    cases h with
    | interpolation outer => exact ⟨_, rfl, outer.ne_arguments⟩
    | selectorInterpolation => exact ⟨_, rfl, nofun⟩
  cases hs with
  | selector => exact .closes rfl rfl (.note (.resume hresume))
  | value => exact .closes rfl rfl (.resume hresume)

theorem InterpolationForm.brackets (hs : InterpolationForm v s)
    (h : State.Fits c .interpolation ms) : s.Brackets ms := by
  cases hs with
  | unclosedSkipped => exact .fail
  | skipped _ _ _ close => exact .skip (close.brackets h)
  | unclosed => exact .skip .fail
  | close _ _ close => exact .skip (close.brackets h)
  | component _ _ _ form => exact .skip (form.brackets nofun)

theorem SimpleForm.brackets (hs : SimpleForm a rest s) : s.Brackets ms := by
  have hsimple {k : Kind} (hk : k.isSelector = true) (t : Text) :
      (Script.emit k t <| noteSimple k <| .goto .selector).Brackets ms :=
    .emit (Kind.isBracket_of_isSelector hk) (.note (.goto nofun))
  cases hs with
  | group => exact .opens rfl (.goto nofun)
  | pseudo _ form =>
    cases form with
    | nameless => exact .fail
    | bare => exact hsimple rfl _
    | arguments => exact .arguments
  | sigil start form =>
    exact form.brackets (Kind.isBracket_of_isSelector (isSelector_of_sigilKind? start))
      fun _ => .note (.goto nofun)
  | universal => exact hsimple rfl _
  | parent => exact hsimple rfl _
  | tag => exact hsimple rfl _

theorem CompoundForm.brackets (hs : CompoundForm v a rest s) (hv : v.compound.Plain) :
    s.Brackets ms := by
  cases hs with
  | interpolation => exact brackets_openInterpolation
  | continued _ _ same =>
    exact .emit (Kind.isBracket_of_isSelector (same ▸ hv.kind)) (.note (.goto nofun))
  | simple _ _ _ form => exact form.brackets
  | glued _ _ _ form => exact .emit rfl form.brackets
  | stray => exact .fail

theorem SelectorForm.brackets (hs : SelectorForm v s) (hv : v.compound.Plain) :
    s.Brackets (.selector :: ms) := by
  have hdetached : (Script.note .detached <| .goto .selector).Brackets (.selector :: ms) :=
    .note (.goto nofun)
  cases hs with
  | atEnd => exact .fail
  | combinator _ known =>
    exact .skip (.emit (Kind.isBracket_of_isCombinator (isCombinator_of_combinator? known))
      (.skip hdetached))
  | block => exact .skip (.leave rfl (.opens rfl (.note (.goto nofun))))
  | comma => exact .skip (.emit rfl hdetached)
  | descendant => exact .emit rfl hdetached
  | compound _ _ _ _ _ form => exact .skip (form.brackets hv)

theorem AttributeEndForm.brackets (hs : AttributeEndForm v rest s) :
    s.Brackets (.attribute :: ms) := by
  cases hs with
  | closed => exact .closes rfl rfl (.note (.goto nofun))
  | unclosed => exact .fail

theorem AttributeForm.brackets (hs : AttributeForm v s) : s.Brackets (.attribute :: ms) := by
  have hend (t : Text) : (attributeEnd v t).Brackets (.attribute :: ms) :=
    (attributeEnd_form v t).brackets
  cases hs with
  | nameless => exact .skip .fail
  | named _ _ _ _ form =>
    apply Brackets.skip
    apply Brackets.emit rfl
    apply Brackets.skip
    cases form with
    | none _ form => exact form.brackets
    | operator known _ _ form =>
      apply Brackets.emit (Kind.isBracket_of_isOperator (isOperator_of_mem known))
      apply Brackets.skip
      cases form with
      | quoted _ _ form => exact form.brackets fun _ => .skip (hend _)
      | bare => exact .emit rfl (.skip (hend _))
      | missing => exact .fail

theorem ArgumentsForm.brackets (hs : ArgumentsForm v s) :
    s.Brackets (.pseudoArguments :: .selector :: ms) := by
  have hclose : (closeArguments v).Brackets (.pseudoArguments :: .selector :: ms) :=
    .skip (.leave rfl (.note (.resume nofun)))
  cases hs with
  | unclosed => exact .fail
  | empty => exact hclose
  | arguments => exact .emit rfl hclose

theorem ColonForm.brackets (hs : ColonForm rest s) : s.Brackets ms := by
  cases hs with
  | colon => exact .skip (.emit rfl (.enter rfl (.goto nofun)))
  | missing => exact .skip .fail

theorem StatementForm.brackets (hs : StatementForm v rest s) (hv : v.Shows c ms)
    (outer : Blocks ms) : s.Brackets ms := by
  cases hs with
  | finished => exact .goto nofun
  | unclosed => exact .fail
  | atRule => exact .goto nofun
  | assignment => exact .goto nofun
  | block => exact .opens rfl (.goto nofun)
  | close _ inside =>
    obtain ⟨ms', rfl, outer'⟩ := outer.eq_cons (hv.top ▸ inside)
    exact .closes rfl rfl (.resume outer'.ne_arguments)
  | unbalanced => exact .fail
  | quoted _ _ form => exact form.brackets fun _ => .goto nofun
  | number _ _ form => exact form.brackets fun _ => .goto nofun
  | property => exact .goto nofun
  | selector => exact .enter rfl (.note (.goto nofun))
  | stray => exact .fail

theorem brackets_ofState {st : State} (hv : v.Shows c ms) (h : st.Fits c ms) :
    (ofState st v).Brackets ms := by
  have hs := ofState_form st v
  generalize ofState st v = s at hs ⊢
  cases hs with
  | statement _ form => cases h with | statement outer => exact .skip (form.brackets hv outer)
  | atRule form =>
    cases form with
    | atEnd => exact .fail
    | known _ _ known =>
      exact .emit (Kind.isBracket_of_isAtRule (isAtRule_of_atKeyword? known))
        (.enter rfl (.goto nofun))
    | unknown => exact .fail
  | assignment form =>
    cases form with
    | atEnd => exact .fail
    | named _ form => exact form.brackets rfl fun _ => (colon_form _).brackets
  | property form =>
    cases form with
    | atEnd => exact .fail
    | named _ _ _ form => exact .emit rfl form.brackets
    | stray => exact .fail
  | selector form => cases h with | selector outer => exact form.brackets hv.compound
  | group form => cases h with | group outer => exact form.brackets
  | pseudoArguments form => cases h with | pseudoArguments outer => exact form.brackets
  | value _ form => exact .skip (form.brackets hv h)
  | interpolation form => exact form.brackets h
  | done => exact .goto nofun

end Script

namespace Machine

variable {m : Machine} {s : Script}

/-- The brackets that a script leaves open are those of the modes that it leaves open, also if it
fails. -/
theorem openTokens_perform (hs : s.Brackets m.openModes) (hm : Marked m.modes.frames st) :
    ∃ st', openTokens st (perform s m).tokens = some st' ∧
      Marked (perform s m).machine.modes.frames st' := by
  generalize hms : m.openModes = ms at hs
  induction hs generalizing m st with
  | skip _ ih => exact ih (m := m.skip _) hm hms
  | emit plain _ ih =>
    rw [perform, Run.handOver, openTokens_of_not_isBracket plain]
    exact ih (m := (m.take _).2) hm hms
  | @opens mode k t s ms kind _ ih =>
    have hopened : Marked ((m.enter mode).take t).2.modes.frames (⟨((m.enter mode).take t).1, k⟩ :: st) :=
      .bracket kind rfl rfl hm
    rw [perform, perform, Run.handOver, openTokens_of_opens kind]
    exact ih hopened (congrArg (mode :: ·) hms)
  | @closes mode k o t s ms kind opened _ ih =>
    obtain ⟨f, fs, hframes, hmode, hfs⟩ : ∃ f fs, m.modes.frames = f :: fs ∧ f.mode = mode ∧
        fs.map Frame.mode = ms := List.map_eq_cons_iff.1 hms
    rw [hframes] at hm
    cases hm with
    | plain plain => rw [hmode, opened] at plain; cases plain
    | @bracket _ _ u outerTokens hkind _ _ outer =>
      have hu : k.opener? = some u.kind := by rw [kind, ← opened, ← hmode, hkind]
      have hleave : (m.take t).2.leave.modes.frames = fs := by
        show m.modes.frames.tail = fs
        rw [hframes, List.tail_cons]
      rw [perform, perform, Run.handOver, openTokens_of_closes hu]
      exact ih (m := (m.take t).2.leave) (by rwa [hleave]) (by rw [openModes, hleave, hfs])
  | enter plain _ ih => exact ih (m := m.enter _) (.plain plain hm) (congrArg (_ :: ·) hms)
  | @leave mode s ms plain _ ih =>
    obtain ⟨f, fs, hframes, hmode, hfs⟩ : ∃ f fs, m.modes.frames = f :: fs ∧ f.mode = mode ∧
        fs.map Frame.mode = ms := List.map_eq_cons_iff.1 hms
    have hleave : m.leave.modes.frames = fs := by
      show m.modes.frames.tail = fs
      rw [hframes, List.tail_cons]
    rw [hframes] at hm
    cases hm with
    | plain _ outer => exact ih (m := m.leave) (by rwa [hleave]) (by rw [openModes, hleave, hfs])
    | bracket hkind => rw [hmode, plain] at hkind; cases hkind
  | note _ ih => exact ih (m := m.note _) hm hms
  | arguments =>
    refine ⟨st, ?_, .plain rfl hm⟩
    exact openTokens_of_not_isBracket rfl st []
  | goto => exact ⟨st, rfl, hm⟩
  | resume => exact ⟨st, rfl, hm⟩
  | fail => exact ⟨st, rfl, hm⟩

theorem Coherent.brackets (hm : m.Coherent) : m.script.Brackets m.openModes :=
  Script.brackets_ofState hm.view_shows hm.fits

end Machine

end StyleLex

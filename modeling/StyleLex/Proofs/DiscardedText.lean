import StyleLex.Proofs.TokenPlaces

/-!
# Text that no token holds

The dropped pieces of a run without an error are spaces, quotes, the parentheses of pseudo selectors,
and interpolations that are passed over. Which of these a piece is can be told from the tokens beside
it.
-/
namespace StyleLex

/-- All kinds but those whose tokens stand between two characters that are dropped. -/
def Kind.isBare : Kind → Bool
  | .quotedString | .langCode => false
  | _ => true

theorem Kind.isBare_of_isSelector {k : Kind} (h : k.isSelector = true) : k.isBare = true := by
  cases k <;> first | rfl | simp [isSelector] at h

theorem Kind.isBare_of_isCombinator {k : Kind} (h : k.isCombinator = true) : k.isBare = true := by
  cases k <;> first | rfl | simp [isCombinator] at h

theorem Kind.isBare_of_isOperator {k : Kind} (h : k.isOperator = true) : k.isBare = true := by
  cases k <;> first | rfl | simp [isOperator] at h

theorem Kind.isBare_of_isAtRule {k : Kind} (h : k.isAtRule = true) : k.isBare = true := by
  cases k <;> first | rfl | simp [isAtRule] at h

/-- Pieces that are explained by the tokens among them. -/
inductive Explained (c : Config) : List Piece → Prop where
  | nil : Explained c []
  | space {t : Text} {ps : List Piece} (inside : ∀ a ∈ t, isSpace a = true) (behind : Explained c ps) :
      Explained c (.gap t :: ps)
  | token {k : Kind} {t : Text} {ps : List Piece} (bare : k.isBare = true) (behind : Explained c ps) :
      Explained c (.token k t :: ps)
  | quoted {q : Char} {t : Text} {ps : List Piece} (quote : isQuote q = true)
      (behind : Explained c ps) :
      Explained c (.gap [q] :: .token .quotedString t :: .gap [q] :: ps)
  | arguments {t u : Text} {ps : List Piece} (behind : Explained c ps) :
      Explained c
        (.token .pseudoSelector t :: .gap ['('] :: .token .langCode u :: .gap [')'] :: ps)
  | noArguments {t : Text} {ps : List Piece} (behind : Explained c ps) :
      Explained c (.token .pseudoSelector t :: .gap ['('] :: .gap [')'] :: ps)
  | passedOver {t u body : Text} {ps : List Piece} (skipped : c.interpolation = .skipped)
      (behind : Explained c ps) :
      Explained c
        (.token .interpolationStart t :: .gap body :: .token .interpolationEnd u :: ps)

/-- The pieces that may come behind a state. -/
def Remaining (c : Config) : State → List Piece → Prop
  | .pseudoArguments, ps => ∃ behind, Explained c behind ∧
      (ps = .gap [')'] :: behind ∨ ∃ u, ps = .token .langCode u :: .gap [')'] :: behind)
  | .interpolation, ps =>
    match c.interpolation with
    | .tokens => Explained c ps
    | .skipped => ∃ body u behind,
        ps = .gap body :: .token .interpolationEnd u :: behind ∧ Explained c behind
  | _, ps => Explained c ps

variable {c : Config} {ms : List Mode} {v : View}

theorem remaining_interpolation {ps : List Piece} (tokens : c.interpolation = .tokens) :
    Remaining c .interpolation ps ↔ Explained c ps := by
  simp only [Remaining, tokens]

theorem Blocks.remaining_resume {ps : List Piece} (h : Blocks ms) :
    Remaining c (.ofMode (topMode ms)) ps ↔ Explained c ps := by
  rw [h.resume]
  rfl

theorem ValueModes.remaining_resume {ps : List Piece} (h : ValueModes c ms) :
    Remaining c (.ofMode (topMode ms)) ps ↔ Explained c ps := by
  cases h with
  | value => rfl
  | call => rfl
  | interpolation tokens => exact remaining_interpolation tokens
  | selector tokens => exact remaining_interpolation tokens

namespace Script

/-- Whatever remains behind the script gives, behind its own pieces, pieces in `L`. -/
def Explains (c : Config) : Script → List Mode → (List Piece → Prop) → Prop
  | .skip t s, ms, L => s.Explains c ms fun ps => L (.gap t :: ps)
  | .emit k t s, ms, L => s.Explains c ms fun ps => L (.token k t :: ps)
  | .enter mode s, ms, L => s.Explains c (mode :: ms) L
  | .leave s, ms, L => s.Explains c ms.tail L
  | .note _ s, ms, L => s.Explains c ms L
  | .goto st, _, L => ∀ ps, Remaining c st ps → L ps
  | .resume, ms, L => ∀ ps, Remaining c (.ofMode (topMode ms)) ps → L ps
  | .fail _ _, _, _ => True

theorem Explains.mono {s : Script} {L L' : List Piece → Prop} (h : s.Explains c ms L)
    (hL : ∀ ps, L ps → L' ps) : s.Explains c ms L' := by
  induction s generalizing ms L L' with
  | skip t s ih => exact ih h fun ps => hL _
  | emit k t s ih => exact ih h fun ps => hL _
  | enter mode s ih => exact ih h hL
  | leave s ih => exact ih h hL
  | note c s ih => exact ih h hL
  | goto st => exact fun ps hps => hL ps (h ps hps)
  | resume => exact fun ps hps => hL ps (h ps hps)
  | fail t f => trivial

variable {rest tail t : Text} {next : Text → Script} {s : Script} {k : Kind} {a : Char}

theorem Explains.emit (h : s.Explains c ms (Explained c)) (bare : k.isBare = true) (t : Text) :
    (Script.emit k t s).Explains c ms (Explained c) :=
  h.mono fun _ hps => .token bare hps

theorem Explains.skip (h : s.Explains c ms (Explained c)) (munch : rest.Munch isSpace t tail) :
    (Script.skip t s).Explains c ms (Explained c) :=
  h.mono fun _ hps => .space munch.inside hps

theorem SigilForm.explains (hs : SigilForm k a rest next s) (bare : k.isBare = true)
    (h : ∀ tail, (next tail).Explains c ms (Explained c)) : s.Explains c ms (Explained c) := by
  cases hs with
  | nameless => trivial
  | named => exact (h _).emit bare _

theorem QuotedForm.explains {q : Char} (hs : QuotedForm q rest next s) (quote : isQuote q = true)
    (h : ∀ tail, (next tail).Explains c ms (Explained c)) : s.Explains c ms (Explained c) := by
  cases hs with
  | unclosed => trivial
  | closed => exact (h _).mono fun _ hps => .quoted quote hps

theorem UnitForm.explains (hs : UnitForm rest next s)
    (h : ∀ tail, (next tail).Explains c ms (Explained c)) : s.Explains c ms (Explained c) := by
  cases hs with
  | percent => exact (h _).emit rfl _
  | none => exact h _
  | known => exact (h _).emit rfl _
  | unknown => trivial

theorem NumberForm.explains (hs : NumberForm rest next s)
    (h : ∀ tail, (next tail).Explains c ms (Explained c)) : s.Explains c ms (Explained c) := by
  cases hs with
  | malformed => trivial
  | float _ _ _ _ unit => exact (unit.explains h).emit rfl _
  | integer _ _ _ unit => exact (unit.explains h).emit rfl _

theorem HexColorForm.explains (hs : HexColorForm rest next s)
    (h : ∀ tail, (next tail).Explains c ms (Explained c)) : s.Explains c ms (Explained c) := by
  cases hs with
  | color => exact (h _).emit rfl _
  | malformed => trivial

theorem ConstantForm.explains {inCall : Bool} (hs : ConstantForm inCall rest next s)
    (h : ∀ tail, (next tail).Explains c ms (Explained c)) : s.Explains c ms (Explained c) := by
  cases hs with
  | none => trivial
  | word => exact (h _).emit rfl _

theorem explains_openInterpolation : openInterpolation.Explains c ms (Explained c) := by
  intro ps hps
  cases hc : c.interpolation with
  | tokens => exact .token rfl ((remaining_interpolation hc).1 hps)
  | skipped =>
    simp only [Remaining, hc] at hps
    obtain ⟨body, u, behind, rfl, hbehind⟩ := hps
    exact .passedOver hc hbehind

theorem ComponentForm.explains {after : State} (hs : ComponentForm v after rest s)
    (hafter : ∀ ps, Remaining c after ps → Explained c ps) : s.Explains c ms (Explained c) := by
  cases hs with
  | atEnd => trivial
  | reference _ form => exact form.explains rfl fun _ => hafter
  | interpolation => exact explains_openInterpolation
  | hexColor _ _ form => exact form.explains fun _ => hafter
  | quoted _ quote form => exact form.explains quote fun _ => hafter
  | comma => exact fun ps hps => .token rfl (hafter ps hps)
  | call => exact fun ps hps => .token rfl hps
  | stray => trivial
  | number _ form => exact form.explains fun _ => hafter
  | constant _ _ _ _ form => exact form.explains fun _ => hafter

theorem ValueForm.explains (hs : ValueForm v rest s) (hv : v.Shows c ms)
    (h : State.Fits c .value ms) : s.Explains c ms (Explained c) := by
  cases hs with
  | endOfText => trivial
  | endInCall => trivial
  | braceInCall => trivial
  | semicolon _ outside =>
    obtain ⟨ms', rfl, outer⟩ := h.not_inCall hv outside
    exact fun ps hps => .token rfl (outer.remaining_resume.1 hps)
  | missing => trivial
  | lenient _ outside =>
    obtain ⟨ms', rfl, outer⟩ := h.not_inCall hv outside
    exact fun ps hps => outer.remaining_resume.1 hps
  | endOfCall _ inside =>
    obtain ⟨ms', rfl, outer⟩ := h.inCall hv inside
    exact fun ps hps => .token rfl (outer.remaining_resume.1 hps)
  | component _ _ _ _ form => exact form.explains fun _ hps => hps

theorem CloseForm.explains (hs : CloseForm v s) (h : State.Fits c .interpolation ms) :
    ∃ u, s.Explains c ms fun ps => ∃ behind, ps = .token .interpolationEnd u :: behind ∧
      Explained c behind := by
  have hresume : ∀ ps, Remaining c (.ofMode (topMode ms.tail)) ps → Explained c ps := by
    cases h with
    | interpolation outer => exact fun ps hps => outer.remaining_resume.1 hps
    | selectorInterpolation outer => exact fun ps hps => hps
  cases hs with
  | selector => exact ⟨_, fun ps hps => ⟨ps, rfl, hresume ps hps⟩⟩
  | value => exact ⟨_, fun ps hps => ⟨ps, rfl, hresume ps hps⟩⟩

theorem InterpolationForm.explains (hs : InterpolationForm v s) (hv : v.Shows c ms)
    (h : State.Fits c .interpolation ms) : s.Explains c ms (Remaining c .interpolation) := by
  have htokens {s : Script} (tokens : v.config.interpolation = .tokens)
      (hs : s.Explains c ms (Explained c)) : s.Explains c ms (Remaining c .interpolation) :=
    hs.mono fun ps => (remaining_interpolation (hv.config ▸ tokens)).2
  cases hs with
  | unclosedSkipped => trivial
  | @skipped body _ _ skipped _ _ close =>
    obtain ⟨u, hclose⟩ := close.explains h
    apply hclose.mono
    intro ps hps
    obtain ⟨behind, rfl, hbehind⟩ := hps
    rw [hv.config] at skipped
    simp only [Remaining, skipped]
    exact ⟨body, u, behind, rfl, hbehind⟩
  | unclosed => trivial
  | close tokens munch close =>
    obtain ⟨u, hclose⟩ := close.explains h
    apply htokens tokens
    apply Explains.skip _ munch
    apply hclose.mono
    intro ps hps
    obtain ⟨behind, rfl, hbehind⟩ := hps
    exact .token rfl hbehind
  | component tokens munch _ form =>
    apply htokens tokens
    apply Explains.skip _ munch
    apply form.explains
    exact fun ps => (remaining_interpolation (hv.config ▸ tokens)).1

theorem SimpleForm.explains (hs : SimpleForm a rest s) : s.Explains c ms (Explained c) := by
  have hsimple {k : Kind} (bare : k.isBare = true) (t : Text) :
      (Script.emit k t <| noteSimple k <| .goto .selector).Explains c ms (Explained c) :=
    fun ps hps => .token bare hps
  cases hs with
  | group => exact fun ps hps => .token rfl hps
  | pseudo _ form =>
    cases form with
    | nameless => trivial
    | bare => exact hsimple rfl _
    | arguments =>
      intro ps hps
      obtain ⟨behind, hbehind, hpieces⟩ := hps
      rcases hpieces with rfl | ⟨u, rfl⟩
      · exact .noArguments hbehind
      · exact .arguments hbehind
  | sigil start form =>
    exact form.explains (Kind.isBare_of_isSelector (isSelector_of_sigilKind? start)) fun _ _ hps => hps
  | universal => exact hsimple rfl _
  | parent => exact hsimple rfl _
  | tag => exact hsimple rfl _

theorem CompoundForm.explains (hs : CompoundForm v a rest s) (hv : v.compound.Plain) :
    s.Explains c ms (Explained c) := by
  cases hs with
  | interpolation => exact explains_openInterpolation
  | continued _ _ same =>
    exact fun ps hps => .token (Kind.isBare_of_isSelector (same ▸ hv.kind)) hps
  | simple _ _ _ form => exact form.explains
  | glued _ _ _ form => exact form.explains.emit rfl _
  | stray => trivial

theorem SelectorForm.explains (hs : SelectorForm v s) (hv : v.compound.Plain) :
    s.Explains c ms (Explained c) := by
  have hdetached {ms : List Mode} :
      (Script.note .detached <| .goto .selector).Explains c ms (Explained c) := fun ps hps => hps
  cases hs with
  | atEnd => trivial
  | combinator munch known behind =>
    apply Explains.skip _ munch
    exact (hdetached.skip behind).emit
      (Kind.isBare_of_isCombinator (isCombinator_of_combinator? known)) _
  | block munch =>
    apply Explains.skip _ munch
    exact fun ps hps => .token rfl hps
  | comma munch => exact (hdetached.emit rfl _).skip munch
  | descendant => exact hdetached.emit rfl _
  | compound munch _ _ _ _ form => exact (form.explains hv).skip munch

theorem AttributeEndForm.explains (hs : AttributeEndForm v rest s) :
    s.Explains c ms (Explained c) := by
  cases hs with
  | closed => exact fun ps hps => .token rfl hps
  | unclosed => trivial

theorem AttributeForm.explains (hs : AttributeForm v s) : s.Explains c ms (Explained c) := by
  have hend (t : Text) : (attributeEnd v t).Explains c ms (Explained c) :=
    (attributeEnd_form v t).explains
  cases hs with
  | nameless => trivial
  | named munch _ _ behind form =>
    apply Explains.skip _ munch
    apply Explains.emit _ rfl
    apply Explains.skip _ behind
    cases form with
    | none _ form => exact form.explains
    | operator known _ behind form =>
      apply Explains.emit _ (Kind.isBare_of_isOperator (isOperator_of_mem known))
      apply Explains.skip _ behind
      cases form with
      | quoted _ quote form =>
        apply form.explains quote
        exact fun t => (hend _).skip (Text.munch isSpace t)
      | bare _ _ behind => exact ((hend _).skip behind).emit rfl _
      | missing => trivial

theorem ArgumentsForm.explains (hs : ArgumentsForm v s) :
    s.Explains c (.pseudoArguments :: .selector :: ms) (Remaining c .pseudoArguments) := by
  cases hs with
  | unclosed => trivial
  | empty => exact fun ps hps => ⟨ps, hps, .inl rfl⟩
  | arguments => exact fun ps hps => ⟨ps, hps, .inr ⟨_, rfl⟩⟩

theorem ColonForm.explains (hs : ColonForm rest s) : s.Explains c ms (Explained c) := by
  cases hs with
  | colon munch =>
    apply Explains.skip _ munch
    exact fun ps hps => .token rfl hps
  | missing => trivial

theorem StatementForm.explains (hs : StatementForm v rest s) (hv : v.Shows c ms)
    (outer : Blocks ms) : s.Explains c ms (Explained c) := by
  cases hs with
  | finished => exact fun ps hps => hps
  | unclosed => trivial
  | atRule => exact fun ps hps => hps
  | assignment => exact fun ps hps => hps
  | block => exact fun ps hps => .token rfl hps
  | close _ inside =>
    obtain ⟨ms', rfl, outer'⟩ := outer.eq_cons (hv.top ▸ inside)
    exact fun ps hps => .token rfl (outer'.remaining_resume.1 hps)
  | unbalanced => trivial
  | quoted _ quote form => exact form.explains quote fun _ _ hps => hps
  | number _ _ form => exact form.explains fun _ _ hps => hps
  | property => exact fun ps hps => hps
  | selector => exact fun ps hps => hps
  | stray => trivial

theorem explains_ofState {st : State} (hv : v.Shows c ms) (h : st.Fits c ms) :
    (ofState st v).Explains c ms (Remaining c st) := by
  have hs := ofState_form st v
  generalize ofState st v = s at hs ⊢
  cases hs with
  | statement munch form =>
    cases h with | statement outer => exact (form.explains hv outer).skip munch
  | atRule form =>
    cases form with
    | atEnd => trivial
    | known _ _ known =>
      exact fun ps hps => .token (Kind.isBare_of_isAtRule (isAtRule_of_atKeyword? known)) hps
    | unknown => trivial
  | assignment form =>
    cases form with
    | atEnd => trivial
    | named _ form => exact form.explains rfl fun _ => (colon_form _).explains
  | property form =>
    cases form with
    | atEnd => trivial
    | named _ _ _ form => exact form.explains.emit rfl _
    | stray => trivial
  | selector form => exact form.explains hv.compound
  | group form => exact form.explains
  | pseudoArguments form => cases h with | pseudoArguments outer => exact form.explains
  | value munch form => exact (form.explains hv h).skip munch
  | interpolation form => exact form.explains hv h
  | done => exact fun ps hps => hps

end Script

namespace Machine

theorem explained_perform {s : Script} {m : Machine} {L : List Piece → Prop}
    (h : s.Explains m.config m.openModes L) (he : (perform s m).error? = none) {ps : List Piece}
    (hps : Remaining m.config (perform s m).machine.state ps) : L (s.pieces ++ ps) := by
  induction s generalizing m L with
  | skip t s ih => exact ih (m := m.skip t) h he hps
  | emit k t s ih => exact ih (m := (m.take t).2) h he hps
  | enter mode s ih => exact ih (m := m.enter mode) h he hps
  | leave s ih => exact ih (m := m.leave) (by rw [openModes_leave]; exact h) he hps
  | note c s ih => exact ih (m := m.note c) h he hps
  | goto s => exact h ps hps
  | resume =>
    rw [Script.Explains, topMode_openModes] at h
    exact h ps hps
  | fail t f => simp [perform] at he

/-- The layout of a run without an error is explained from the state that it begins in. -/
theorem Coherent.remaining_layout {m : Machine} (hm : m.Coherent) (he : m.run.error? = none) :
    Remaining m.config m.state m.layout := by
  induction m using run_induction with
  | done m hdone =>
    rw [layout_of_done hdone, hdone]
    exact .nil
  | error m hdone hstep =>
    rw [run_of_error hstep] at he
    exact absurd he hstep
  | step m hdone hstep ih =>
    rw [run_eq, Run.error?_followedBy, hstep, Option.none_or] at he
    have hbehind := ih (hm.step hstep) he
    rw [Machine.step, config_perform] at hbehind
    rw [layout_of_not_done hdone]
    exact explained_perform (Script.explains_ofState hm.view_shows hm.fits) hstep hbehind

end Machine

end StyleLex

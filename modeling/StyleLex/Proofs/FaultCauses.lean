import StyleLex.Proofs.OpenBrackets

/-!
# Causes of faults

A script fails only where the text ahead and the innermost mode give it the cause that it reports, and
it reports the place of that cause.
-/
namespace StyleLex

variable {c : Config} {ms : List Mode} {rest tail t : Text} {v : View} {s : Script}

/-- `f` is right for a script that moves over `scanned` and stops, with `rest` ahead of `scanned` and
the modes `ms` open. -/
inductive Fault.Justified (c : Config) (ms : List Mode) (rest : Text) : Text → Fault → Prop where
  | character {scanned t : Text} {a : Char} (split : rest = scanned ++ a :: t) :
      Justified c ms rest scanned ⟨.unexpectedCharacter a, .scan⟩
  | endOfText {scanned : Text} (all : rest = scanned) :
      Justified c ms rest scanned ⟨.unexpectedEndOfInput, .scan⟩
  | firstCharacter {scanned t : Text} {a : Char} (reads : scanned <+: rest) (ahead : rest = a :: t) :
      Justified c ms rest scanned ⟨.unexpectedCharacter a, .lexeme⟩
  | quote {t : Text} {q : Char} (ahead : rest = q :: t) (quote : isQuote q = true) (open_ : q ∉ t) :
      Justified c ms rest [q] ⟨.unterminatedLiteral q, .lexeme⟩
  | opener {scanned : Text} {q : Char} {k : Kind} (reads : scanned <+: rest)
      (bracket : (topMode ms).opener? = some k) (closer : (topMode ms).closer? = some q) :
      Justified c ms rest scanned ⟨.unterminatedLiteral q, .opener⟩
  | unbalanced {t : Text} (ahead : rest = '}' :: t) (bottom : ms = []) :
      Justified c ms rest [] ⟨.unbalancedCloseBrace, .scan⟩
  | atEnd (value : topMode ms = .value) (ahead : rest = []) :
      Justified c ms rest [] ⟨.missingSemicolon, .scan⟩
  | atBrace {t : Text} (value : topMode ms = .value) (strict : c.requireSemicolon = true)
      (ahead : rest = '}' :: t) : Justified c ms rest [] ⟨.missingSemicolon, .scan⟩
  | number {scanned : Text} (reads : scanned <+: rest) (ahead : Script.numberAhead rest = true) :
      Justified c ms rest scanned ⟨.invalidNumberFormat, .lexeme⟩
  | unit {letters tail : Text} (munch : rest.Munch Char.isAlpha letters tail) (ne : letters ≠ [])
      (unknown : NumberUnit.ofSuffix? letters = none) :
      Justified c ms rest letters ⟨.invalidNumberFormat, .lexeme⟩
  | color {scanned t : Text} (reads : scanned <+: rest) (ahead : rest = '#' :: t) :
      Justified c ms rest scanned ⟨.invalidHexColor, .lexeme⟩

theorem Fault.justified_unexpected {scanned : Text} (split : rest = scanned ++ tail) :
    (Fault.unexpected tail).Justified c ms rest scanned := by
  cases tail with
  | nil => exact .endOfText (by simpa using split)
  | cons a t => exact .character split

/-- Every mode that a character closes, but for the arguments of a pseudo selector, has a token that
opened it. -/
theorem Mode.exists_opener {mode : Mode} {q : Char} (h : mode.closer? = some q)
    (other : mode ≠ .pseudoArguments) : ∃ k, mode.opener? = some k := by
  cases mode <;> simp [Mode.closer?, Mode.opener?] at h other ⊢

theorem Fault.justified_unclosed (htop : topMode ms = v.top) (other : v.top ≠ .pseudoArguments) :
    (Fault.unclosed v.top rest).Justified c ms rest [] := by
  unfold Fault.unclosed
  split
  case h_1 q hq =>
    obtain ⟨k, hk⟩ := Mode.exists_opener hq other
    rw [← htop] at hk hq
    exact .opener List.nil_prefix hk hq
  case h_2 => exact justified_unexpected rfl

namespace Script

/-- If the script fails on `rest`, it has a right fault. -/
inductive Faults (c : Config) : Script → List Mode → Text → Prop where
  | skip {t tail rest : Text} {s : Script} {ms : List Mode} (split : rest = t ++ tail)
      (behind : Faults c s ms tail) : Faults c (skip t s) ms rest
  | emit {k : Kind} {t tail rest : Text} {s : Script} {ms : List Mode} (split : rest = t ++ tail)
      (behind : Faults c s ms tail) : Faults c (emit k t s) ms rest
  | enter {mode : Mode} {rest : Text} {s : Script} {ms : List Mode}
      (behind : Faults c s (mode :: ms) rest) : Faults c (enter mode s) ms rest
  | leave {rest : Text} {s : Script} {ms : List Mode} (behind : Faults c s ms.tail rest) :
      Faults c (leave s) ms rest
  | note {g : Compound} {rest : Text} {s : Script} {ms : List Mode} (behind : Faults c s ms rest) :
      Faults c (note g s) ms rest
  | goto {st : State} {rest : Text} {ms : List Mode} : Faults c (goto st) ms rest
  | resume {rest : Text} {ms : List Mode} : Faults c resume ms rest
  | fail {t rest : Text} {f : Fault} {ms : List Mode} (justified : f.Justified c ms rest t) :
      Faults c (fail t f) ms rest

variable {next : Text → Script} {k : Kind} {a : Char}

theorem faults_unexpected : (fail [] (.unexpected rest)).Faults c ms rest :=
  .fail (Fault.justified_unexpected rfl)

theorem faults_unclosed (htop : topMode ms = v.top) (other : v.top ≠ .pseudoArguments) :
    (fail [] (.unclosed v.top rest)).Faults c ms rest :=
  .fail (Fault.justified_unclosed htop other)

theorem SigilForm.faults (hs : SigilForm k a rest next s) (h : ∀ tail, (next tail).Faults c ms tail) :
    s.Faults c ms (a :: rest) := by
  cases hs with
  | nameless => exact .fail (Fault.justified_unexpected rfl)
  | named munch => exact .emit (congrArg (a :: ·) munch.split) (h _)

theorem QuotedForm.faults {q : Char} (hs : QuotedForm q rest next s) (quote : isQuote q = true)
    (h : ∀ tail, (next tail).Faults c ms tail) : s.Faults c ms (q :: rest) := by
  cases hs with
  | unclosed open_ => exact .fail (.quote rfl quote open_)
  | closed split =>
    have hopen : q :: rest = [q] ++ rest := rfl
    exact .skip hopen (.emit split (.skip rfl (h _)))

theorem UnitForm.faults (hs : UnitForm rest next s) (h : ∀ tail, (next tail).Faults c ms tail) :
    s.Faults c ms rest := by
  cases hs with
  | percent ahead => exact .emit ahead (h _)
  | none => exact h rest
  | known munch => exact .emit munch.split (h _)
  | unknown munch ne unknown => exact .fail (.unit munch ne unknown)

theorem NumberForm.faults (hs : NumberForm rest next s) (ahead : numberAhead rest = true)
    (h : ∀ tail, (next tail).Faults c ms tail) : s.Faults c ms rest := by
  have hpoint {sgn digits t fraction behind : Text} (whole : Whole rest sgn digits ('.' :: t))
      (munch : t.Munch Char.isDigit fraction behind) :
      rest = (sgn ++ digits ++ '.' :: fraction) ++ behind := by
    rw [whole.split, munch.split]
    simp
  cases hs with
  | malformed whole munch => exact .fail (.number ⟨_, (hpoint whole munch).symm⟩ ahead)
  | float whole munch _ _ unit => exact .emit (hpoint whole munch) (unit.faults h)
  | integer whole _ _ unit =>
    exact .emit (by rw [whole.split, List.append_assoc]) (unit.faults h)

theorem HexColorForm.faults (hs : HexColorForm rest next s)
    (h : ∀ tail, (next tail).Faults c ms tail) : s.Faults c ms ('#' :: rest) := by
  cases hs with
  | color munch => exact .emit (congrArg ('#' :: ·) munch.split) (h _)
  | malformed munch => exact .fail (.color ⟨_, (congrArg ('#' :: ·) munch.split).symm⟩ rfl)

theorem ConstantForm.faults {inCall : Bool} (hs : ConstantForm inCall rest next s)
    (h : ∀ tail, (next tail).Faults c ms tail) : s.Faults c ms rest := by
  cases hs with
  | none => exact faults_unexpected
  | word word => exact .emit word.split (h _)

theorem faults_openInterpolation (ahead : rest = '#' :: '{' :: t) :
    openInterpolation.Faults c ms rest :=
  .enter (.emit ahead .goto)

theorem ComponentForm.faults {after : State} (hs : ComponentForm v after rest s) :
    s.Faults c ms rest := by
  cases hs with
  | atEnd ahead =>
    rw [ahead]
    exact faults_unexpected
  | reference ahead form => exact ahead ▸ form.faults fun _ => .goto
  | interpolation ahead => exact faults_openInterpolation ahead
  | hexColor ahead _ form => exact ahead ▸ form.faults fun _ => .goto
  | quoted ahead quote form => exact ahead ▸ form.faults quote fun _ => .goto
  | comma ahead => exact .emit ahead .goto
  | call ahead => exact .enter (.emit ahead .goto)
  | stray => exact faults_unexpected
  | number ahead form => exact form.faults ahead fun _ => .goto
  | constant _ _ _ _ form => exact form.faults fun _ => .goto

theorem ValueForm.faults (hs : ValueForm v rest s) (hv : v.Shows c ms)
    (h : State.Fits c .value ms) : s.Faults c ms rest := by
  have hvalue (outside : v.inCall = false) : topMode ms = .value := by
    obtain ⟨ms', rfl, outer⟩ := h.not_inCall hv outside
    rfl
  cases hs with
  | endOfText ahead outside => exact .fail (.atEnd (hvalue outside) ahead)
  | endInCall ahead inside =>
    obtain ⟨ms', rfl, outer⟩ := h.inCall hv inside
    rw [ahead]
    exact faults_unclosed hv.top.symm (by rw [hv.top]; exact Mode.noConfusion)
  | braceInCall _ inside =>
    obtain ⟨ms', rfl, outer⟩ := h.inCall hv inside
    exact .fail (.opener List.nil_prefix rfl rfl)
  | semicolon ahead => exact .emit ahead (.leave .resume)
  | missing ahead outside strict =>
    exact .fail (.atBrace (hvalue outside) (hv.config ▸ strict) ahead)
  | lenient => exact .leave .resume
  | endOfCall ahead => exact .emit ahead (.leave .resume)
  | component _ _ _ _ form => exact form.faults

theorem CloseForm.faults (hs : CloseForm v s) (ahead : rest = '}' :: t) : s.Faults c ms rest := by
  cases hs with
  | selector => exact .emit ahead (.leave (.note .resume))
  | value => exact .emit ahead (.leave .resume)

theorem InterpolationForm.faults (hs : InterpolationForm v s) (hv : v.Shows c ms)
    (h : State.Fits c .interpolation ms) : s.Faults c ms v.rest := by
  have htop : topMode ms = .interpolation := by
    cases h <;> rfl
  cases hs with
  | unclosedSkipped =>
    exact .fail (.opener List.nil_prefix (by rw [htop]; rfl) (by rw [htop]; rfl))
  | skipped _ split _ close => exact .skip split (close.faults rfl)
  | unclosed _ munch =>
    exact .skip munch.split
      (faults_unclosed hv.top.symm (by rw [hv.top, htop]; exact Mode.noConfusion))
  | close _ munch close => exact .skip munch.split (close.faults rfl)
  | component _ munch _ form => exact .skip munch.split form.faults

theorem PseudoForm.faults (hs : PseudoForm rest s) : s.Faults c ms (':' :: rest) := by
  have hname {colons t name tail : Text} (found : Colons rest colons t)
      (munch : t.Munch isNameChar name tail) : ':' :: rest = (colons ++ name) ++ tail := by
    rw [found.split, munch.split, List.append_assoc]
  cases hs with
  | nameless found => exact .fail (Fault.justified_unexpected found.split)
  | bare found munch => exact .emit (hname found munch) (.note .goto)
  | arguments found munch =>
    exact .emit (hname found munch) (.note (.enter (.skip rfl .goto)))

theorem SimpleForm.faults (hs : SimpleForm a rest s) : s.Faults c ms (a :: rest) := by
  cases hs with
  | group => exact .enter (.emit (t := [a]) rfl .goto)
  | pseudo start form => exact start ▸ form.faults
  | sigil _ form => exact form.faults fun _ => .note .goto
  | universal => exact .emit (t := [a]) rfl (.note .goto)
  | parent _ munch => exact .emit (congrArg (a :: ·) munch.split) (.note .goto)
  | tag _ munch => exact .emit (congrArg (a :: ·) munch.split) (.note .goto)

theorem CompoundForm.faults (hs : CompoundForm v a rest s) : s.Faults c ms (a :: rest) := by
  cases hs with
  | interpolation ahead => exact faults_openInterpolation ahead
  | continued _ _ _ munch => exact .emit (congrArg (a :: ·) munch.split) (.note .goto)
  | simple _ _ _ form => exact form.faults
  | glued _ _ _ form => exact .emit (t := []) rfl form.faults
  | stray => exact faults_unexpected

theorem SelectorForm.faults (hs : SelectorForm v s) : s.Faults c ms v.rest := by
  cases hs with
  | atEnd munch => exact .fail (Fault.justified_unexpected munch.split)
  | combinator munch _ behind =>
    exact .skip munch.split (.emit (t := [_]) rfl (.skip behind.split (.note .goto)))
  | block munch =>
    exact .skip munch.split (.leave (.enter (.emit (t := ['{']) rfl (.note .goto))))
  | comma munch => exact .skip munch.split (.emit (t := [',']) rfl (.note .goto))
  | descendant munch => exact .emit munch.split (.note .goto)
  | compound munch _ _ _ _ form => exact .skip munch.split form.faults

theorem AttributeEndForm.faults (hs : AttributeEndForm v rest s) (htop : topMode ms = v.top)
    (other : v.top ≠ .pseudoArguments) : s.Faults c ms rest := by
  cases hs with
  | closed ahead => exact .emit ahead (.leave (.note .goto))
  | unclosed => exact faults_unclosed htop other

theorem AttributeForm.faults (hs : AttributeForm v s) (htop : topMode ms = v.top)
    (other : v.top ≠ .pseudoArguments) : s.Faults c ms v.rest := by
  have hend (t : Text) : (attributeEnd v t).Faults c ms t :=
    (attributeEnd_form v t).faults htop other
  cases hs with
  | nameless munch => exact .skip munch.split (faults_unclosed htop other)
  | named munch run _ behind form =>
    apply Faults.skip munch.split
    apply Faults.emit run.split
    apply Faults.skip behind.split
    cases form with
    | none _ form => exact form.faults htop other
    | operator _ split behind form =>
      apply Faults.emit split
      apply Faults.skip behind.split
      cases form with
      | quoted ahead quote form =>
        subst ahead
        exact form.faults quote fun t => .skip (Text.munch isSpace t).split (hend _)
      | bare munch _ behind => exact .emit munch.split (.skip behind.split (hend _))
      | missing => exact faults_unclosed htop other

theorem ColonForm.faults (hs : ColonForm rest s) : s.Faults c ms rest := by
  cases hs with
  | colon munch => exact .skip munch.split (.emit (t := [':']) rfl (.enter .goto))
  | missing munch => exact .skip munch.split faults_unexpected

theorem StatementForm.faults (hs : StatementForm v rest s) (hv : v.Shows c ms)
    (outer : Blocks ms) : s.Faults c ms rest := by
  cases hs with
  | finished => exact .goto
  | unclosed ahead =>
    rw [ahead]
    exact faults_unclosed hv.top.symm (by rw [hv.top]; exact outer.ne_arguments)
  | atRule => exact .goto
  | assignment => exact .goto
  | block ahead => exact .enter (.emit ahead .goto)
  | close ahead => exact .emit ahead (.leave .resume)
  | unbalanced ahead outside =>
    cases outer with
    | nil => exact .fail (.unbalanced ahead rfl)
    | cons => exact absurd hv.top outside
  | quoted ahead quote form => exact ahead ▸ form.faults quote fun _ => .goto
  | number ahead digit form =>
    exact form.faults (ahead ▸ numberAhead_of_isDigit digit _) fun _ => .goto
  | property => exact .goto
  | selector => exact .enter (.note .goto)
  | stray => exact faults_unexpected

theorem faults_ofState {st : State} (hv : v.Shows c ms) (h : st.Fits c ms)
    (other : st ≠ .pseudoArguments) : (ofState st v).Faults c ms v.rest := by
  have hs := ofState_form st v
  generalize ofState st v = s at hs ⊢
  cases hs with
  | statement munch form =>
    cases h with | statement outer => exact .skip munch.split (form.faults hv outer)
  | atRule form =>
    cases form with
    | atEnd ahead =>
      rw [ahead]
      exact faults_unexpected
    | known ahead munch => exact .emit (by rw [ahead, munch.split]; rfl) (.enter .goto)
    | unknown ahead munch =>
      exact .fail (.firstCharacter ⟨_, by rw [ahead, munch.split]; rfl⟩ ahead)
  | assignment form =>
    cases form with
    | atEnd ahead =>
      rw [ahead]
      exact faults_unexpected
    | named ahead form =>
      rw [ahead]
      exact form.faults fun _ => (colon_form _).faults
  | property form =>
    cases form with
    | atEnd ahead =>
      rw [ahead]
      exact faults_unexpected
    | named ahead _ munch form =>
      exact .emit (by rw [ahead, munch.split]; rfl) form.faults
    | stray => exact faults_unexpected
  | selector form => exact form.faults
  | group form =>
    cases h with
    | group => exact form.faults hv.top.symm (by rw [hv.top]; exact Mode.noConfusion)
  | pseudoArguments => exact absurd rfl other
  | value munch form => exact .skip munch.split (form.faults hv h)
  | interpolation form => exact form.faults hv h
  | done => exact .goto

end Script

end StyleLex

import StyleLex.Proofs.FaultCauses
import StyleLex.Proofs.TokenPlaces

/-!
# Errors report the place of their cause

The error of a run has the offset and the line of a place in the text, and what stands there, or what
is still open there, is what the error says.
-/
namespace StyleLex

namespace LexError

/-- The error is at the innermost bracket still open behind `ts`, in its mode, and misses `q`, which
would close it. -/
def AtOpener (ts : List Token) (q : Char) (e : LexError) : Prop :=
  ∃ t outer, openTokens [] ts = some (t :: outer) ∧ t.offset = e.offset ∧ t.line = e.line ∧
    e.context.opener? = some t.kind ∧ e.context.closer? = some q

/-- The error is at the parenthesis right behind the last token, the name of a pseudo selector. -/
def AtArguments (ts : List Token) (behind : Text) (q : Char) (e : LexError) : Prop :=
  q = ')' ∧ e.context = .pseudoArguments ∧ behind.head? = some '(' ∧
    ∃ front t, ts = front ++ [t] ∧ t.kind = .pseudoSelector ∧ t.stop = e.offset

/-- The error is at a quote that is never closed. -/
def AtQuote (behind : Text) (q : Char) : Prop := isQuote q = true ∧ ∃ t, behind = q :: t ∧ q ∉ t

/-- What the tokens in front of the error and the text from its place on show of its cause. -/
def Shown (c : Config) (ts : List Token) (behind : Text) (e : LexError) : Prop :=
  match e.cause with
  | .unexpectedCharacter a => behind.head? = some a
  | .unexpectedEndOfInput => behind = []
  | .unterminatedLiteral q => AtQuote behind q ∨ e.AtOpener ts q ∨ e.AtArguments ts behind q
  | .unbalancedCloseBrace =>
      behind.head? = some '}' ∧ openTokens [] ts = some [] ∧ e.context = .topLevel
  | .missingSemicolon => e.context = .value ∧
      (behind = [] ∨ c.requireSemicolon = true ∧ behind.head? = some '}')
  | .invalidNumberFormat => Script.numberAhead behind = true ∨
      behind.takeWhile Char.isAlpha ≠ [] ∧
        NumberUnit.ofSuffix? (behind.takeWhile Char.isAlpha) = none
  | .invalidHexColor => behind.head? = some '#'

end LexError

variable {source before : Text} {ts st st' : List Token} {m : Machine} {s : Script} {e : LexError}

theorem mem_of_openTokens {t : Token} (h : openTokens st ts = some st') (hmem : t ∈ st') :
    t ∈ st ∨ t ∈ ts := by
  induction ts generalizing st with
  | nil =>
    cases h
    exact .inl hmem
  | cons u ts ih =>
    have hcons {outer : List Token} (hst : ∀ v ∈ outer, v ∈ st ∨ v = u)
        (h : openTokens outer ts = some st') : t ∈ st ∨ t ∈ u :: ts := by
      rcases ih h with hmem | hmem
      · rcases hst t hmem with hmem | rfl
        · exact .inl hmem
        · exact .inr List.mem_cons_self
      · exact .inr (List.mem_cons_of_mem _ hmem)
    unfold openTokens at h
    split at h
    case h_1 =>
      split at h
      · refine hcons ?_ h
        intro v hv
        exact (List.mem_cons.1 hv).symm
      · exact hcons (fun v hv => .inl hv) h
    case h_2 =>
      split at h
      · exact hcons (fun v hv => .inl (List.mem_cons_of_mem _ hv)) h
      · cases h
    case h_3 => cases h

/-- If a bracket opened the innermost mode, the innermost open token is its token. -/
theorem Marked.exists_top {fs : List Frame} {k : Kind} (h : Marked fs st)
    (htop : (topMode (fs.map Frame.mode)).opener? = some k) :
    ∃ t outer, st = t :: outer ∧ t.offset = (fs.headD .bottom).offset ∧
      t.line = (fs.headD .bottom).line ∧ (fs.headD .bottom).mode.opener? = some t.kind := by
  cases h with
  | nil => cases htop
  | plain plain => exact absurd (plain.symm.trans htop) nofun
  | @bracket f fs t outer kind offset line => exact ⟨t, outer, rfl, offset, line, kind⟩

namespace Machine

/-- A script that fails does so in a machine that stands in the text and has the right fault. -/
theorem exists_fault (hs : s.Faults m.config m.openModes m.cursor.rest)
    (h : m.Stands source before) (he : (perform s m).error? = some e) :
    ∃ (m' : Machine) (b scanned : Text) (f : Fault), m'.Stands source b ∧
      f.Justified m.config m'.openModes m'.cursor.rest scanned ∧
      e = (m'.stop scanned).locate f ∧ (perform s m).machine = m'.stop scanned := by
  generalize hms : m.openModes = ms at hs
  generalize hrest : m.cursor.rest = rest at hs
  generalize hc : m.config = c at hs ⊢
  induction hs generalizing m before with
  | skip split _ ih =>
    rw [← hrest] at split
    exact ih (m := m.skip _) (h.skip split) he hms (rest_skip_of_eq split) hc
  | emit split _ ih =>
    rw [← hrest] at split
    exact ih (m := (m.take _).2) (h.take split) he hms (rest_take_of_eq split) hc
  | enter _ ih =>
    exact ih (m := m.enter _) ⟨h.cursor, h.lexeme⟩ he (congrArg (_ :: ·) hms) hrest hc
  | leave _ ih =>
    exact ih (m := m.leave) ⟨h.cursor, h.lexeme⟩ he (by rw [openModes_leave, hms]) hrest hc
  | note _ ih => exact ih (m := m.note _) ⟨h.cursor, h.lexeme⟩ he hms hrest hc
  | goto => cases he
  | resume => cases he
  | fail justified =>
    rw [← hms, ← hrest] at justified
    exact ⟨m, before, _, _, h, justified, (Option.some.inj he).symm, rfl⟩

/-- The innermost mode is opened at a parenthesis right behind the last token, the name of a pseudo
selector, and nothing has been read behind the parenthesis. -/
def BehindName (before : Text) (ts : List Token) (modes : ModeStack) : Prop :=
  ∃ b front t, before = b ++ ['('] ∧ ts = front ++ [t] ∧ t.kind = .pseudoSelector ∧
    t.stop = b.byteSize ∧ modes.topFrame = ⟨.pseudoArguments, b.byteSize, 1 + b.newlines⟩

theorem BehindName.append {modes : ModeStack} (h : BehindName before ts modes) (us : List Token) :
    BehindName before (us ++ ts) modes := by
  obtain ⟨b, front, t, hbefore, rfl, hname⟩ := h
  exact ⟨b, us ++ front, t, hbefore, by rw [List.append_assoc], hname⟩

/-- A script goes on to arguments only behind the name that they belong to. -/
theorem behindName_perform (hs : s.Brackets m.openModes) (hr : s.Reads m.cursor.rest)
    (h : m.Stands source before) (hstate : (perform s m).machine.state = .pseudoArguments) :
    BehindName (before ++ Piece.texts s.pieces) (perform s m).tokens (perform s m).machine.modes := by
  generalize hms : m.openModes = ms at hs
  induction hs generalizing m before with
  | skip _ ih =>
    obtain ⟨tail, ahead, hr⟩ := hr
    rw [← rest_skip_of_eq ahead] at hr
    rw [Script.pieces, Piece.texts_cons, ← List.append_assoc]
    exact ih (m := m.skip _) hr (h.skip ahead) hstate hms
  | emit _ _ ih =>
    obtain ⟨_, tail, ahead, hr⟩ := hr
    rw [← rest_take_of_eq ahead] at hr
    rw [Script.pieces, Piece.texts_cons, ← List.append_assoc]
    exact (ih (m := (m.take _).2) hr (h.take ahead) hstate hms).append [_]
  | opens _ _ ih =>
    obtain ⟨_, tail, ahead, hr⟩ := hr
    rw [← rest_take_of_eq ahead] at hr
    rw [Script.pieces, Script.pieces, Piece.texts_cons, ← List.append_assoc]
    have hstands := h.take ahead
    exact (ih (m := ((m.enter _).take _).2) hr ⟨hstands.cursor, hstands.lexeme⟩ hstate
      (congrArg (_ :: ·) hms)).append [_]
  | @closes mode k o t s ms _ _ _ ih =>
    obtain ⟨_, tail, ahead, hr⟩ := hr
    rw [← rest_take_of_eq ahead] at hr
    rw [Script.pieces, Script.pieces, Piece.texts_cons, ← List.append_assoc]
    have hstands := h.take ahead
    have hmodes : (m.take t).2.leave.openModes = ms :=
      (openModes_leave (m.take t).2).trans (congrArg List.tail hms)
    exact (ih (m := (m.take t).2.leave) hr ⟨hstands.cursor, hstands.lexeme⟩ hstate hmodes).append [_]
  | enter _ _ ih => exact ih (m := m.enter _) hr ⟨h.cursor, h.lexeme⟩ hstate (congrArg (_ :: ·) hms)
  | leave _ _ ih =>
    exact ih (m := m.leave) hr ⟨h.cursor, h.lexeme⟩ hstate (by rw [openModes_leave, hms]; rfl)
  | note _ ih => exact ih (m := m.note _) hr ⟨h.cursor, h.lexeme⟩ hstate hms
  | @arguments t =>
    obtain ⟨_, tail, ahead, _⟩ := hr
    have hbehind := (h.take ahead).cursor
    refine ⟨before ++ t, [], _, ?_, rfl, rfl, ?_, ?_⟩
    · simp [Script.pieces, Script.noteSimple, Piece.text]
    · rw [h.token, Text.byteSize_append]
      rfl
    · rw [← hbehind.start, ← hbehind.startLine]
      rfl
  | goto other => exact absurd hstate other
  | resume other =>
    rw [← hms, topMode_openModes] at other
    cases htop : m.modes.top <;> simp [perform, resume, Machine.goto, htop, State.ofMode] at hstate other
  | fail => cases hstate

/-- What the tokens `ts` of a run so far and the text `before` that it has read say of the machine. -/
structure Recorded (source before : Text) (ts : List Token) (m : Machine) : Prop where
  stands : m.Stands source before
  coherent : m.Coherent
  brackets : ∃ st, openTokens [] ts = some st ∧ Marked m.modes.frames st
  name : m.state = .pseudoArguments → BehindName before ts m.modes

theorem recorded_start (c : Config) (source : Text) : (start c source).Recorded source [] [] where
  stands := stands_start c source
  coherent := coherent_start c source
  brackets := ⟨[], rfl, .nil⟩
  name := nofun

/-- The brackets stay on record in a step, also in one that fails. -/
theorem Recorded.brackets_step (h : m.Recorded source before ts) :
    ∃ st, openTokens [] (ts ++ m.step.tokens) = some st ∧ Marked m.step.machine.modes.frames st := by
  obtain ⟨st, hst, hm⟩ := h.brackets
  obtain ⟨st', hst', hm'⟩ := openTokens_perform h.coherent.brackets hm
  refine ⟨st', ?_, hm'⟩
  rw [openTokens_append, hst]
  exact hst'

theorem Recorded.step (h : m.Recorded source before ts) (hdone : m.state ≠ .done)
    (he : m.step.error? = none) :
    m.step.machine.Recorded source (before ++ Piece.texts m.script.pieces) (ts ++ m.step.tokens) where
  stands := (stands_perform h.stands (h.coherent.reads hdone) he).1
  coherent := h.coherent.step he
  brackets := h.brackets_step
  name := fun hstate =>
    (behindName_perform h.coherent.brackets (h.coherent.reads hdone) h.stands hstate).append ts

/-- The error of `m`, with the tokens `ts` in front of it, is at the innermost open bracket, or at a
place in the text that shows its cause. -/
def Explains (source : Text) (ts : List Token) (e : LexError) (m : Machine) : Prop :=
  (∃ q, e.cause = .unterminatedLiteral q ∧ e.AtOpener ts q) ∨
    ∃ b behind, source = b ++ behind ∧ e.offset = b.byteSize ∧ e.line = 1 + b.newlines ∧
      e.Shown m.config ts behind

/-- A right fault becomes an error that is explained by the brackets on record. -/
theorem explains_locate {m' : Machine} {b scanned : Text} {f : Fault} (h : m'.Stands source b)
    (hf : f.Justified m.config m'.openModes m'.cursor.rest scanned)
    (hst : openTokens [] ts = some st) (hm : Marked m'.modes.frames st) :
    m.Explains source ts ((m'.stop scanned).locate f) := by
  have hsplit := h.split
  have hscan {scanned tail : Text} (split : m'.cursor.rest = scanned ++ tail) :
      source = (b ++ scanned) ++ tail ∧
        (m'.cursor.advance scanned).pos = (b ++ scanned).byteSize ∧
        (m'.cursor.advance scanned).line = 1 + (b ++ scanned).newlines := by
    have hadvance := h.cursor.advance split
    have hlexeme : (m'.cursor.advance scanned).lexeme = scanned := by
      rw [Cursor.lexeme_advance, h.lexeme, List.nil_append]
    refine ⟨?_, ?_, ?_⟩
    · rw [List.append_assoc, ← split]
      exact hsplit
    · rw [hadvance.pos, hlexeme]
    · rw [hadvance.line, hlexeme]
  cases hf with
  | character split =>
    obtain ⟨hsource, hpos, hline⟩ := hscan split
    exact .inr ⟨_, _, hsource, hpos, hline, rfl⟩
  | endOfText all =>
    obtain ⟨hsource, hpos, hline⟩ := hscan (all.trans (List.append_nil scanned).symm)
    exact .inr ⟨_, _, hsource, hpos, hline, rfl⟩
  | firstCharacter _ ahead =>
    exact .inr ⟨b, _, hsplit, h.cursor.start, h.cursor.startLine, by rw [ahead]; rfl⟩
  | quote ahead quote open_ =>
    exact .inr ⟨b, _, hsplit, h.cursor.start, h.cursor.startLine, .inl ⟨quote, _, ahead, open_⟩⟩
  | opener _ bracket closer =>
    obtain ⟨t, outer, rfl, hoffset, hline, hkind⟩ := hm.exists_top bracket
    rw [topMode_openModes] at closer
    exact .inl ⟨_, rfl, t, outer, hst, hoffset, hline, hkind, closer⟩
  | unbalanced ahead bottom =>
    obtain ⟨hsource, hpos, hline⟩ := hscan (List.nil_append _).symm
    have hframes : m'.modes.frames = [] := List.map_eq_nil_iff.1 bottom
    rw [hframes] at hm
    cases hm
    have hcontext : m'.modes.top = .topLevel := by rw [← topMode_openModes, bottom]; rfl
    exact .inr ⟨_, _, hsource, hpos, hline, by rw [ahead]; rfl, hst, hcontext⟩
  | atEnd value ahead =>
    obtain ⟨hsource, hpos, hline⟩ := hscan (List.nil_append _).symm
    rw [topMode_openModes] at value
    exact .inr ⟨_, _, hsource, hpos, hline, value, .inl ahead⟩
  | atBrace value strict ahead =>
    obtain ⟨hsource, hpos, hline⟩ := hscan (List.nil_append _).symm
    rw [topMode_openModes] at value
    exact .inr ⟨_, _, hsource, hpos, hline, value, .inr ⟨strict, by rw [ahead]; rfl⟩⟩
  | number _ ahead =>
    exact .inr ⟨b, _, hsplit, h.cursor.start, h.cursor.startLine, .inl ahead⟩
  | unit munch ne unknown =>
    rw [← munch.takeWhile_eq.1] at ne unknown
    exact .inr ⟨b, _, hsplit, h.cursor.start, h.cursor.startLine, .inr ⟨ne, unknown⟩⟩
  | color _ ahead =>
    exact .inr ⟨b, _, hsplit, h.cursor.start, h.cursor.startLine, by rw [ahead]; rfl⟩

/-- In front of the arguments of a pseudo selector the only fault is that they are never closed. -/
theorem Recorded.explains_arguments (h : m.Recorded source before ts)
    (hstate : m.state = .pseudoArguments) (he : m.step.error? = some e) :
    m.Explains source (ts ++ m.step.tokens) e := by
  obtain ⟨b, front, t, rfl, rfl, hkind, hstop, hframe⟩ := h.name hstate
  have htop : m.modes.top = .pseudoArguments := congrArg Frame.mode hframe
  have hscript : m.script = Script.pseudoArguments m.view := by rw [script, hstate, Script.ofState]
  have hform := Script.pseudoArguments_form m.view
  rw [← hscript] at hform
  rw [Machine.step] at he ⊢
  generalize m.script = s at hform he ⊢
  cases hform with
  | unclosed =>
    have hview : m.view.top = .pseudoArguments := htop
    rw [hview] at he ⊢
    obtain rfl := Option.some.inj he
    have hsource := h.stands.split
    rw [List.append_assoc] at hsource
    refine .inr ⟨b, _, hsource, congrArg Frame.offset hframe, congrArg Frame.line hframe,
      .inr (.inr ⟨rfl, htop, rfl, front, t, ?_, hkind, ?_⟩)⟩
    · exact List.append_nil _
    · exact hstop.trans (congrArg Frame.offset hframe).symm
  | empty => cases he
  | arguments => cases he

theorem Recorded.explains_step (h : m.Recorded source before ts) (he : m.step.error? = some e) :
    m.Explains source (ts ++ m.step.tokens) e := by
  by_cases hstate : m.state = .pseudoArguments
  · exact h.explains_arguments hstate he
  · have hfaults := Script.faults_ofState h.coherent.view_shows h.coherent.fits hstate
    obtain ⟨m', b, scanned, f, hm', hf, rfl, hstep⟩ := exists_fault hfaults h.stands he
    obtain ⟨st, hst, hmarked⟩ := h.brackets_step
    rw [Machine.step, script, hstep] at hmarked
    exact explains_locate hm' hf hst hmarked

theorem config_step (m : Machine) : m.step.machine.config = m.config := config_perform _ _

theorem Recorded.explains_run (h : m.Recorded source before ts) (he : m.run.error? = some e) :
    m.Explains source (ts ++ m.run.tokens) e := by
  induction m using run_induction generalizing before ts with
  | done m hdone =>
    rw [run_of_done hdone] at he
    cases he
  | error m hdone hstep =>
    rw [run_of_error hstep] at he ⊢
    exact h.explains_step he
  | step m hdone hstep ih =>
    rw [run_eq, Run.error?_followedBy, hstep, Option.none_or] at he
    have hbehind := ih (h.step hdone hstep) he
    rw [Explains, config_step, List.append_assoc] at hbehind
    rw [run_eq]
    exact hbehind

end Machine

/-- An error has the offset and line of a place in the text. Its cause can be read off the text there,
or off the brackets that the tokens in front of it leave open. -/
theorem error_shown (c : Config) (source : Text) (e : LexError)
    (h : tokenize c source = .error e) :
    ∃ before behind, source = before ++ behind ∧ e.offset = before.byteSize ∧
      e.line = 1 + before.newlines ∧ e.Shown c (Machine.start c source).run.tokens behind := by
  have he : (Machine.start c source).run.error? = some e := by
    rw [tokenize_eq] at h
    cases he : (Machine.start c source).run.error? with
    | none => rw [he] at h; cases h
    | some e' =>
      rw [he] at h
      exact congrArg some (Except.error.inj h)
  rcases (Machine.recorded_start c source).explains_run he with ⟨q, hcause, hopener⟩ | hplace
  · obtain ⟨t, outer, hopen, hoffset, hline, hkind, hcloser⟩ := hopener
    rw [List.nil_append] at hopen
    have hmem : t ∈ (Machine.start c source).run.tokens := by
      rcases mem_of_openTokens hopen List.mem_cons_self with hmem | hmem
      · cases hmem
      · exact hmem
    obtain ⟨htokens, tail, hsplit, -⟩ :=
      Machine.run_layout (Machine.coherent_start c source) (Machine.stands_start c source) nofun
    rw [htokens] at hmem
    obtain ⟨-, before, behind, htexts, hstart, hstartLine⟩ := Piece.exists_of_mem_tokens hmem
    rw [htexts, List.nil_append, List.append_assoc] at hsplit
    rw [List.nil_append] at hstart hstartLine
    refine ⟨before, _, hsplit, by rw [← hoffset, hstart], by rw [← hline, hstartLine], ?_⟩
    rw [LexError.Shown, hcause]
    exact .inr (.inl ⟨t, outer, hopen, hoffset, hline, hkind, hcloser⟩)
  · exact hplace

/-- The call on the second line is never closed, and the error has its place. -/
theorem error_shown_open_call :
    tokenize .standard "a\x7bb:\nf(".toList = .error ⟨.unterminatedLiteral ')', 6, 2, .functionArguments⟩ ∧
      ∃ before behind : Text, "a\x7bb:\nf(".toList = before ++ behind ∧ 6 = before.byteSize ∧
        2 = 1 + before.newlines ∧
        LexError.Shown .standard (Machine.start .standard "a\x7bb:\nf(".toList).run.tokens behind
          ⟨.unterminatedLiteral ')', 6, 2, .functionArguments⟩ := by
  have herror : tokenize .standard "a\x7bb:\nf(".toList =
      .error ⟨.unterminatedLiteral ')', 6, 2, .functionArguments⟩ := by
    decide +kernel
  exact ⟨herror, error_shown .standard _ _ herror⟩

end StyleLex

import StyleLex.Proofs.LexedScripts
import StyleLex.Proofs.TrailRuns

/-!
# The texts of tokens

What the text of a token depends on is kept from step to step: the call that is open is among the
brackets that the tokens leave open, and an interpolation in front of a selector is told by the trail. So
every token of a run has the text of its kind.
-/
namespace StyleLex

variable {source rest : Text} {front behind : List Token} {ps qs : List Piece} {tr : Trail}
  {c : Config} {ms : List Mode} {st : State}

theorem Blocks.head?_brackets (h : Blocks ms) : (brackets ms).head? ≠ some .parenStart := by
  cases h <;> exact nofun

/-- The innermost bracket is that of a call exactly where the state goes on with a call. -/
theorem State.Fits.head?_brackets (h : st.Fits c ms) :
    (brackets ms).head? = some .parenStart ↔ topMode ms = .functionArguments := by
  have hblocks {ms : List Mode} (outer : Blocks ms) : topMode ms ≠ .functionArguments := by
    cases outer <;> exact nofun
  cases h with
  | statement outer => exact iff_of_false outer.head?_brackets (hblocks outer)
  | atRule outer => exact iff_of_false outer.head?_brackets (hblocks outer)
  | assignment outer => exact iff_of_false outer.head?_brackets (hblocks outer)
  | selector outer => exact iff_of_false outer.head?_brackets nofun
  | value outer => exact iff_of_false outer.head?_brackets nofun
  | pseudoArguments outer => exact iff_of_false outer.head?_brackets nofun
  | property | group | interpolation | selectorInterpolation | done => exact iff_of_false nofun nofun
  | call => exact iff_of_true rfl rfl

namespace Trail

/-- Every token among the pieces has the text of its kind, if `rest` is the text ahead of them. -/
def Lexed (tr : Trail) : List Piece → Text → Prop
  | [], _ => True
  | .gap t :: ps, rest => (tr.pass t).Lexed ps (rest.drop t.length)
  | .token k t :: ps, rest =>
    tr.Spells t (rest.drop t.length) k ∧ (tr.take k).Lexed ps (rest.drop t.length)

theorem lexed_append : tr.Lexed (ps ++ qs) rest ↔
    tr.Lexed ps rest ∧ (tr.follow ps).Lexed qs (rest.drop (Piece.texts ps).length) := by
  induction ps generalizing tr rest with
  | nil => simp [Lexed, follow]
  | cons p ps ih =>
    cases p <;> simp [Lexed, follow, ih, Piece.text, and_assoc, List.drop_drop]

theorem reverse_kinds_follow (tr : Trail) (ps : List Piece) :
    (tr.follow ps).kinds.reverse = tr.kinds.reverse ++ (Piece.spelled ps).map Prod.fst := by
  induction ps generalizing tr with
  | nil => exact (List.append_nil _).symm
  | cons p ps ih =>
    cases p with
    | gap t => exact ih _
    | token k t =>
      rw [follow, ih, kinds_take, List.reverse_cons, List.append_assoc]
      rfl

end Trail

theorem Script.Lexes.lexed {s : Script} (h : s.Lexes rest tr) : tr.Lexed s.pieces rest := by
  induction s generalizing rest tr with
  | skip t s ih => exact ih h
  | emit k t s ih => exact ⟨h.1, ih h.2⟩
  | enter mode s ih => exact ih h
  | leave s ih => exact ih h
  | note g s ih => exact ih h
  | goto st => trivial
  | resume => trivial
  | fail t f => trivial

namespace Machine

variable {m : Machine}

/-- The trail tells the compound and the open brackets, and the machine is in front of its sign. -/
structure Told (tr : Trail) (m : Machine) : Prop where
  coherent : m.Coherent
  trailed : m.Trailed tr
  brackets : openBrackets [] tr.kinds.reverse = some (brackets m.openModes)
  sign : m.state.Faces m.cursor.rest

theorem told_start (c : Config) (source : Text) : (start c source).Told .start where
  coherent := coherent_start c source
  trailed := trailed_start c source
  brackets := rfl
  sign := trivial

theorem Told.step (h : m.Told tr) (he : m.step.error? = none) :
    m.step.machine.Told (tr.follow m.script.pieces) where
  coherent := h.coherent.step he
  trailed := h.trailed.step h.coherent he
  brackets := by
    have hkinds : m.step.kinds = (Piece.spelled m.script.pieces).map Prod.fst := kinds_perform _ m
    rw [Trail.reverse_kinds_follow, openBrackets_append, h.brackets, Option.bind_some, ← hkinds]
    exact h.coherent.openBrackets_step
  sign := faces_perform h.coherent.orderly he

theorem Told.prepared (h : m.Told tr) : Script.Prepared m.state m.view tr where
  call := by
    have htop : topMode m.openModes = m.view.top := m.topMode_openModes
    rw [Trail.inCall, h.brackets, Option.bind_some, View.inCall, ← htop]
    exact decide_eq_decide.2 h.coherent.fits.head?_brackets
  joined := by
    intro hstate glue
    have hplace := h.trailed.place
    rw [hstate] at hplace
    have hmeets : tr.Meets .interpolation := glue ▸ hplace.1
    cases hmeets with
    | interpolation last closed => exact ⟨last, closed⟩
  sign := h.sign

theorem Told.lexed (h : m.Told tr) : tr.Lexed m.script.pieces m.cursor.rest :=
  (Script.lexes_ofState h.coherent.compound h.prepared).lexed

/-- The step lemma along a run: every token of the layout has the text of its kind. -/
theorem Told.layout (h : m.Told tr) : tr.Lexed m.layout m.cursor.rest := by
  induction m using run_induction generalizing tr with
  | done m hdone =>
    rw [layout_of_done hdone]
    trivial
  | error m hdone he =>
    rw [layout_of_error he]
    exact h.lexed
  | step m hdone he ih =>
    have hbehind := ih (h.step he)
    rw [layout_of_not_done hdone, Trail.lexed_append]
    refine ⟨h.lexed, ?_⟩
    rwa [h.coherent.rest_step hdone he, List.drop_left]

end Machine

/-- Every token of a run, also of one that fails, has the text that its kind asks for: the kinds, the
gap in front of it and the text behind it tell where its runs of characters end. -/
theorem token_texts (c : Config) {u : Token}
    (h : (Machine.start c source).run.tokens = front ++ u :: behind) :
    ∃ tr before tail, source = before ++ (u.text ++ tail) ∧ Trail.Traces tr front before ∧
      u.offset = before.byteSize ∧ tr.Spells u.text tail u.kind := by
  obtain ⟨qs, rs, tail, hlayout, hsource, htraces, hoffset⟩ := exists_pieces c h
  have hlexed : Trail.start.Lexed (Machine.start c source).layout source :=
    (Machine.told_start c source).layout
  rw [hlayout, Trail.lexed_append, hsource, List.drop_left] at hlexed
  obtain ⟨-, hspells, -⟩ := hlexed
  rw [List.drop_left] at hspells
  exact ⟨Trail.start.follow qs, Piece.texts qs, tail, hsource, htraces, hoffset, hspells⟩

/-- In a call a semicolon is part of a word, which ends at the parenthesis. -/
theorem token_texts_word_in_call :
    ∃ front behind : List Token, (Machine.start .standard "$x:f(a;b);".toList).run.tokens =
        front ++ .make .constant ['a', ';', 'b'] 5 1 :: behind ∧
      ∃ (tr : Trail) (before tail : Text), "$x:f(a;b);".toList = before ++ (['a', ';', 'b'] ++ tail) ∧
        Trail.Traces tr front before ∧ 5 = before.byteSize ∧
        tr.Spells ['a', ';', 'b'] tail .constant := by
  have htokens : (Machine.start .standard "$x:f(a;b);".toList).run.tokens =
      [.make .variableName ['$', 'x'] 0 1, .make .colon [':'] 2 1, .make .constant ['f'] 3 1,
        .make .parenStart ['('] 4 1] ++ .make .constant ['a', ';', 'b'] 5 1 ::
          [.make .parenEnd [')'] 8 1, .make .semicolon [';'] 9 1] := by
    decide +kernel
  exact ⟨_, _, htokens, token_texts .standard htokens⟩

end StyleLex

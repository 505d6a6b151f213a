import StyleLex.Proofs.EmbeddedMachines
import StyleLex.Proofs.ShiftedRuns
import StyleLex.Proofs.SpacedStates

/-!
# Runs over text with spaces put in

The run over the text with more spaces stays beside the run over the text without them. At the place it
skips more, and from there on the two see the same text.
-/
namespace StyleLex

/-- The token with room made at the byte `p`, moved if it starts there or further on. -/
def Token.makeRoom (p bytes lines : Nat) (t : Token) : Token :=
  if t.offset < p then t else t.shift bytes lines

/-- The second pieces are the first ones with `w` put in behind `x`, in text that is dropped. -/
inductive Respaced (w : Text) : Text → List Piece → List Piece → Prop where
  | here {x r : Text} {ps : List Piece} :
      Respaced w x (.gap (x ++ r) :: ps) (.gap (x ++ (w ++ r)) :: ps)
  | gap {x y t : Text} {ps qs : List Piece} (split : x = t ++ y) (behind : Respaced w y ps qs) :
      Respaced w x (.gap t :: ps) (.gap t :: qs)
  | token {x y t : Text} {k : Kind} {ps qs : List Piece} (split : x = t ++ y) (ne : x ≠ [])
      (behind : Respaced w y ps qs) : Respaced w x (.token k t :: ps) (.token k t :: qs)

variable {w x y b t before before' : Text} {n l : Nat} {L ps qs : List Piece} {s s' : Script}
  {ms : List Mode} {g : Compound}

namespace Piece

theorem tokens_shift (hsize : before'.byteSize = before.byteSize + n)
    (hlines : before'.newlines = before.newlines + l) :
    tokens before' ps = (tokens before ps).map (Token.shift n l) := by
  induction ps generalizing before before' with
  | nil => rfl
  | cons p ps ih =>
    have hbehind : tokens (before' ++ p.text) ps =
        (tokens (before ++ p.text) ps).map (Token.shift n l) := by
      refine ih ?_ ?_
      · rw [Text.byteSize_append, Text.byteSize_append]
        omega
      · rw [Text.newlines_append, Text.newlines_append]
        omega
    cases p with
    | gap t => exact hbehind
    | token k t =>
      have hfirst : Token.make k t before'.byteSize (1 + before'.newlines) =
          (Token.make k t before.byteSize (1 + before.newlines)).shift n l := by
        rw [hsize, hlines, ← Nat.add_assoc]
        rfl
      rw [tokens, tokens, List.map_cons, hfirst]
      exact congrArg _ hbehind

end Piece

/-- The tokens in front of the place stay, and those behind it are moved. -/
theorem Respaced.tokens (h : Respaced w x ps qs) (before : Text) : Piece.tokens before qs =
    (Piece.tokens before ps).map (.makeRoom (before ++ x).byteSize w.byteSize w.newlines) := by
  induction h generalizing before with
  | @here x r ps =>
    have hmoved : ∀ u ∈ Piece.tokens (before ++ (x ++ r)) ps,
        u.shift w.byteSize w.newlines =
          u.makeRoom (before ++ x).byteSize w.byteSize w.newlines := by
      intro u hu
      have hle := Piece.le_offset hu
      rw [Text.byteSize_append, Text.byteSize_append] at hle
      rw [Token.makeRoom, if_neg]
      rw [Text.byteSize_append]
      omega
    rw [Piece.tokens, Piece.tokens, ← List.map_congr_left hmoved]
    refine Piece.tokens_shift ?_ ?_
    · simp only [Text.byteSize_append]
      omega
    · simp only [Text.newlines_append]
      omega
  | @gap x y t ps qs split behind ih =>
    rw [Piece.tokens, Piece.tokens, ih, split, List.append_assoc]
  | @token x y t k ps qs split ne behind ih =>
    have hstays : (Token.make k t before.byteSize (1 + before.newlines)).makeRoom
        (before ++ x).byteSize w.byteSize w.newlines = .make k t before.byteSize (1 + before.newlines) := by
      rw [Token.makeRoom, if_pos]
      show before.byteSize < (before ++ x).byteSize
      rw [Text.byteSize_append]
      have hsize : x.byteSize ≠ 0 := Text.byteSize_eq_zero.not.2 ne
      omega
    rw [Piece.tokens, Piece.tokens, List.map_cons, hstays, ih, split, List.append_assoc]

namespace Machine

variable {m m' : Machine}

theorem Within.leave_same (h : Within [] m m') : Within [] m.leave m'.leave := by
  refine ⟨h.config, ?_, h.state, h.compound⟩
  rw [openModes_leave, openModes_leave, h.modes, List.append_nil, List.append_nil]

theorem Within.resume_same (h : Within [] m m') : Within [] m.resume m'.resume := by
  refine ⟨h.config, h.modes, ?_, h.compound⟩
  rw [resume, resume, goto, goto, ← topMode_openModes, ← topMode_openModes, h.modes, List.append_nil]

theorem Within.perform_same (h : Within [] m m') (he : (Machine.perform s m).error? = none) :
    (Machine.perform s m').error? = none ∧
      Within [] (Machine.perform s m).machine (Machine.perform s m').machine := by
  induction s generalizing m m' with
  | skip t s ih => exact ih (h.skip t) he
  | emit k t s ih => exact ih (h.take t) he
  | enter mode s ih => exact ih (h.enter mode) he
  | leave s ih => exact ih h.leave_same he
  | note g s ih => exact ih (h.note g) he
  | goto st => exact ⟨rfl, h.config, h.modes, rfl, h.compound⟩
  | resume => exact ⟨rfl, h.resume_same⟩
  | fail t f => cases he

/-- With the same text ahead the rest of the run is the same. -/
theorem Within.layout_eq (h : Within [] m m') (hm : m.Coherent) (rest : m'.cursor.rest = m.cursor.rest)
    (ok : m.run.error? = none) : m'.run.error? = none ∧ m'.layout = m.layout := by
  induction m using run_induction generalizing m' with
  | done m hdone =>
    have hdone' : m'.state = .done := h.state.trans hdone
    rw [run_of_done hdone', layout_of_done hdone', layout_of_done hdone]
    exact ⟨rfl, rfl⟩
  | error m hdone he => exact absurd (error?_step_of_run ok).1 he
  | step m hdone he ih =>
    have hscript : m'.script = m.script := by
      rw [h.script_eq hm (.inr rfl), rest]
      rfl
    obtain ⟨he', hstep⟩ := h.perform_same he
    have hrest : (Machine.perform m.script m').machine.cursor.rest = m.step.machine.cursor.rest := by
      rw [rest_perform he', rest, step, rest_perform he]
    have hperform : m'.step = Machine.perform m.script m' := by rw [step, hscript]
    rw [← hperform] at he' hstep hrest
    obtain ⟨hok, hlayout⟩ := ih hstep (hm.step he) hrest (error?_step_of_run ok).2
    constructor
    · rw [run_eq, Run.error?_followedBy, he']
      exact hok
    · rw [layout_of_not_done (h.state ▸ hdone), layout_of_not_done hdone, hscript]
      exact congrArg _ hlayout

/-- After a script each, over the pieces `ps` and `qs`, the machines see the same text, or the place is
still ahead of them behind `y`. -/
inductive Abreast (w b : Text) (L : List Piece) (x : Text) (ps qs : List Piece) (m m' : Machine) :
    Prop where
  | same (rest : m'.cursor.rest = m.cursor.rest) (pieces : ∀ rs, Respaced w x (ps ++ rs) (qs ++ rs))
  | ahead {y : Text} (rest : m.cursor.rest = y ++ b) (rest' : m'.cursor.rest = y ++ (w ++ b))
      (ready : Loose y L ∨ y = [] ∧ m.state.Yields m.compound)
      (pieces : ∀ rs rs', Respaced w y rs rs' → Respaced w x (ps ++ rs) (qs ++ rs'))

theorem Abreast.gap (h : Abreast w b L y ps qs m m') (split : x = t ++ y) :
    Abreast w b L x (.gap t :: ps) (.gap t :: qs) m m' := by
  cases h with
  | same rest pieces => exact .same rest fun rs => .gap split (pieces rs)
  | ahead rest rest' ready pieces =>
    exact .ahead rest rest' ready fun rs rs' h => .gap split (pieces rs rs' h)

theorem Abreast.token {k : Kind} (h : Abreast w b L y ps qs m m') (split : x = t ++ y) (ne : x ≠ []) :
    Abreast w b L x (.token k t :: ps) (.token k t :: qs) m m' := by
  cases h with
  | same rest pieces => exact .same rest fun rs => .token split ne (pieces rs)
  | ahead rest rest' ready pieces =>
    exact .ahead rest rest' ready fun rs rs' h => .token split ne (pieces rs rs' h)

/-- If one of two scripts stands for the other with spaces put in, the machines stay abreast. -/
theorem abreast_perform (hs : s.Spaced w L m.openModes m.compound x s') (h : Within [] m m')
    (rest : m.cursor.rest = x ++ b) (rest' : m'.cursor.rest = x ++ (w ++ b))
    (hreads : s.Reads m.cursor.rest) (he : (perform s m).error? = none) :
    (perform s' m').error? = none ∧ Within [] (perform s m).machine (perform s' m').machine ∧
      Abreast w b L x s.pieces s'.pieces (perform s m).machine (perform s' m').machine := by
  generalize hms : m.openModes = ms at hs
  generalize hg : m.compound = g at hs
  induction hs generalizing m m' with
  | @absorbed ms g x r s =>
    obtain ⟨tail, hsplit, -⟩ := hreads
    obtain rfl : b = r ++ tail := by
      rw [rest, List.append_assoc] at hsplit
      exact List.append_cancel_left hsplit
    have hrest : (m.skip (x ++ r)).cursor.rest = tail := rest_skip_of_eq (by rw [rest, List.append_assoc])
    have hrest' : (m'.skip (x ++ (w ++ r))).cursor.rest = tail := rest_skip_of_eq (by rw [rest']; simp)
    have hwithin : Within [] (m.skip (x ++ r)) (m'.skip (x ++ (w ++ r))) :=
      ⟨h.config, h.modes, h.state, h.compound⟩
    obtain ⟨he', hstep⟩ := hwithin.perform_same he
    refine ⟨he', hstep, .same ?_ fun rs => .here⟩
    rw [perform, perform, rest_perform (s := s) he, rest_perform he', hrest, hrest']
  | @skip ms g x y t s s' split behind ih =>
    obtain ⟨tail, hsplit, hreads⟩ := hreads
    rw [split, List.append_assoc] at rest rest'
    have hrest := rest_skip_of_eq rest
    rw [← rest_skip_of_eq hsplit] at hreads
    obtain ⟨he', hwithin, habreast⟩ :=
      ih (h.skip t) hrest (rest_skip_of_eq rest') hreads he hms hg
    exact ⟨he', hwithin, habreast.gap split⟩
  | @emit ms g x y t k s s' split ne behind ih =>
    obtain ⟨-, tail, hsplit, hreads⟩ := hreads
    rw [split, List.append_assoc] at rest rest'
    rw [← rest_take_of_eq hsplit] at hreads
    obtain ⟨he', hwithin, habreast⟩ :=
      ih (h.take t) (rest_take_of_eq rest) (rest_take_of_eq rest') hreads he hms hg
    exact ⟨he', hwithin, habreast.token split ne⟩
  | enter behind ih => exact ih (h.enter _) rest rest' hreads he (congrArg _ hms) hg
  | leave behind ih =>
    exact ih h.leave_same rest rest' hreads he (by rw [openModes_leave, hms]) hg
  | note behind ih => exact ih (h.note _) rest rest' hreads he hms rfl
  | goto ready =>
    subst hg
    exact ⟨rfl, ⟨h.config, h.modes, rfl, h.compound⟩, .ahead rest rest' ready fun _ _ h => h⟩
  | resume ready =>
    subst hg hms
    refine ⟨rfl, h.resume_same, .ahead rest rest' ?_ fun _ _ h => h⟩
    rwa [topMode_openModes] at ready

/-- Behind a descendant combinator a compound begins at once, so no more spaces may stand there. -/
theorem Coherent.tight_behind_descendant {u : Text} (hm : m.Coherent) (hst : m.state = .selector)
    (hs : m.script = .emit .descendantCombinator u (.note .detached (.goto .selector)))
    (ok : m.run.error? = none) : ¬Loose [] m.step.machine.layout := by
  obtain ⟨he, hok⟩ := error?_step_of_run ok
  have hform := Script.selector_form m.view
  rw [show Script.selector m.view = m.script by rw [script, hst, Script.ofState], hs] at hform
  cases hform with
  | @descendant blank t c munch other brace comma ne attached =>
    have hm' := hm.step he
    have hrest : m.step.machine.cursor.rest = c :: t := by
      rw [Machine.step, hs]
      exact rest_take_of_eq munch.split
    have hst' : m.step.machine.state = .selector := by
      rw [Machine.step, hs]
      rfl
    generalize m.step.machine = m' at hok hm' hrest hst'
    have hspace : m'.view.rest.Munch isSpace [] (c :: t) := ⟨hrest, by simp, munch.stop⟩
    have hscript : m'.script = .skip [] (.compoundPart m'.view c t) := by
      rw [script, hst', Script.ofState, Script.selector_of_munch hspace, Script.selectorBehind, other]
      dsimp only
      rw [if_neg brace, if_neg comma, if_neg fun h => h.1 rfl]
    intro place
    have hsettles := Script.settles_of_perform (error?_step_of_run hok).1
    rw [layout_of_not_done (ne_of_eq_of_ne hst' (by decide)), hscript] at place
    rw [hscript] at hsettles
    obtain ⟨y, hy, hplace⟩ := place.gap (by simp)
    obtain rfl : [] = y := hy
    exact (Script.compoundPart_form m'.view c t).tight hm'.compound hsettles hplace

/-- The run with the spaces put in ends without an error as well, and moves over the same tokens. -/
theorem Coherent.respaced_run (hw : w.Blank) (hm : m.Coherent) (h : Within [] m m')
    (rest : m.cursor.rest = x ++ b) (rest' : m'.cursor.rest = x ++ (w ++ b)) (plain : x.Unparted b)
    (place : Loose x m.layout ∨ x = [] ∧ m.state.Yields m.compound) (ok : m.run.error? = none) :
    m'.run.error? = none ∧ Respaced w x m.layout m'.layout := by
  induction m using run_induction generalizing m' x with
  | done m hdone =>
    rw [layout_of_done hdone, hdone] at place
    rcases place with place | ⟨-, hyields⟩
    · cases place
    · exact hyields.elim
  | error m hdone he => exact absurd (error?_step_of_run ok).1 he
  | step m hdone he ih =>
    have hok := (error?_step_of_run ok).2
    have hscript : m.script = .ofState m.state { m.view with rest := x ++ b } := by
      rw [← rest]
      rfl
    have hscript' : m'.script = .ofState m.state { m.view with rest := x ++ (w ++ b) } := by
      rw [h.script_eq hm (.inr rfl), rest']
    have hspaced : m.script.Spaced w m.step.machine.layout m.openModes m.compound x m'.script := by
      have hsettles := Script.settles_of_perform he
      rw [layout_of_not_done hdone] at place
      rw [hscript] at hsettles place
      rw [hscript']
      rw [hscript]
      refine Script.spaced_ofState hw plain hm.fits m.view hm.compound ?_ hsettles place
      intro hst u hu
      refine hm.tight_behind_descendant (u := u) hst ?_ ok
      rw [hscript, hst, Script.ofState, hu]
    have hreads := hm.reads hdone
    obtain ⟨he', hwithin, habreast⟩ := abreast_perform hspaced h rest rest' hreads he
    change m'.step.error? = none at he'
    change Within [] m.step.machine m'.step.machine at hwithin
    have hdone' : m'.state ≠ .done := by rwa [h.state]
    rw [layout_of_not_done hdone, layout_of_not_done hdone', run_eq m', Run.error?_followedBy, he',
      Option.none_or]
    cases habreast with
    | same hrest pieces =>
      obtain ⟨hok', hlayout⟩ := hwithin.layout_eq (hm.step he) hrest hok
      rw [hlayout]
      exact ⟨hok', pieces _⟩
    | @ahead y hrest hrest' ready pieces =>
      have hx : x = Piece.texts m.script.pieces ++ y := by
        have hpassed := hm.rest_step hdone he
        rw [rest, show m.step.machine.cursor.rest = _ from hrest, ← List.append_assoc] at hpassed
        exact List.append_cancel_right hpassed
      have hplain : y.Unparted b := plain.suffix ⟨_, hx.symm⟩
      obtain ⟨hok', hrespaced⟩ := ih (hm.step he) hwithin hrest hrest' hplain ready hok
      exact ⟨hok', pieces _ _ hrespaced⟩

end Machine

/-- Spaces next to punctuation, and next to spaces that no token holds, change no token. They only move
the tokens behind them. -/
theorem tokenize_respaced (c : Config) (front behind w : Text) (ts : List Token)
    (ok : tokenize c (front ++ behind) = .ok ts) (place : FreePlace ts front behind)
    (spaces : ∀ a ∈ w, isSpace a = true) :
    tokenize c (front ++ (w ++ behind)) =
      .ok (ts.map (.makeRoom front.byteSize w.byteSize w.newlines)) := by
  by_cases ne : w = []
  · subst ne
    have hnone : ts.map (.makeRoom front.byteSize 0 0) = ts :=
      List.map_id'' (fun t => ite_self t) ts
    exact ok.trans (congrArg _ hnone.symm)
  · have hm := Machine.coherent_start c (front ++ behind)
    have hm' := Machine.coherent_start c (front ++ (w ++ behind))
    obtain ⟨rfl, hok⟩ := run_of_tokenize ok
    obtain ⟨htokens, tail, hsplit, htail⟩ :=
      Machine.run_layout hm (Machine.stands_start c (front ++ behind)) nofun
    rw [htail hok, List.nil_append, List.append_nil] at hsplit
    rw [htokens] at place ⊢
    have hloose := place.loose hsplit.symm
    have hplain := (hm.unparted_layout hok hsplit).endsPlain hloose hsplit.symm
    have hwithin : Machine.Within [] (.start c (front ++ behind)) (.start c (front ++ (w ++ behind))) :=
      ⟨rfl, rfl, rfl, rfl⟩
    obtain ⟨hok', hrespaced⟩ :=
      hm.respaced_run ⟨ne, spaces⟩ hwithin rfl rfl hplain (.inl hloose) hok
    have htokens' :=
      (Machine.run_layout hm' (Machine.stands_start c (front ++ (w ++ behind))) nofun).1
    rw [tokenize_of_run hok', htokens', hrespaced.tokens, List.nil_append]

/-- A line break behind the opening brace of a block. -/
theorem tokenize_respaced_block :
    tokenize .standard ['a', '{', '}'] =
      .ok [.make .tagSelector ['a'] 0 1, .make .braceStart ['{'] 1 1, .make .braceEnd ['}'] 2 1] ∧
    tokenize .standard ['a', '{', '\n', ' ', '}'] =
      .ok [.make .tagSelector ['a'] 0 1, .make .braceStart ['{'] 1 1, .make .braceEnd ['}'] 4 2] := by
  have hok : tokenize .standard ['a', '{', '}'] = .ok [.make .tagSelector ['a'] 0 1,
      .make .braceStart ['{'] 1 1, .make .braceEnd ['}'] 2 1] := by
    decide +kernel
  refine ⟨hok, ?_⟩
  exact tokenize_respaced .standard ['a', '{'] ['}'] ['\n', ' '] _ hok
    (.behind (t := .make .braceStart ['{'] 1 1) (by decide) rfl rfl) (List.all_iff_forall_prop.1 rfl)

end StyleLex

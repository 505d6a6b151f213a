import StyleLex.Proofs.OpenModes
import StyleLex.Proofs.RunSteps
import StyleLex.Proofs.ScriptReading

/-!
# The places of tokens

The tokens of a run are those of its layout. So each token is a slice of the text at its place, and
no two of them overlap.
-/
namespace StyleLex

variable {source before t tail : Text} {m : Machine} {s : Script}

namespace Machine

/-- The pieces that a run moves over. -/
def layout (m : Machine) : List Piece :=
  if h : m.state = .done then [] else
    have := budget_step_lt h
    m.script.pieces ++ m.step.machine.layout
termination_by m.budget

theorem layout_of_done (h : m.state = .done) : m.layout = [] := by
  rw [layout, dif_pos h]

theorem layout_of_not_done (h : m.state ≠ .done) :
    m.layout = m.script.pieces ++ m.step.machine.layout := by
  rw [layout, dif_neg h]

/-- The machine stands in `source` right behind `before`, with nothing pending. -/
structure Stands (source before : Text) (m : Machine) : Prop where
  cursor : m.cursor.Stands source before
  lexeme : m.cursor.lexeme = []

theorem stands_start (c : Config) (source : Text) : (start c source).Stands source [] :=
  ⟨Cursor.stands_ofText source, rfl⟩

theorem Stands.split (h : m.Stands source before) : source = before ++ m.cursor.rest := by
  have hsplit := h.cursor.split
  rwa [h.lexeme] at hsplit

theorem Stands.place (h : m.Stands source before) :
    m.cursor.pos = before.byteSize ∧ m.cursor.line = 1 + before.newlines := by
  have hpos := h.cursor.pos
  have hline := h.cursor.line
  rw [h.lexeme, List.append_nil] at hpos hline
  exact ⟨hpos, hline⟩

theorem Stands.skip (h : m.Stands source before) (ahead : m.cursor.rest = t ++ tail) :
    (m.skip t).Stands source (before ++ t) := by
  have hcursor := (h.cursor.advance ahead).ignore
  rw [Cursor.lexeme_advance, h.lexeme, List.nil_append] at hcursor
  exact ⟨hcursor, rfl⟩

theorem Stands.take (h : m.Stands source before) (ahead : m.cursor.rest = t ++ tail) :
    (m.take t).2.Stands source (before ++ t) :=
  ⟨(h.skip ahead).cursor, rfl⟩

/-- A token that is taken has the place where the machine stands. -/
theorem Stands.token (h : m.Stands source before) (k : Kind) :
    Token.mk (m.take t).1 k = .make k t before.byteSize (1 + before.newlines) := by
  have hlexeme : (m.take t).1 = ⟨(m.cursor.advance t).lexeme, m.cursor.start, m.cursor.startLine⟩ := rfl
  rw [hlexeme, Cursor.lexeme_advance, h.lexeme, h.cursor.start, h.cursor.startLine]
  rfl

theorem rest_skip_of_eq (ahead : m.cursor.rest = t ++ tail) : (m.skip t).cursor.rest = tail := by
  rw [rest_skip, ahead, List.drop_left]

theorem rest_take_of_eq (ahead : m.cursor.rest = t ++ tail) : (m.take t).2.cursor.rest = tail := by
  rw [rest_take, ahead, List.drop_left]

theorem tokens_perform (h : m.Stands source before) (hs : s.Reads m.cursor.rest) :
    (perform s m).tokens = Piece.tokens before s.pieces := by
  induction s generalizing m before with
  | skip t s ih =>
    obtain ⟨tail, ahead, hs⟩ := hs
    rw [← rest_skip_of_eq ahead] at hs
    exact ih (h.skip ahead) hs
  | emit k t s ih =>
    obtain ⟨_, tail, ahead, hs⟩ := hs
    rw [← rest_take_of_eq ahead] at hs
    have htail := ih (h.take ahead) hs
    rw [perform, Run.handOver, htail, h.token]
    rfl
  | enter mode s ih => exact ih (m := m.enter mode) ⟨h.cursor, h.lexeme⟩ hs
  | leave s ih => exact ih (m := m.leave) ⟨h.cursor, h.lexeme⟩ hs
  | note c s ih => exact ih (m := m.note c) ⟨h.cursor, h.lexeme⟩ hs
  | goto s => rfl
  | resume => rfl
  | fail t f => rfl

theorem stands_perform (h : m.Stands source before) (hs : s.Reads m.cursor.rest)
    (he : (perform s m).error? = none) :
    (perform s m).machine.Stands source (before ++ Piece.texts s.pieces) ∧
      ((perform s m).machine.state = .done → (perform s m).machine.cursor.rest = []) := by
  induction s generalizing m before with
  | skip t s ih =>
    obtain ⟨tail, ahead, hs⟩ := hs
    rw [← rest_skip_of_eq ahead] at hs
    rw [Script.pieces, Piece.texts_cons, ← List.append_assoc]
    exact ih (h.skip ahead) hs he
  | emit k t s ih =>
    obtain ⟨_, tail, ahead, hs⟩ := hs
    rw [← rest_take_of_eq ahead] at hs
    rw [Script.pieces, Piece.texts_cons, ← List.append_assoc]
    exact ih (h.take ahead) hs he
  | enter mode s ih => exact ih (m := m.enter mode) ⟨h.cursor, h.lexeme⟩ hs he
  | leave s ih => exact ih (m := m.leave) ⟨h.cursor, h.lexeme⟩ hs he
  | note c s ih => exact ih (m := m.note c) ⟨h.cursor, h.lexeme⟩ hs he
  | goto st =>
    rw [Script.pieces, Piece.texts_nil, List.append_nil]
    exact ⟨⟨h.cursor, h.lexeme⟩, hs⟩
  | resume =>
    rw [Script.pieces, Piece.texts_nil, List.append_nil]
    refine ⟨⟨h.cursor, h.lexeme⟩, ?_⟩
    intro hdone
    cases htop : m.modes.top <;> simp [perform, resume, goto, htop, State.ofMode] at hdone
  | fail t f => simp [perform] at he

/-- A script stays in the text, also if it fails. -/
theorem exists_stands_perform (h : m.Stands source before) (hs : s.Reads m.cursor.rest) :
    ∃ before, (perform s m).machine.cursor.Stands source before := by
  induction s generalizing m before with
  | skip t s ih =>
    obtain ⟨tail, ahead, hs⟩ := hs
    rw [← rest_skip_of_eq ahead] at hs
    exact ih (h.skip ahead) hs
  | emit k t s ih =>
    obtain ⟨_, tail, ahead, hs⟩ := hs
    rw [← rest_take_of_eq ahead] at hs
    exact ih (h.take ahead) hs
  | enter mode s ih => exact ih (m := m.enter mode) ⟨h.cursor, h.lexeme⟩ hs
  | leave s ih => exact ih (m := m.leave) ⟨h.cursor, h.lexeme⟩ hs
  | note c s ih => exact ih (m := m.note c) ⟨h.cursor, h.lexeme⟩ hs
  | goto st => exact ⟨before, h.cursor⟩
  | resume => exact ⟨before, h.cursor⟩
  | fail t f =>
    obtain ⟨tail, ahead⟩ := hs
    exact ⟨before, h.cursor.advance ahead.symm⟩

theorem layout_of_error (h : m.step.error? ≠ none) : m.layout = m.script.pieces := by
  by_cases hdone : m.state = .done
  · rw [layout_of_done hdone, script, hdone]
    rfl
  · rw [layout_of_not_done hdone, layout_of_done (state_step_of_error h), List.append_nil]

theorem Coherent.reads (hm : m.Coherent) (h : m.state ≠ .done) : m.script.Reads m.cursor.rest := by
  apply Script.reads_ofState h
  intro hglue
  cases hm.compound _ hglue

/-- The run hands over the tokens of its layout. The pieces make up the text ahead, all of it if there
is no error. -/
theorem run_layout (hm : m.Coherent) (h : m.Stands source before)
    (hend : m.state = .done → m.cursor.rest = []) :
    m.run.tokens = Piece.tokens before m.layout ∧
      ∃ tail, source = before ++ Piece.texts m.layout ++ tail ∧ (m.run.error? = none → tail = []) := by
  induction m using run_induction generalizing before with
  | done m hdone =>
    rw [run_of_done hdone, layout_of_done hdone]
    constructor
    · rfl
    · refine ⟨[], ?_, fun _ => rfl⟩
      simpa [hend hdone] using h.split
  | error m hdone he =>
    have hs := hm.reads hdone
    obtain ⟨tail, hsplit⟩ := hs.split
    rw [layout_of_error he, run_of_error he]
    constructor
    · exact tokens_perform h hs
    · refine ⟨tail, ?_, fun hnone => absurd hnone he⟩
      rw [List.append_assoc, ← hsplit]
      exact h.split
  | step m hdone he ih =>
    have hs := hm.reads hdone
    obtain ⟨hstands, hend'⟩ := stands_perform h hs he
    obtain ⟨htail, tail, hsplit, hall⟩ := ih (hm.step he) hstands hend'
    rw [layout_of_not_done hdone, run_eq m]
    constructor
    · rw [Piece.tokens_append, ← htail, ← tokens_perform h hs]
      rfl
    · refine ⟨tail, ?_, ?_⟩
      · rw [Piece.texts_append, ← List.append_assoc]
        exact hsplit
      · intro hnone
        apply hall
        simpa [Run.error?_followedBy, he] using hnone

theorem allows_layout (hm : m.Coherent) {k : Kind} (hmem : .token k t ∈ m.layout) : k.Allows t := by
  induction m using run_induction with
  | done m hdone => simp [layout_of_done hdone] at hmem
  | error m hdone he =>
    rw [layout_of_error he] at hmem
    exact (hm.reads hdone).allows hmem
  | step m hdone he ih =>
    rw [layout_of_not_done hdone] at hmem
    rcases List.mem_append.1 hmem with hmem | hmem
    · exact (hm.reads hdone).allows hmem
    · exact ih (hm.step he) hmem

end Machine

namespace Piece

variable {ps : List Piece}

theorem le_offset {u : Token} (h : u ∈ tokens before ps) : before.byteSize ≤ u.offset := by
  induction ps generalizing before with
  | nil => cases h
  | cons p ps ih =>
    have hbehind (h : u ∈ tokens (before ++ p.text) ps) : before.byteSize ≤ u.offset := by
      have hle := ih h
      rw [Text.byteSize_append] at hle
      omega
    cases p with
    | gap t => exact hbehind h
    | token k t =>
      rcases List.mem_cons.1 h with rfl | h
      · exact Nat.le_refl _
      · exact hbehind h

/-- The tokens stand in the order of their pieces and do not overlap. -/
theorem pairwise_tokens (before : Text) (ps : List Piece) :
    (tokens before ps).Pairwise fun t u => t.stop ≤ u.offset := by
  induction ps generalizing before with
  | nil => exact List.Pairwise.nil
  | cons p ps ih =>
    cases p with
    | gap t => exact ih _
    | token k t =>
      refine List.Pairwise.cons ?_ (ih _)
      intro u hu
      have hle := le_offset hu
      rwa [Text.byteSize_append] at hle

/-- A token is the text of a piece, at the place of that piece. -/
theorem exists_of_mem_tokens {u : Token} (h : u ∈ tokens before ps) :
    .token u.kind u.text ∈ ps ∧ ∃ front behind, texts ps = front ++ (u.text ++ behind) ∧
      u.offset = (before ++ front).byteSize ∧ u.line = 1 + (before ++ front).newlines := by
  induction ps generalizing before with
  | nil => cases h
  | cons p ps ih =>
    have hbehind (h : u ∈ tokens (before ++ p.text) ps) :
        .token u.kind u.text ∈ p :: ps ∧ ∃ front behind,
          texts (p :: ps) = front ++ (u.text ++ behind) ∧
          u.offset = (before ++ front).byteSize ∧ u.line = 1 + (before ++ front).newlines := by
      obtain ⟨hmem, front, behind, hsplit, hoffset, hline⟩ := ih h
      refine ⟨List.mem_cons_of_mem _ hmem, p.text ++ front, behind, ?_, ?_, ?_⟩
      · rw [texts_cons, hsplit, List.append_assoc]
      · rw [hoffset, List.append_assoc]
      · rw [hline, List.append_assoc]
    cases p with
    | gap t => exact hbehind h
    | token k t =>
      rcases List.mem_cons.1 h with rfl | h
      · refine ⟨List.mem_cons_self, [], texts ps, rfl, ?_, ?_⟩
        · rw [List.append_nil]
          rfl
        · rw [List.append_nil]
          rfl
      · exact hbehind h

end Piece

/-- Every token of a run, also of one that fails, is a slice of the text at its offset and line. The
tokens stand in order and do not overlap, and only glue and quoted strings may be empty. -/
theorem token_places (c : Config) (source : Text) :
    (∀ u ∈ (Machine.start c source).run.tokens,
      (∃ before behind, source = before ++ u.text ++ behind ∧ u.offset = before.byteSize ∧
        u.line = 1 + before.newlines) ∧
      (u.kind = .andCombinator → u.text = []) ∧
      (u.text = [] → u.kind = .andCombinator ∨ u.kind = .quotedString)) ∧
    (Machine.start c source).run.tokens.Pairwise fun t u => t.stop ≤ u.offset := by
  have hm := Machine.coherent_start c source
  obtain ⟨htokens, tail, hsplit, -⟩ :=
    Machine.run_layout hm (Machine.stands_start c source) nofun
  rw [htokens]
  constructor
  · intro u hu
    obtain ⟨hmem, before, behind, htexts, hoffset, hline⟩ := Piece.exists_of_mem_tokens hu
    constructor
    · refine ⟨before, behind ++ tail, ?_, hoffset, hline⟩
      rw [htexts] at hsplit
      simpa using hsplit
    · exact Machine.allows_layout hm hmem
  · exact Piece.pairwise_tokens _ _

/-- The brace stands on the second line of a text that leaves it open. -/
theorem token_places_second_line :
    (Machine.start .standard ['é', '\n', '{']).run.error? ≠ none ∧
      ∃ before behind : Text, ['é', '\n', '{'] = before ++ ['{'] ++ behind ∧
        3 = before.byteSize ∧ 2 = 1 + before.newlines := by
  have hmem : Token.make .braceStart ['{'] 3 2 ∈
      (Machine.start .standard ['é', '\n', '{']).run.tokens := by
    decide +kernel
  exact ⟨by decide +kernel, ((token_places .standard ['é', '\n', '{']).1 _ hmem).1⟩

end StyleLex

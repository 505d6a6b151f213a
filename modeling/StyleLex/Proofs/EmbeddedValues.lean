import StyleLex.Proofs.DiscardedText
import StyleLex.Proofs.ScriptOutcomes
import StyleLex.Proofs.StatementSeams
import StyleLex.Proofs.StatementStarts

/-!
# Values inside blocks

The value of a variable is read in the same way behind every colon and every keyword.
-/
namespace StyleLex

variable {c : Config} {outer : List Mode} {v y source before blank : Text} {ps : List Piece}

/-- The tokens of a text by kind and text, up to the first error. -/
def spelling (c : Config) (source : Text) : List (Kind × Text) := (Machine.start c source).spelling

/-- A variable with the value `v`. -/
def valueSample (v : Text) : Text := '$' :: 'x' :: ':' :: (v ++ [';'])

/-- The tokens of a value are those between the colon and the semicolon. -/
def valueSpelling (c : Config) (v : Text) : List (Kind × Text) :=
  (((spelling c (valueSample v)).dropWhile (·.1 ≠ .colon)).tail).takeWhile (·.1 ≠ .semicolon)

/-- A text that a variable can have for its value, up to the semicolon behind it. -/
structure ClosedValue (c : Config) (v : Text) : Prop where
  ok : ∃ ts, tokenize c (valueSample v) = .ok ts
  semicolon : ∃ ks, (spelling c (valueSample v)).map Prod.fst = ks ++ [.semicolon] ∧ .semicolon ∉ ks

/-- A closed value without a string in an interpolation. -/
structure ValueText (c : Config) (v : Text) : Prop where
  ok : ∃ ts, tokenize c (valueSample v) = .ok ts
  semicolon : ∃ ks, (spelling c (valueSample v)).map Prod.fst = ks ++ [.semicolon] ∧ .semicolon ∉ ks
  quotes : c.interpolation = .tokens → QuotesOutside [] ((valueSpelling c v).map Prod.fst)

theorem ValueText.closed (hv : ValueText c v) : ClosedValue c v := ⟨hv.ok, hv.semicolon⟩

theorem BracesOutside.concat {open_ : List Kind} {ks : List (Kind × Text)} {k : Kind × Text}
    (h : BracesOutside open_ ks) (hk : k.1 ≠ .quotedString) : BracesOutside open_ (ks ++ [k]) := by
  intro u t w hsplit
  rcases List.eq_nil_or_concat w with rfl | ⟨z, b, rfl⟩
  · exact absurd (congrArg Prod.fst (List.head_eq_of_cons_eq (List.append_inj' hsplit rfl).2)) hk
  · rw [List.concat_eq_append, ← List.cons_append, ← List.append_assoc] at hsplit
    exact h u t z (List.append_inj' hsplit rfl).1

/-- Pieces without a token are spaces. -/
theorem Explained.spaces (h : Explained c ps) (hnone : Piece.spelled ps = []) :
    ∀ a ∈ Piece.texts ps, isSpace a = true := by
  induction h with
  | nil => exact nofun
  | space inside _ ih =>
    intro a ha
    rw [Piece.texts_cons] at ha
    rcases List.mem_append.1 ha with ha | ha
    · exact inside a ha
    · exact ih hnone a ha
  | token => cases hnone
  | quoted => cases hnone
  | arguments => cases hnone
  | noArguments => cases hnone
  | passedOver => cases hnone

namespace Machine

variable {m m' p : Machine}

/-- What a machine on the way still reads of a text that is read without an error. -/
theorem Reaches.reader (h : (start c source).Reaches ps m) (hok : ∃ ts, tokenize c source = .ok ts) :
    (∃ before, m.Stands source before) ∧ m.run.error? = none ∧
      StyleLex.spelling c source = Piece.spelled ps ++ m.spelling := by
  have hm := coherent_start c source
  have hs := stands_start c source
  obtain ⟨ts, hts⟩ := hok
  refine ⟨⟨_, h.stands hm hs⟩, ?_, h.spelling hm hs⟩
  rw [← h.error?_run]
  exact (run_of_tokenize hts).2

theorem At.embedded {st : State} {ms : List Mode} {w x : Text} (h : m.At c st ms (w ++ x))
    (h' : m'.At c st (ms ++ outer) (w ++ y)) (hw : w = [] ∨ Text.Seam x w) :
    Embedded outer x y m m' := by
  refine ⟨⟨?_, ?_, ?_, ?_⟩, w, h.rest, h'.rest, hw⟩
  · rw [h.config, h'.config]
  · rw [h.modes, h'.modes]
  · rw [h.state, h'.state]
  · rw [h.compound, h'.compound]

/-- A statement that has no tokens and no error is spaces. -/
theorem spaces_of_spelling (hm : m.Coherent) (hs : m.Stands source before) (hst : m.state = .statement)
    (hok : m.run.error? = none) (hnone : m.spelling = []) : ∀ a ∈ m.cursor.rest, isSpace a = true := by
  have hdone : m.state = .done → m.cursor.rest = [] := by
    rw [hst]
    exact nofun
  obtain ⟨htokens, tail, hsplit, htail⟩ := run_layout hm hs hdone
  have hrest : m.cursor.rest = Piece.texts m.layout := by
    rw [hs.split, htail hok, List.append_nil] at hsplit
    exact List.append_cancel_left hsplit
  have hexplained : Explained m.config m.layout := by
    have hremaining := hm.remaining_layout hok
    rwa [hst] at hremaining
  rw [hrest]
  refine hexplained.spaces ?_
  rwa [Machine.spelling, htokens, Piece.spelled_tokens] at hnone

/-- Outside of all blocks a closing brace is an error. -/
theorem error_of_stray_brace {t : Text} (hst : m.state = .statement) (hmodes : m.openModes = [])
    (hrest : m.cursor.rest = '}' :: t) : m.step.error? ≠ none := by
  have htop : ¬m.view.top = .block := by
    rw [← show topMode m.openModes = m.view.top from m.topMode_openModes, hmodes]
    decide
  have hscript : m.script = .statement m.view := by rw [script, hst, Script.ofState]
  rw [step, hscript, Script.statement_of_brace (v := m.view) hrest, if_neg htop]
  exact Option.some_ne_none _

/-- A value is read inside of blocks, and with any text behind it, as it is read alone. -/
theorem Embedded.reaches_semicolon (h : Embedded outer [] y m m') (houter : Blocks outer)
    (hm : m.Coherent) (hvalue : ReadsValue [] m.openModes m.state) (hok : m.run.error? = none) :
    ∃ p p', Meet outer [] y (.semicolon, [';']) m m' p p' ∧ p.state = .statement ∧
      p.openModes = [] := by
  induction m using run_induction generalizing m' with
  | done m hdone => exact absurd hdone hvalue.inside.2
  | error m hdone he =>
    rw [run_of_error he] at hok
    exact absurd hok he
  | step m hdone he ih =>
    obtain ⟨-, hok'⟩ := error?_step_of_run hok
    have hscript := h.script_eq_of_ok hm hvalue.inside.1 hdone hok
    obtain ⟨he', hnext⟩ := h.step houter hm hdone he hscript (Nat.zero_le _)
    rcases hm.value_step .nil hvalue he with ⟨hinside, hkinds⟩ | ⟨hmodes, hst, hspelled | ⟨t, hbrace⟩⟩
    · obtain ⟨p, p', hmeet, hend⟩ := ih hnext (hm.step he) hinside hok'
      exact ⟨p, p', h.meet_behind hdone he he' hscript hkinds hmeet, hend⟩
    · exact ⟨_, _, h.meet hdone he he' hscript hspelled hnext, hst, hmodes⟩
    · exact absurd (error?_step_of_run hok').1 (error_of_stray_brace hst hmodes hbrace)

/-- A machine that reads a value alone, and has no more to read behind its semicolon, shows how any
other machine reads it. -/
theorem At.reads_value (h : m.At c .value [.value] (v ++ [';'])) (hs : m.Stands source before)
    (hok : m.run.error? = none) (honly : ∀ u w, m.run.kinds = u ++ .semicolon :: w → w = [])
    (h' : m'.At c .value (.value :: outer) (v ++ ';' :: y)) (houter : Blocks outer) :
    ∃ ps ks p, m'.Reaches ps p ∧ p.At c .statement outer y ∧
      Piece.spelled ps = ks ++ [(.semicolon, [';'])] ∧ m.spelling = ks ++ [(.semicolon, [';'])] ∧
      ∀ q ∈ ks, q.1 ≠ .semicolon := by
  have hm := h.coherent (.value .nil)
  have hm' := h'.coherent (.value houter)
  have hembedded : Embedded outer [] y m m' := by
    have hsplit : v ++ ';' :: y = (v ++ [';']) ++ y := List.append_cons v ';' y
    rw [← List.append_nil (v ++ [';'])] at h
    rw [hsplit] at h'
    exact h.embedded h' (.inr ⟨v, ';', rfl, by decide, .inr rfl⟩)
  have hvalue : ReadsValue [] m.openModes m.state := by
    rw [h.modes, h.state]
    exact ⟨.value, .inl rfl⟩
  obtain ⟨p, p', ⟨⟨ps, ks, hreaches, hreaches', hspelled, hks⟩, hp⟩, hst, hmodes⟩ :=
    hembedded.reaches_semicolon houter hm hvalue hok
  have hspelling := hreaches.spelling hm hs
  have hnone : p.spelling = [] := by
    refine List.map_eq_nil_iff.1 (honly (ks.map Prod.fst) (p.spelling.map Prod.fst) ?_)
    rw [← spelling_kinds, hspelling, hspelled]
    simp
  have hspaces := spaces_of_spelling (hreaches.coherent hm) (hreaches.stands hm hs) hst
    (hreaches.error?_run ▸ hok) hnone
  -- What is left would end in the semicolon, which is no space.
  have hrest : p.cursor.rest = [] := by
    have hsplit := hreaches.rest_eq hm
    rw [h.rest] at hsplit
    rcases List.eq_nil_or_concat p.cursor.rest with hnil | ⟨t, a, ht⟩
    · exact hnil
    · rw [ht, List.concat_eq_append, ← List.append_assoc] at hsplit
      obtain ⟨-, ha⟩ := List.append_inj' hsplit rfl
      have hspace := hspaces a (by rw [ht]; simp)
      rw [← List.head_eq_of_cons_eq ha] at hspace
      cases hspace
  obtain ⟨w, hw, hrest', -⟩ := hp.text
  rw [hrest, List.append_nil] at hw
  rw [← hw] at hrest'
  have hmodes' : p'.openModes = outer := by rw [hp.inside.modes, hmodes, List.nil_append]
  have hcompound : p'.compound = .detached := by
    have hkept := hreaches'.kept hm' (.inr h'.compound)
    rw [hmodes'] at hkept
    exact hkept.resolve_left (houter.not_mem nofun)
  refine ⟨ps, ks, p', hreaches', ⟨?_, hp.inside.state.trans hst, hmodes', hcompound, hrest'⟩, hspelled,
    ?_, hks⟩
  · rw [hreaches'.config, h'.config]
  · rw [hspelling, hnone, hspelled, List.append_nil]

end Machine

/-- Behind the last one of its kind, which is the only one, there is nothing. -/
theorem eq_nil_of_only {k : Kind} {u w ks : List Kind} (h : u ++ k :: w = ks ++ [k]) (only : k ∉ ks) :
    w = [] := by
  rcases List.eq_nil_or_concat w with hnil | ⟨z, b, rfl⟩
  · exact hnil
  · rw [List.concat_eq_append, ← List.cons_append, ← List.append_assoc] at h
    obtain ⟨rfl, -⟩ := List.append_inj' h rfl
    exact absurd (List.mem_append_right u List.mem_cons_self) only

theorem takeWhile_kind {k : Kind} {ks : List (Kind × Text)} (h : ∀ q ∈ ks, q.1 ≠ k) (t : Text)
    (rest : List (Kind × Text)) : (ks ++ (k, t) :: rest).takeWhile (·.1 ≠ k) = ks := by
  rw [List.takeWhile_append_of_pos fun q hq => decide_eq_true (h q hq)]
  simp

/-- Some machine reads the value alone, and nothing behind it. -/
theorem ClosedValue.exists_reader (hv : ClosedValue c v) :
    ∃ (m : Machine) (before : Text), m.At c .value [.value] (v ++ [';']) ∧
      m.Stands (valueSample v) before ∧ m.run.error? = none ∧
      (∀ u w, m.run.kinds = u ++ .semicolon :: w → w = []) ∧
      m.spelling = valueSpelling c v ++ [(.semicolon, [';'])] := by
  have hstart : (Machine.start c (valueSample v)).At c .statement []
      ('$' :: (['x'] ++ ':' :: (v ++ [';']))) := Machine.at_start c _
  obtain ⟨ps, m, hreaches, hm, hspelled⟩ :=
    hstart.reads_variable (List.cons_ne_nil _ _) (List.all_eq_true.1 rfl)
  obtain ⟨⟨before, hstands⟩, hok, hspelling⟩ := hreaches.reader hv.ok
  have hspelling : spelling c (valueSample v) =
      (.variableName, ['$', 'x']) :: (.colon, [':']) :: m.spelling := by
    rw [hspelled] at hspelling
    exact hspelling
  have honly (u w : List Kind) (hsplit : m.run.kinds = u ++ .semicolon :: w) : w = [] := by
    obtain ⟨ks, hks, only⟩ := hv.semicolon
    rw [hspelling, List.map_cons, List.map_cons, Machine.spelling_kinds, hsplit] at hks
    exact eq_nil_of_only (u := .variableName :: .colon :: u) hks only
  obtain ⟨_, ks, _, -, -, -, hks, hne⟩ := hm.reads_value hstands hok honly hm .nil
  refine ⟨m, before, hm, hstands, hok, honly, ?_⟩
  rw [valueSpelling, hspelling, hks]
  exact congrArg (· ++ _) (takeWhile_kind hne [';'] []).symm

/-- A closed value is read as a value of any statement, inside of any blocks and in front of any text. -/
theorem ClosedValue.reads (hv : ClosedValue c v) {m : Machine}
    (h : m.At c .value (.value :: outer) (v ++ ';' :: y)) (houter : Blocks outer) :
    ∃ ps p, m.Reaches ps p ∧ p.At c .statement outer y ∧
      Piece.spelled ps = valueSpelling c v ++ [(.semicolon, [';'])] := by
  obtain ⟨reader, _, hreader, hstands, hok, honly, hspelling⟩ := hv.exists_reader
  obtain ⟨ps, ks, p, hreaches, hp, hspelled, hks, -⟩ :=
    hreader.reads_value hstands hok honly h houter
  refine ⟨ps, p, hreaches, hp, ?_⟩
  rw [hspelled, ← hks, hspelling]

/-- The end of a declaration with the value is in sight in front of it. -/
theorem ClosedValue.declares (hv : ClosedValue c v)
    (hbraces : c.interpolation = .tokens → BracesOutside [] (valueSpelling c v)) :
    RuleShape.Declares (v ++ [';']) := by
  obtain ⟨m, _, hm, hs, hok, -, hspelling⟩ := hv.exists_reader
  have hmachine : m.BracesOutside := by
    intro htokens
    rw [hspelling, hm.modes]
    exact (hbraces (hm.config ▸ htokens)).concat nofun
  have hinSight := (hm.coherent (.value .nil)).inSight (.inl hm.state) hs
    (by rw [hm.modes]; decide) hok hmachine
  rw [hm.state, hm.rest] at hinSight
  exact hinSight.shape nofun

theorem ValueText.declares (hv : ValueText c v) : RuleShape.Declares (v ++ [';']) :=
  hv.closed.declares fun htokens => (hv.quotes htokens).bracesOutside

end StyleLex

import StyleLex.Proofs.EmbeddedSelectors

/-!
# A value in a declaration and in a variable

In a block a value is read as at the top, if the search for the shape of a rule finds the end of the
declaration. It does, unless a string with a closing brace stands in an interpolation.
-/
namespace StyleLex

variable {c : Config} {ms : List Mode} {v t : Text}

/-- A rule with one declaration, which has the value `v`. -/
def blockSample (v : Text) : Text := 'a' :: '{' :: 'b' :: ':' :: (v ++ [';', '}'])

/-- The tokens of a rule with one declaration, around those of its value. -/
def blockSpelling (c : Config) (v : Text) : List (Kind × Text) :=
  (.tagSelector, ['a']) :: (.braceStart, ['{']) :: (.propertyName, ['b']) :: (.colon, [':']) ::
    (valueSpelling c v ++ [(.semicolon, [';']), (.braceEnd, ['}'])])

/-- The name of the property does not matter for the shape. -/
theorem RuleShape.ofText_named (t : Text) : ofText ('b' :: ':' :: t) = ofText t := by
  rw [ofText_plain (by decide) (by decide) (by decide) rfl (by simp),
    ofText_plain (by decide) (by decide) (by decide) rfl (by simp)]

theorem selectorText_tag (c : Config) :
    SelectorText c ['a'] ∧ selectorSpelling c ['a'] = [(.tagSelector, ['a'])] := by
  have hok : ∃ ts, tokenize c (['a'] ++ ['{', '}']) = .ok ts := by
    obtain ⟨_ | _, _ | _⟩ := c <;> exact ⟨_, tokenize_of_run (by decide +kernel)⟩
  refine ⟨⟨hok, List.all_iff_forall_prop.1 rfl, 'a', [], rfl, rfl⟩, ?_⟩
  obtain ⟨_ | _, _ | _⟩ := c <;> decide +kernel

namespace Machine

variable {m : Machine}

/-- A name and a colon in a block are taken for a selector, if they have the shape of a rule. -/
theorem At.kinds_of_rule (h : m.At c .statement (.block :: ms) ('b' :: ':' :: t))
    (shape : RuleShape.ofText ('b' :: ':' :: t) = .block) {source before : Text}
    (hm : m.Coherent) (hs : m.Stands source before) : m.run.kinds.head? = some .tagSelector := by
  obtain ⟨ps, p, hreaches, hp, hspelled⟩ := h.opens_selector rfl fun _ => shape
  have hscript : p.script = .skip [] (.emit .tagSelector ['b'] <| Script.noteSimple .tagSelector <|
      .goto .selector) := hp.script_eq.trans rfl
  have hkinds : p.step.kinds = [.tagSelector] := by
    rw [step, kinds_perform, hscript]
    rfl
  rw [← spelling_kinds, hreaches.spelling hm hs, hspelled, List.nil_append, spelling_kinds, run_eq,
    Run.kinds_followedBy, hkinds]
  rfl

end Machine

/-- In front of the declaration a machine reads the rule up to its block. -/
theorem exists_in_block (c : Config) (v : Text) :
    ∃ ps m, (Machine.start c (blockSample v)).Reaches ps m ∧
      m.At c .statement [.block] ('b' :: ':' :: (v ++ [';', '}'])) ∧
      Piece.spelled ps = [(.tagSelector, ['a']), (.braceStart, ['{'])] := by
  obtain ⟨htag, hspelled⟩ := selectorText_tag c
  have hstart : (Machine.start c (blockSample v)).At c .statement []
      (['a'] ++ '{' :: 'b' :: ':' :: (v ++ [';', '}'])) := Machine.at_start c _
  obtain ⟨ps, m, hreaches, hm, hps⟩ := htag.reads hstart .nil
  exact ⟨ps, m, hreaches, hm, by rw [hps, hspelled]; rfl⟩

/-- The rule is read with its declaration exactly if the search finds the shape of a declaration. -/
theorem ClosedValue.tokenize_blockSample_iff (hv : ClosedValue c v) :
    (∃ ts, tokenize c (blockSample v) = .ok ts ∧
        ts.map (fun t => (t.kind, t.text)) = blockSpelling c v) ↔
      RuleShape.ofText (v ++ [';', '}']) = .declaration := by
  have hstart := Machine.coherent_start c (blockSample v)
  have hstands := Machine.stands_start c (blockSample v)
  obtain ⟨ps, m, hreaches, hm, hspelled⟩ := exists_in_block c v
  constructor
  · rintro ⟨ts, hts, hspelling⟩
    cases hshape : RuleShape.ofText (v ++ [';', '}']) with
    | declaration => rfl
    | block =>
      have hhead := hm.kinds_of_rule (by rwa [RuleShape.ofText_named]) (hreaches.coherent hstart)
        (hreaches.stands hstart hstands)
      obtain ⟨rfl, -⟩ := run_of_tokenize hts
      have hbehind := hreaches.spelling hstart hstands
      rw [show (Machine.start c (blockSample v)).spelling = blockSpelling c v from hspelling,
        hspelled] at hbehind
      have hm' : _ = m.spelling := (List.cons.inj (List.cons.inj hbehind).2).2
      rw [← Machine.spelling_kinds, ← hm'] at hhead
      cases hhead
  · intro hshape
    obtain ⟨qs, m₁, hreaches₁, hm₁, hspelled₁⟩ :=
      hm.reads_property (.inr rfl) (List.forall_mem_nil _) ((RuleShape.ofText_named _).trans hshape)
    obtain ⟨rs, m₂, hreaches₂, hm₂, hspelled₂⟩ := hv.reads (y := ['}']) hm₁ (.cons .nil)
    obtain ⟨us, m₃, hreaches₃, hm₃, hspelled₃⟩ := hm₂.closes_block .nil
    have hall := hreaches.trans (hreaches₁.trans (hreaches₂.trans hreaches₃))
    obtain ⟨htokens, hok⟩ := Machine.run_of_blank hm₃.state hm₃.modes (by rw [hm₃.rest]; rfl)
    refine ⟨_, tokenize_of_run (hall.error?_run.trans hok), ?_⟩
    have hspelling := hall.spelling hstart hstands
    rw [Machine.spelling, Machine.spelling, htokens] at hspelling
    rw [hspelling]
    simp [hspelled, hspelled₁, hspelled₂, hspelled₃, blockSpelling]

/-- In a block a value is read as at the top, if no string with a closing brace stands in one of its
interpolations that are read. In any case it is if the search for the shape of a rule, which takes the
first closing brace for the end of an interpolation, finds a declaration. -/
theorem value_in_block (c : Config) (v : Text) (hv : ClosedValue c v) :
    ((c.interpolation = .tokens → BracesOutside [] (valueSpelling c v)) →
        ∃ ts, tokenize c (blockSample v) = .ok ts ∧
          ts.map (fun t => (t.kind, t.text)) = blockSpelling c v) ∧
      ((∃ ts, tokenize c (blockSample v) = .ok ts ∧
          ts.map (fun t => (t.kind, t.text)) = blockSpelling c v) ↔
        RuleShape.ofText (v ++ [';', '}']) = .declaration) := by
  refine ⟨fun hbraces => hv.tokenize_blockSample_iff.2 ?_, hv.tokenize_blockSample_iff⟩
  have hdeclares := hv.declares hbraces ['}']
  rwa [List.append_assoc] at hdeclares

/-- A string in an interpolation, with an opening brace in it. -/
theorem value_in_block_of_string :
    let v := "#\x7b'\x7b'\x7d".toList
    ClosedValue .standard v ∧ BracesOutside [] (valueSpelling .standard v) ∧
      ∃ ts, tokenize .standard (blockSample v) = .ok ts ∧
        ts.map (fun t => (t.kind, t.text)) = blockSpelling .standard v := by
  intro v
  have hv : ClosedValue .standard v :=
    ⟨⟨_, tokenize_of_run (by decide +kernel)⟩, [.variableName, .colon, .interpolationStart,
      .quotedString, .interpolationEnd], by decide +kernel, by decide⟩
  have hspelling : valueSpelling .standard v = [(.interpolationStart, ['#', '{']),
      (.quotedString, ['{']), (.interpolationEnd, ['}'])] := by
    decide +kernel
  have hbraces : BracesOutside [] (valueSpelling .standard v) := by
    rw [hspelling]
    intro u t w hsplit st hst hmem hbrace
    have hin : (Kind.quotedString, t) ∈ u ++ (.quotedString, t) :: w := by simp
    rw [← hsplit] at hin
    simp at hin
    subst hin
    cases List.mem_singleton.1 hbrace
  exact ⟨hv, hbraces, (value_in_block .standard v hv).1 fun _ => hbraces⟩

/-- A string with a closing and an opening brace in an interpolation makes a rule of a declaration. -/
theorem not_value_in_block :
    let v := "#\x7b'\x7d\x7b'\x7d".toList
    ClosedValue .standard v ∧
      tokenize .standard (blockSample v) =
        .error (.unexpected (some '#') 4 1 .selector) := by
  intro v
  refine ⟨⟨⟨_, tokenize_of_run (by decide +kernel)⟩, [.variableName, .colon, .interpolationStart,
    .quotedString, .interpolationEnd], by decide +kernel, by decide⟩, by decide +kernel⟩

end StyleLex

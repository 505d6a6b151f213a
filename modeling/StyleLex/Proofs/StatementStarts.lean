import StyleLex.Proofs.ReachedMachines

/-!
# How statements start

In front of a statement a machine gets to the value or the selector in it, whatever stands behind.
-/
namespace StyleLex

variable {c : Config} {st : State} {ms outer : List Mode} {v : View} {a : Char} {k : Kind}
  {rest t name blank : Text} {s : Script} {ps : List Piece}

theorem isNameStart_of_isDigit (h : a.isDigit = true) : isNameStart a = false := by
  have hne : a ≠ '_' := by
    rintro rfl
    cases h
  simp only [Char.isDigit, Bool.and_eq_true, decide_eq_true_eq, ge_iff_le,
    UInt32.le_iff_toNat_le] at h
  delta isNameStart isNonAscii Char.isAlpha Char.isUpper Char.isLower
  simp only [ge_iff_le, hne, Bool.or_eq_false_iff, Bool.and_eq_false_iff, decide_eq_false_iff_not,
    UInt32.le_iff_toNat_le]
  simp at h ⊢
  omega

/-- No space, quote or digit opens a selector. -/
theorem plain_of_opensSelector (h : opensSelector a = true) :
    isSpace a = false ∧ isQuote a = false ∧ a.isDigit = false := by
  refine ⟨?_, ?_, ?_⟩
  · rw [Bool.eq_false_iff]
    intro hspace
    simp only [isSpace, Bool.or_eq_true, decide_eq_true_eq] at hspace
    rcases hspace with (((rfl | rfl) | rfl) | rfl) | rfl <;> cases h
  · rw [Bool.eq_false_iff]
    intro hquote
    simp only [isQuote, Bool.or_eq_true, decide_eq_true_eq] at hquote
    rcases hquote with rfl | rfl <;> cases h
  · rw [Bool.eq_false_iff]
    intro hdigit
    simp only [opensSelector, opensSimple, isNameStart_of_isDigit hdigit, Bool.or_false,
      Bool.or_eq_true, decide_eq_true_eq] at h
    rcases h with ((rfl | rfl) | rfl) | ((((rfl | rfl) | rfl) | rfl) | rfl) | rfl <;> cases hdigit

/-- None of the characters that stand for a statement of another sort opens a selector. -/
theorem ne_sigil_of_opensSelector (h : opensSelector a = true) :
    a ≠ '@' ∧ a ≠ '$' ∧ a ≠ '{' ∧ a ≠ '}' := by
  refine ⟨?_, ?_, ?_, ?_⟩ <;>
    · rintro rfl
      cases h

theorem takeWhile_name (h : ∀ b ∈ name, isNameChar b = true) (ha : isNameChar a = false) (t : Text) :
    (name ++ a :: t).takeWhile isNameChar = name ∧ (name ++ a :: t).dropWhile isNameChar = a :: t := by
  refine Text.Munch.takeWhile_eq ⟨rfl, h, fun b hb => ?_⟩
  rwa [← Option.some.inj hb]

namespace Script

/-- Spaces in front of a statement or of a value are passed over with those that it begins with. -/
theorem ofState_spaces (hst : st = .statement ∨ st = .value) (h : ∀ b ∈ blank, isSpace b = true)
    (v : View) (t : Text) :
    ∃ s, ofState st { v with rest := blank ++ t } = .skip (blank ++ t.takeWhile isSpace) s ∧
      ofState st { v with rest := t } = .skip (t.takeWhile isSpace) s := by
  rcases hst with rfl | rfl
  · refine ⟨_, ?_, rfl⟩
    rw [ofState, statement, skipSpaces, List.takeWhile_append_of_pos h, List.dropWhile_append_of_pos h]
  · refine ⟨_, ?_, rfl⟩
    rw [ofState, value, skipSpaces, List.takeWhile_append_of_pos h, List.dropWhile_append_of_pos h]
    rfl

/-- A statement that begins like a name or like a selector. -/
theorem statement_of_plain (h : v.rest = a :: t) (hspace : isSpace a = false)
    (hsigil : a ≠ '@' ∧ a ≠ '$' ∧ a ≠ '{' ∧ a ≠ '}') (hquote : isQuote a = false)
    (hdigit : a.isDigit = false) :
    statement v = .skip [] (if v.top = .block ∧ RuleShape.ofText (a :: t) = .declaration then
      .goto .property
    else if opensSelector a then .enter .selector <| .note .detached <| .goto .selector
    else .fail [] (.unexpected (a :: t))) := by
  simp [statement, skipSpaces, h, hspace, hsigil, hquote, hdigit]

end Script

namespace Machine

variable {m p : Machine}

theorem skip_append (t u : Text) (m : Machine) : m.skip (t ++ u) = (m.skip t).skip u := by
  simp [skip, Cursor.advance, Cursor.ignore, Nat.add_assoc]

theorem script_skip (hst : m.state = .statement ∨ m.state = .value)
    (hrest : m.cursor.rest = blank ++ t) (hblank : ∀ b ∈ blank, isSpace b = true) :
    ∃ s, m.script = .skip (blank ++ t.takeWhile isSpace) s ∧
      (m.skip blank).script = .skip (t.takeWhile isSpace) s := by
  obtain ⟨s, hs, hs'⟩ := Script.ofState_spaces hst hblank m.view t
  refine ⟨s, ?_, ?_⟩
  · rw [script, ← hs, ← hrest]
    rfl
  · have hview : (m.skip blank).view = { m.view with rest := t } := by
      rw [← rest_skip_of_eq hrest]
      rfl
    rw [script, hview, ← hs']
    rfl

/-- Spaces in front of a statement or of a value can be passed over first. -/
theorem run_eq_skip (hst : m.state = .statement ∨ m.state = .value)
    (hrest : m.cursor.rest = blank ++ t) (hblank : ∀ b ∈ blank, isSpace b = true) :
    m.run = (m.skip blank).run := by
  obtain ⟨s, hs, hs'⟩ := script_skip hst hrest hblank
  have hstep : m.step = (m.skip blank).step := by
    rw [step, step, hs, hs', perform, perform, skip_append]
  rw [run_eq, run_eq (m.skip blank), hstep]

/-- What is reached behind the spaces, over some token, is reached from in front of them too. -/
theorem reaches_of_skip (hst : m.state = .statement ∨ m.state = .value)
    (hrest : m.cursor.rest = blank ++ t) (hblank : ∀ b ∈ blank, isSpace b = true)
    (h : (m.skip blank).Reaches ps p) {ks : List (Kind × Text)} (hspelled : Piece.spelled ps = ks)
    (hne : ks ≠ []) : ∃ qs, m.Reaches qs p ∧ Piece.spelled qs = ks := by
  obtain ⟨s, hs, hs'⟩ := script_skip hst hrest hblank
  have hstep : m.step = (m.skip blank).step := by
    rw [step, step, hs, hs', perform, perform, skip_append]
  subst hspelled
  cases h with
  | refl => exact absurd rfl hne
  | @step _ _ ps running ok behind =>
    rw [← hstep] at ok behind
    refine ⟨m.script.pieces ++ ps, .step running ok behind, ?_⟩
    rw [Piece.spelled_append, Piece.spelled_append, hs, hs']
    rfl

/-- A machine with nothing noted, with `rest` ahead and the modes `ms` open. -/
structure At (c : Config) (st : State) (ms : List Mode) (rest : Text) (m : Machine) : Prop where
  config : m.config = c
  state : m.state = st
  modes : m.openModes = ms
  compound : m.compound = .detached
  rest : m.cursor.rest = rest

theorem at_start (c : Config) (source : Text) : (start c source).At c .statement [] source :=
  ⟨rfl, rfl, rfl, rfl, rfl⟩

theorem At.coherent (h : m.At c st ms rest) (hfits : st.Fits c ms) : m.Coherent := by
  constructor
  · rw [h.state, h.config, h.modes]
    exact hfits
  · rw [h.compound]
    exact plain_detached

theorem At.script_eq (h : m.At c st ms rest) :
    m.script = .ofState st ⟨c, topMode ms, topMode ms.tail, .detached, rest⟩ := by
  have hview : m.view = ⟨c, topMode ms, topMode ms.tail, .detached, rest⟩ := by
    rw [← h.config, ← h.modes, ← h.compound, ← h.rest, ← openModes_leave, topMode_openModes,
      topMode_openModes]
    rfl
  rw [script, h.state, hview]

theorem At.skip (h : m.At c st ms (t ++ rest)) : (m.skip t).At c st ms rest :=
  ⟨h.config, h.state, h.modes, h.compound, rest_skip_of_eq h.rest⟩

/-- The state goes on in another one, without moving. -/
theorem At.goto (h : m.At c st ms rest) (running : st ≠ .done) {st' : State}
    (hs : m.script = .skip [] (.goto st')) : ∃ p, m.Reaches [.gap []] p ∧ p.At c st' ms rest := by
  have hstep : m.step = ⟨[], none, (m.skip []).goto st'⟩ := by rw [step, hs, perform, perform]
  have hreaches := reaches_step (h.state ▸ running) (show m.step.error? = none by rw [hstep])
  rw [hs, hstep] at hreaches
  exact ⟨_, hreaches, h.config, rfl, h.modes, h.compound, rest_skip_of_eq h.rest⟩

/-- The name in front of a value is read with the colon behind it. -/
theorem At.reads_name (h : m.At c st ms (name ++ ':' :: rest)) (running : st ≠ .done)
    (hs : m.script = .emit k name (.colon (':' :: rest))) :
    ∃ ps p, m.Reaches ps p ∧ p.At c .value (.value :: ms) rest ∧
      Piece.spelled ps = [(k, name), (.colon, [':'])] := by
  have hname : (m.take name).2.cursor.rest = ':' :: rest := rest_take_of_eq h.rest
  have hrest : (((m.take name).2.skip []).take [':']).2.cursor.rest = rest :=
    rest_take_of_eq (t := [':']) hname
  have hcolon : Script.colon (':' :: rest) =
      .skip [] (.emit .colon [':'] <| .enter .value <| .goto .value) := rfl
  rw [hcolon] at hs
  have hstep : m.step.error? = none ∧
      m.step.machine = ((((m.take name).2.skip []).take [':']).2.enter .value).goto .value := by
    rw [step, hs]
    exact ⟨rfl, rfl⟩
  have hreaches := reaches_step (h.state ▸ running) hstep.1
  rw [hs, hstep.2] at hreaches
  exact ⟨_, _, hreaches, ⟨h.config, rfl, congrArg (Mode.value :: ·) h.modes, h.compound, hrest⟩, rfl⟩

theorem At.reads_variable (h : m.At c .statement ms ('$' :: (name ++ ':' :: rest))) (ne : name ≠ [])
    (hname : ∀ b ∈ name, isNameChar b = true) :
    ∃ ps p, m.Reaches ps p ∧ p.At c .value (.value :: ms) rest ∧
      Piece.spelled ps = [(.variableName, '$' :: name), (.colon, [':'])] := by
  obtain ⟨m', hreaches, hm'⟩ := h.goto (by decide) (h.script_eq.trans rfl)
  have hscript : m'.script = .emit .variableName ('$' :: name) (.colon (':' :: rest)) := by
    obtain ⟨htake, hdrop⟩ := takeWhile_name hname (show isNameChar ':' = false from rfl) rest
    rw [hm'.script_eq, Script.ofState, Script.assignment]
    dsimp only
    rw [Script.sigil, htake, hdrop, if_neg ne]
  have hnamed : m'.At c .assignment ms ('$' :: name ++ ':' :: rest) := hm'
  obtain ⟨ps, p, hreaches', hp, hspelled⟩ := hnamed.reads_name (by decide) hscript
  exact ⟨_, p, hreaches.trans hreaches', hp, hspelled⟩

theorem At.reads_property (h : m.At c .statement (.block :: ms) (a :: (name ++ ':' :: rest)))
    (start : a = '-' ∨ isNameStart a = true) (hname : ∀ b ∈ name, isNameChar b = true)
    (shape : RuleShape.ofText (a :: (name ++ ':' :: rest)) = .declaration) :
    ∃ ps p, m.Reaches ps p ∧ p.At c .value (.value :: .block :: ms) rest ∧
      Piece.spelled ps = [(.propertyName, a :: name), (.colon, [':'])] := by
  have hopen : (isSpace a = false ∧ isQuote a = false ∧ a.isDigit = false) ∧
      a ≠ '@' ∧ a ≠ '$' ∧ a ≠ '{' ∧ a ≠ '}' := by
    rcases start with rfl | start
    · decide
    · have hopens : opensSelector a = true := by simp [opensSelector, opensSimple, start]
      exact ⟨plain_of_opensSelector hopens, ne_sigil_of_opensSelector hopens⟩
  obtain ⟨⟨hspace, hquote, hdigit⟩, hsigil⟩ := hopen
  have hproperty : m.script = .skip [] (.goto .property) := by
    rw [h.script_eq, Script.ofState, Script.statement_of_plain rfl hspace hsigil hquote hdigit,
      if_pos ⟨rfl, shape⟩]
  obtain ⟨m', hreaches, hm'⟩ := h.goto (by decide) hproperty
  have hscript : m'.script = .emit .propertyName (a :: name) (.colon (':' :: rest)) := by
    obtain ⟨htake, hdrop⟩ := takeWhile_name hname (show isNameChar ':' = false from rfl) rest
    rw [hm'.script_eq, Script.ofState, Script.property]
    dsimp only
    rw [if_pos start, htake, hdrop]
  have hnamed : m'.At c .property (.block :: ms) (a :: name ++ ':' :: rest) := hm'
  obtain ⟨ps, p, hreaches', hp, hspelled⟩ := hnamed.reads_name (by decide) hscript
  exact ⟨_, p, hreaches.trans hreaches', hp, hspelled⟩

theorem At.reads_keyword (h : m.At c .statement ms ('@' :: (name ++ ' ' :: rest)))
    (hname : ∀ b ∈ name, isNameChar b = true) (known : Script.atKeyword? name = some k) :
    ∃ ps p, m.Reaches ps p ∧ p.At c .value (.value :: ms) (' ' :: rest) ∧
      Piece.spelled ps = [(k, '@' :: name)] := by
  obtain ⟨m', hreaches, hm'⟩ := h.goto (by decide) (h.script_eq.trans rfl)
  have hscript : m'.script = .emit k ('@' :: name) (.enter .value <| .goto .value) := by
    obtain ⟨htake, -⟩ := takeWhile_name hname (show isNameChar ' ' = false from rfl) rest
    rw [hm'.script_eq, Script.ofState, Script.atRule]
    dsimp only
    rw [htake, known]
  have hrest : (m'.take ('@' :: name)).2.cursor.rest = ' ' :: rest := rest_take_of_eq hm'.rest
  have hstep : m'.step.error? = none ∧
      m'.step.machine = ((m'.take ('@' :: name)).2.enter .value).goto .value := by
    rw [step, hscript]
    exact ⟨rfl, rfl⟩
  have hreaches' := reaches_step (ne_of_eq_of_ne hm'.state (by decide)) hstep.1
  rw [hscript, hstep.2] at hreaches'
  exact ⟨_, _, hreaches.trans hreaches',
    ⟨hm'.config, rfl, congrArg (Mode.value :: ·) hm'.modes, hm'.compound, hrest⟩, rfl⟩

/-- A selector is opened where a selector may stand, inside of a block only if that is its shape. -/
theorem At.opens_selector (h : m.At c .statement ms (a :: t)) (opens : opensSelector a = true)
    (shape : topMode ms = .block → RuleShape.ofText (a :: t) = .block) :
    ∃ ps p, m.Reaches ps p ∧ p.At c .selector (.selector :: ms) (a :: t) ∧ Piece.spelled ps = [] := by
  obtain ⟨hspace, hquote, hdigit⟩ := plain_of_opensSelector opens
  have hshape : ¬(topMode ms = .block ∧ RuleShape.ofText (a :: t) = .declaration) := by
    rintro ⟨htop, hdeclaration⟩
    rw [shape htop] at hdeclaration
    cases hdeclaration
  have hscript : m.script = .skip [] (.enter .selector <| .note .detached <| .goto .selector) := by
    rw [h.script_eq, Script.ofState, Script.statement_of_plain rfl hspace
      (ne_sigil_of_opensSelector opens) hquote hdigit, if_neg hshape, if_pos opens]
  have hrest : (m.skip []).cursor.rest = a :: t := rest_skip_of_eq h.rest
  have hstep : m.step.error? = none ∧
      m.step.machine = (((m.skip []).enter .selector).note .detached).goto .selector := by
    rw [step, hscript]
    exact ⟨rfl, rfl⟩
  have hreaches := reaches_step (ne_of_eq_of_ne h.state (by decide)) hstep.1
  rw [hscript, hstep.2] at hreaches
  exact ⟨_, _, hreaches, ⟨h.config, rfl, congrArg (Mode.selector :: ·) h.modes, rfl, hrest⟩, rfl⟩

theorem At.closes_block (h : m.At c .statement (.block :: ms) ('}' :: rest)) (outer : Blocks ms) :
    ∃ ps p, m.Reaches ps p ∧ p.At c .statement ms rest ∧
      Piece.spelled ps = [(.braceEnd, ['}'])] := by
  have hscript : m.script = .skip [] (.emit .braceEnd ['}'] <| .leave .resume) :=
    h.script_eq.trans rfl
  have hrest : ((m.skip []).take ['}']).2.cursor.rest = rest :=
    rest_take_of_eq (t := ['}']) (rest_skip_of_eq h.rest)
  have hmodes : ((m.skip []).take ['}']).2.leave.openModes = ms := by
    rw [openModes_leave, show ((m.skip []).take ['}']).2.openModes = _ from h.modes, List.tail_cons]
  have hstep : m.step.error? = none ∧ m.step.machine = ((m.skip []).take ['}']).2.leave.resume := by
    rw [step, hscript]
    exact ⟨rfl, rfl⟩
  have hreaches := reaches_step (h.state ▸ nofun) hstep.1
  rw [hscript, hstep.2] at hreaches
  refine ⟨_, _, hreaches, ⟨h.config, ?_, hmodes, h.compound, hrest⟩, rfl⟩
  rw [resume, Machine.goto, ← topMode_openModes, hmodes]
  exact outer.resume

end Machine

end StyleLex

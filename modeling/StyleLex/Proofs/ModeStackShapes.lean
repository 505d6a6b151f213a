import StyleLex.Proofs.CountedSteps
import StyleLex.Proofs.DetachedCompounds
import StyleLex.Proofs.StopOffsets

/-!
# The shape of the mode stack

In every machine on the way the open modes are blocks and at most one construct inside of them, the
state suits the innermost mode, and the frames stand in the order of the text. Whatever a step removes
from the stack is the mode that its state is there to close.
-/
namespace StyleLex

/-- The parts of a value that hold values. -/
def Mode.isPart : Mode → Bool
  | .functionArguments | .interpolation => true
  | _ => false

/-- The modes inside of all blocks, outermost first. -/
inductive Nested : List Mode → Prop where
  | nothing : Nested []
  | selector : Nested [.selector]
  | group : Nested [.selector, .attribute]
  | pseudoArguments : Nested [.selector, .pseudoArguments]
  | interpolation {inner : List Mode} (parts : ∀ mode ∈ inner, mode.isPart = true) :
      Nested (.selector :: .interpolation :: inner)
  | value {inner : List Mode} (parts : ∀ mode ∈ inner, mode.isPart = true) : Nested (.value :: inner)

namespace ModeStack

/-- All frames, the bottom one first. -/
def all (s : ModeStack) : List Frame := .bottom :: s.frames.reverse

/-- The stack holds the top level, any number of blocks, and what is inside of them. -/
def Shaped (s : ModeStack) : Prop :=
  ∃ n inner, s.all.map Frame.mode = .topLevel :: (List.replicate n .block ++ inner) ∧ Nested inner

end ModeStack

namespace State

/-- The innermost modes that a state goes on with. -/
def Suits : State → Mode → Prop
  | .statement, mode | .atRule, mode | .assignment, mode => mode = .topLevel ∨ mode = .block
  | .property, mode => mode = .block
  | .selector, mode => mode = .selector
  | .attribute, mode => mode = .attribute
  | .pseudoArguments, mode => mode = .pseudoArguments
  | .interpolation, mode => mode = .interpolation
  | .value, mode => mode = .value ∨ mode = .functionArguments
  | .done, _ => False

/-- The sign that a state stands in front of, if it needs one. -/
def Faces : State → Text → Prop
  | .atRule, rest => rest.head? = some '@'
  | .assignment, rest => rest.head? = some '$'
  | _, _ => True

/-- What a state closes behind its last token. A selector closes in front of the brace of its block,
and a value may close in front of the brace of the block around it. -/
inductive Closes : State → Option Kind → Mode → Prop where
  | block : Closes .statement (some .braceEnd) .block
  | selector : Closes .selector none .selector
  | group : Closes .attribute (some .attrEnd) .attribute
  | noArguments : Closes .pseudoArguments none .pseudoArguments
  | arguments : Closes .pseudoArguments (some .langCode) .pseudoArguments
  | value : Closes .value (some .semicolon) .value
  | lenientValue : Closes .value none .value
  | call : Closes .value (some .parenEnd) .functionArguments
  | interpolation : Closes .interpolation (some .interpolationEnd) .interpolation

theorem faces_ofMode (mode : Mode) (rest : Text) : (ofMode mode).Faces rest := by
  cases mode <;> trivial

end State

section Shapes

variable {c : Config} {ms : List Mode} {st : State}

theorem Blocks.exists_replicate (h : Blocks ms) : ∃ n, ms.reverse = List.replicate n .block := by
  induction h with
  | nil => exact ⟨0, rfl⟩
  | cons _ ih =>
    obtain ⟨n, hn⟩ := ih
    exact ⟨n + 1, by rw [List.reverse_cons, hn, List.replicate_succ']⟩

/-- Nothing but calls and interpolations is open in a value, or in an interpolation of a selector. -/
def HoldsParts (ms : List Mode) : Prop :=
  ∃ n front inner, ms.reverse = List.replicate n .block ++ (front ++ inner) ∧
    (front = [.value] ∨ front = [.selector, .interpolation]) ∧ ∀ mode ∈ inner, mode.isPart = true

theorem HoldsParts.cons {mode : Mode} (h : HoldsParts ms) (part : mode.isPart = true) :
    HoldsParts (mode :: ms) := by
  obtain ⟨n, front, inner, hms, hfront, hinner⟩ := h
  refine ⟨n, front, inner ++ [mode], ?_, hfront, ?_⟩
  · rw [List.reverse_cons, hms, List.append_assoc, List.append_assoc]
  · intro mode' hmem
    rcases List.mem_append.1 hmem with hmem | hmem
    · exact hinner mode' hmem
    · rw [List.mem_singleton.1 hmem]
      exact part

theorem HoldsParts.shape (h : HoldsParts ms) :
    ∃ n inner, ms.reverse = List.replicate n .block ++ inner ∧ Nested inner := by
  obtain ⟨n, front, inner, hms, hfront, hinner⟩ := h
  refine ⟨n, front ++ inner, hms, ?_⟩
  rcases hfront with rfl | rfl
  · exact .value hinner
  · exact .interpolation hinner

theorem ValueModes.holdsParts (h : ValueModes c ms) : HoldsParts ms := by
  induction h with
  | value outer =>
    obtain ⟨n, hn⟩ := outer.exists_replicate
    exact ⟨n, [.value], [], by rw [List.reverse_cons, hn, List.append_nil], .inl rfl, nofun⟩
  | call _ ih => exact ih.cons rfl
  | interpolation _ _ ih => exact ih.cons rfl
  | selector _ outer =>
    obtain ⟨n, hn⟩ := outer.exists_replicate
    refine ⟨n, [.selector, .interpolation], [], ?_, .inr rfl, nofun⟩
    rw [List.reverse_cons, List.reverse_cons, hn, List.append_assoc]
    rfl

/-- Some modes inside of blocks. -/
private theorem Blocks.shape (h : Blocks ms) (inner : List Mode) (hinner : Nested inner.reverse) :
    ∃ n inner', (inner ++ ms).reverse = List.replicate n .block ++ inner' ∧ Nested inner' := by
  obtain ⟨n, hn⟩ := h.exists_replicate
  exact ⟨n, inner.reverse, by rw [List.reverse_append, hn], hinner⟩

theorem State.Fits.shape (h : st.Fits c ms) :
    ∃ n inner, ms.reverse = List.replicate n .block ++ inner ∧ Nested inner := by
  cases h with
  | statement outer => exact outer.shape [] .nothing
  | atRule outer => exact outer.shape [] .nothing
  | assignment outer => exact outer.shape [] .nothing
  | property outer => exact (Blocks.cons outer).shape [] .nothing
  | selector outer => exact outer.shape [.selector] .selector
  | group outer => exact outer.shape [.attribute, .selector] .group
  | pseudoArguments outer => exact outer.shape [.pseudoArguments, .selector] .pseudoArguments
  | value outer => exact outer.shape [.value] (.value (List.forall_mem_nil _))
  | call outer => exact (outer.holdsParts.cons rfl).shape
  | interpolation outer => exact (outer.holdsParts.cons rfl).shape
  | selectorInterpolation outer =>
    exact outer.shape [.interpolation, .selector] (.interpolation (List.forall_mem_nil _))
  | done => exact Blocks.nil.shape [] .nothing

theorem State.Fits.suits (h : st.Fits c ms) (running : st ≠ .done) : st.Suits (topMode ms) := by
  have hblocks {ms : List Mode} (h : Blocks ms) : topMode ms = .topLevel ∨ topMode ms = .block := by
    cases h with
    | nil => exact .inl rfl
    | cons => exact .inr rfl
  cases h with
  | statement outer => exact hblocks outer
  | atRule outer => exact hblocks outer
  | assignment outer => exact hblocks outer
  | value => exact .inl rfl
  | call => exact .inr rfl
  | done => exact absurd rfl running
  | property | selector | group | pseudoArguments | interpolation | selectorInterpolation => rfl

end Shapes

namespace Script

/-- Each mode that the script closes is one that the state `st` closes behind its last token, `k?`, and
the script goes to a state in front of its sign. -/
def Orderly (st : State) : Script → Option Kind → List Mode → Text → Prop
  | .skip t s, k?, ms, rest => s.Orderly st k? ms (rest.drop t.length)
  | .emit k t s, _, ms, rest => s.Orderly st (some k) ms (rest.drop t.length)
  | .enter mode s, k?, ms, rest => s.Orderly st k? (mode :: ms) rest
  | .leave s, k?, ms, rest =>
    (∃ mode outer, ms = mode :: outer ∧ st.Closes k? mode) ∧ s.Orderly st k? ms.tail rest
  | .note _ s, k?, ms, rest => s.Orderly st k? ms rest
  | .goto st', _, _, rest => st'.Faces rest
  | .resume, _, _, _ | .fail _ _, _, _, _ => True

variable {c : Config} {ms : List Mode} {st : State} {v : View} {rest : Text} {next : Text → Script}
  {s : Script} {k? : Option Kind}

theorem Leads.orderly (hs : Leads next s) (h : ∀ tail k? rest, (next tail).Orderly st k? ms rest)
    (k? : Option Kind) (rest : Text) : s.Orderly st k? ms rest := by
  induction hs generalizing k? rest with
  | next tail => exact h tail k? rest
  | skip _ ih => exact ih _ _
  | emit _ ih => exact ih _ _
  | fail => trivial

theorem ComponentForm.orderly {after : State} {r : Text} (hs : ComponentForm v after r s)
    (hafter : ∀ rest, after.Faces rest) : s.Orderly st k? ms rest := by
  have hnext (_ : Text) (k? : Option Kind) (rest : Text) : (goto after).Orderly st k? ms rest :=
    hafter rest
  cases hs with
  | atEnd => trivial
  | reference _ form => exact form.leads.orderly hnext _ _
  | interpolation => trivial
  | hexColor _ _ form => exact form.leads.orderly hnext _ _
  | quoted _ _ form => exact form.leads.orderly hnext _ _
  | comma => exact hafter _
  | call => trivial
  | stray => trivial
  | number _ form => exact form.leads.orderly hnext _ _
  | constant _ _ _ _ form => exact form.leads.orderly hnext _ _

theorem ValueForm.orderly {r : Text} (hs : ValueForm v r s) (hv : v.Shows c ms)
    (h : State.Fits c .value ms) : s.Orderly .value none ms rest := by
  cases hs with
  | endOfText => trivial
  | endInCall => trivial
  | braceInCall => trivial
  | semicolon _ outside =>
    obtain ⟨ms', rfl, -⟩ := h.not_inCall hv outside
    exact ⟨⟨_, _, rfl, .value⟩, trivial⟩
  | missing => trivial
  | lenient _ outside =>
    obtain ⟨ms', rfl, -⟩ := h.not_inCall hv outside
    exact ⟨⟨_, _, rfl, .lenientValue⟩, trivial⟩
  | endOfCall _ inside =>
    obtain ⟨ms', rfl, -⟩ := h.inCall hv inside
    exact ⟨⟨_, _, rfl, .call⟩, trivial⟩
  | component _ _ _ _ form => exact form.orderly fun _ => trivial

theorem CloseForm.orderly (hs : CloseForm v s) (h : State.Fits c .interpolation ms) :
    s.Orderly .interpolation none ms rest := by
  obtain ⟨ms', rfl⟩ : ∃ ms', ms = .interpolation :: ms' := by
    cases h <;> exact ⟨_, rfl⟩
  cases hs with
  | selector => exact ⟨⟨_, _, rfl, .interpolation⟩, trivial⟩
  | value => exact ⟨⟨_, _, rfl, .interpolation⟩, trivial⟩

theorem InterpolationForm.orderly (hs : InterpolationForm v s) (h : State.Fits c .interpolation ms) :
    s.Orderly .interpolation none ms rest := by
  cases hs with
  | unclosedSkipped => trivial
  | skipped _ _ _ close => exact close.orderly h
  | unclosed => trivial
  | close _ _ close => exact close.orderly h
  | component _ _ _ form => exact form.orderly fun _ => trivial

theorem SimpleForm.orderly {a : Char} {r : Text} (hs : SimpleForm a r s) :
    s.Orderly .selector k? ms rest := by
  cases hs with
  | group => trivial
  | pseudo _ form => cases form <;> trivial
  | sigil _ form => exact form.leads.orderly (fun _ _ _ => trivial) _ _
  | universal => trivial
  | parent => trivial
  | tag => trivial

theorem CompoundForm.orderly {a : Char} {r : Text} (hs : CompoundForm v a r s) :
    s.Orderly .selector k? ms rest := by
  cases hs with
  | interpolation => trivial
  | continued => trivial
  | simple _ _ _ form => exact form.orderly
  | glued _ _ _ form => exact form.orderly
  | stray => trivial

theorem SelectorForm.orderly (hs : SelectorForm v s) :
    s.Orderly .selector none (.selector :: ms) rest := by
  cases hs with
  | atEnd => trivial
  | combinator => trivial
  | block => exact ⟨⟨_, _, rfl, .selector⟩, trivial⟩
  | comma => trivial
  | descendant => trivial
  | compound _ _ _ _ _ form => exact form.orderly

theorem AttributeEndForm.orderly {r : Text} (hs : AttributeEndForm v r s) :
    s.Orderly .attribute k? (.attribute :: ms) rest := by
  cases hs with
  | closed => exact ⟨⟨_, _, rfl, .group⟩, trivial⟩
  | unclosed => trivial

theorem AttributeForm.orderly (hs : AttributeForm v s) :
    s.Orderly .attribute k? (.attribute :: ms) rest := by
  have hend (r : Text) (k? : Option Kind) (rest : Text) :
      (attributeEnd v r).Orderly .attribute k? (.attribute :: ms) rest :=
    (attributeEnd_form v r).orderly
  cases hs with
  | nameless => trivial
  | named _ _ _ _ form =>
    cases form with
    | none _ form => exact form.orderly
    | operator _ _ _ form =>
      cases form with
      | quoted _ _ form => exact form.leads.orderly (fun _ _ _ => hend _ _ _) _ _
      | bare => exact hend _ _ _
      | missing => trivial

theorem ArgumentsForm.orderly (hs : ArgumentsForm v s) :
    s.Orderly .pseudoArguments none (.pseudoArguments :: ms) rest := by
  cases hs with
  | unclosed => trivial
  | empty => exact ⟨⟨_, _, rfl, .noArguments⟩, trivial⟩
  | arguments => exact ⟨⟨_, _, rfl, .arguments⟩, trivial⟩

theorem ColonForm.orderly {r : Text} (hs : ColonForm r s) : s.Orderly st k? ms rest := by
  cases hs with
  | colon => trivial
  | missing => trivial

theorem StatementForm.orderly (hs : StatementForm v rest s) (hv : v.Shows c ms) (outer : Blocks ms) :
    s.Orderly .statement none ms rest := by
  cases hs with
  | finished => trivial
  | unclosed => trivial
  | atRule ahead => exact congrArg List.head? ahead
  | assignment ahead => exact congrArg List.head? ahead
  | block => trivial
  | close _ inside =>
    obtain ⟨ms', rfl, -⟩ := outer.eq_cons (hv.top ▸ inside)
    exact ⟨⟨_, _, rfl, .block⟩, trivial⟩
  | unbalanced => trivial
  | quoted _ _ form => exact form.leads.orderly (fun _ _ _ => trivial) _ _
  | number _ _ form => exact form.leads.orderly (fun _ _ _ => trivial) _ _
  | property => trivial
  | selector => trivial
  | stray => trivial

theorem orderly_ofState (hv : v.Shows c ms) (h : st.Fits c ms) :
    (ofState st v).Orderly st none ms v.rest := by
  have hs := ofState_form st v
  generalize ofState st v = s at hs ⊢
  cases hs with
  | statement munch form =>
    rw [Orderly, munch.split, List.drop_left]
    cases h with | statement outer => exact form.orderly hv outer
  | atRule form => cases form <;> trivial
  | assignment form =>
    cases form with
    | atEnd => trivial
    | named _ form => exact form.leads.orderly (fun _ _ _ => (colon_form _).orderly) _ _
  | property form =>
    cases form with
    | atEnd => trivial
    | named _ _ _ form => exact form.orderly
    | stray => trivial
  | selector form => cases h with | selector => exact form.orderly
  | group form => cases h with | group => exact form.orderly
  | pseudoArguments form => cases h with | pseudoArguments => exact form.orderly
  | value _ form => exact form.orderly hv h
  | interpolation form => exact form.orderly h
  | done => trivial

end Script

namespace Machine

variable {m : Machine} {s : Script} {st : State} {k? : Option Kind}

/-- What a script takes off the mode stack, each with the kind of the token in front, if there is one.
At the bottom there is nothing to take off. -/
def popped : Script → Option Kind → Machine → List (Option Kind × Option Frame)
  | .skip t s, k?, m => popped s k? (m.skip t)
  | .emit k t s, _, m => popped s (some k) (m.take t).2
  | .enter mode s, k?, m => popped s k? (m.enter mode)
  | .leave s, k?, m => (k?, m.modes.pop.1) :: popped s k? m.leave
  | .note g s, k?, m => popped s k? (m.note g)
  | .goto _, _, _ | .resume, _, _ | .fail _ _, _, _ => []

theorem closes_of_popped (hs : s.Orderly st k? m.openModes m.cursor.rest)
    {p : Option Kind × Option Frame} (hp : p ∈ popped s k? m) :
    ∃ f, p.2 = some f ∧ st.Closes p.1 f.mode := by
  induction s generalizing m k? with
  | skip t s ih => exact ih (m := m.skip t) hs hp
  | emit k t s ih => exact ih (m := (m.take t).2) hs hp
  | enter mode s ih => exact ih (m := m.enter mode) hs hp
  | leave s ih =>
    obtain ⟨⟨mode, outer, hms, hcloses⟩, hs⟩ := hs
    obtain ⟨f, fs, hframes, rfl, -⟩ : ∃ f fs, m.modes.frames = f :: fs ∧ f.mode = mode ∧
        fs.map Frame.mode = outer := List.map_eq_cons_iff.1 hms
    rcases List.mem_cons.1 hp with rfl | hp
    · refine ⟨f, ?_, hcloses⟩
      show m.modes.frames.head? = some f
      rw [hframes, List.head?_cons]
    · exact ih (m := m.leave) (by rwa [openModes_leave]) hp
  | note g s ih => exact ih (m := m.note g) hs hp
  | goto st' => cases hp
  | resume => cases hp
  | fail t f => cases hp

theorem faces_perform (hs : s.Orderly st k? m.openModes m.cursor.rest)
    (he : (perform s m).error? = none) :
    (perform s m).machine.state.Faces (perform s m).machine.cursor.rest := by
  induction s generalizing m k? with
  | skip t s ih => exact ih (m := m.skip t) hs he
  | emit k t s ih => exact ih (m := (m.take t).2) hs he
  | enter mode s ih => exact ih (m := m.enter mode) hs he
  | leave s ih =>
    have hbehind := hs.2
    rw [← openModes_leave] at hbehind
    exact ih (m := m.leave) hbehind he
  | note g s ih => exact ih (m := m.note g) hs he
  | goto st' => exact hs
  | resume => exact State.faces_ofMode _ _
  | fail t f => cases he

theorem Coherent.orderly (hm : m.Coherent) :
    m.script.Orderly m.state none m.openModes m.cursor.rest :=
  Script.orderly_ofState hm.view_shows hm.fits

/-- The frames were opened one behind the other, and none of them behind the pending lexeme. -/
structure Ascending (m : Machine) : Prop where
  aligned : m.Aligned
  reached : ∀ f ∈ m.modes.frames, f.offset ≤ m.cursor.start
  ordered : m.modes.frames.Pairwise fun inner outer => outer.offset ≤ inner.offset

theorem Ascending.perform (h : m.Ascending) (s : Script) : (perform s m).machine.Ascending := by
  have hmove {m : Machine} (h : m.Ascending) (t : Text) :
      ∀ f ∈ m.modes.frames, f.offset ≤ m.cursor.pos + t.byteSize := by
    intro f hf
    have hle := h.reached f hf
    rw [h.aligned]
    omega
  induction s generalizing m with
  | skip t s ih => exact ih ⟨aligned_skip t m, hmove h t, h.ordered⟩
  | emit k t s ih => exact ih ⟨aligned_take t m, hmove h t, h.ordered⟩
  | enter mode s ih =>
    refine ih ⟨h.aligned, ?_, List.Pairwise.cons h.reached h.ordered⟩
    intro f hf
    rcases List.mem_cons.1 hf with rfl | hf
    · exact Nat.le_refl _
    · exact h.reached f hf
  | leave s ih =>
    exact ih ⟨h.aligned, fun f hf => h.reached f (List.mem_of_mem_tail hf), h.ordered.tail⟩
  | note g s ih => exact ih ⟨h.aligned, h.reached, h.ordered⟩
  | goto st => exact ⟨h.aligned, h.reached, h.ordered⟩
  | resume => exact ⟨h.aligned, h.reached, h.ordered⟩
  | fail t f => exact ⟨h.aligned.stop t, h.reached, h.ordered⟩

/-- The order of the machine and its mode stack behind the tokens `ts`. -/
structure WellStacked (ts : List Token) (m : Machine) : Prop where
  nothingPending : m.cursor.lexeme = []
  shape : m.modes.Shaped
  state : m.state.Suits m.modes.top
  sign : m.state.Faces m.cursor.rest
  ascending : m.modes.all.Pairwise fun outer inner => outer.offset ≤ inner.offset
  /-- The frames of brackets are the tokens that are still open, at the same places. -/
  brackets : ∃ st, openTokens [] ts = some st ∧ Marked m.modes.frames st
  pops : ∀ p ∈ popped m.script none m, ∃ f, p.2 = some f ∧ m.state.Closes p.1 f.mode

theorem Recorded.wellStacked {source before : Text} {ts : List Token} (h : m.Recorded source before ts)
    (hsign : m.state.Faces m.cursor.rest) (hframes : m.Ascending) (running : m.state ≠ .done) :
    m.WellStacked ts where
  nothingPending := h.stands.lexeme
  shape := by
    obtain ⟨n, inner, hms, hinner⟩ := h.coherent.fits.shape
    refine ⟨n, inner, ?_, hinner⟩
    rw [← hms, ModeStack.all, List.map_cons, List.map_reverse]
    rfl
  state := by
    rw [← topMode_openModes]
    exact h.coherent.fits.suits running
  sign := hsign
  ascending := List.Pairwise.cons (fun f _ => Nat.zero_le _) (List.pairwise_reverse.2 hframes.ordered)
  brackets := h.brackets
  pops := fun _ hp => closes_of_popped h.coherent.orderly hp

end Machine

/-- As long as a run is not over, the modes are open in a certain order, the state suits them, and
each of them stands for the token that opened it. So nothing is closed by accident. -/
theorem mode_stack_shapes (c : Config) (source : Text) (n : Nat)
    (running : ((Machine.start c source).steps n).machine.state ≠ .done) :
    ((Machine.start c source).steps n).machine.WellStacked
      ((Machine.start c source).steps n).tokens := by
  obtain ⟨⟨before, h⟩, hsign, hframes⟩ := Machine.steps_induction
    (P := fun ts m => (∃ before, m.Recorded source before ts) ∧
      m.state.Faces m.cursor.rest ∧ m.Ascending)
    ⟨⟨[], Machine.recorded_start c source⟩, trivial, ⟨rfl, nofun, .nil⟩⟩
    (fun ts m ⟨⟨_, h⟩, _, hframes⟩ hrunning he =>
      ⟨⟨_, h.step hrunning he⟩, Machine.faces_perform h.coherent.orderly he, hframes.perform _⟩)
    n running
  exact h.wellStacked hsign hframes running

/-- Behind eight steps a call is open in an interpolation of a selector in a block. -/
theorem mode_stack_shapes_nested :
    ((Machine.start .standard "a\x7bb#\x7bf(x)\x7d\x7b\x7d\x7d".toList).steps 8).machine.state ≠ .done ∧
      ((Machine.start .standard "a\x7bb#\x7bf(x)\x7d\x7b\x7d\x7d".toList).steps 8).machine.WellStacked
        ((Machine.start .standard "a\x7bb#\x7bf(x)\x7d\x7b\x7d\x7d".toList).steps 8).tokens :=
  have hrunning : ((Machine.start .standard
      "a\x7bb#\x7bf(x)\x7d\x7b\x7d\x7d".toList).steps 8).machine.state ≠ .done := by
    decide +kernel
  ⟨hrunning, mode_stack_shapes .standard _ 8 hrunning⟩

end StyleLex

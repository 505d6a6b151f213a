import StyleLex.Proofs.SheetCompletion

/-!
# Scripts and the words they can be completed to

Each script is checked against the words that may come behind its state: the kinds that it hands over,
with what may come behind it, must be such a word.
-/
namespace StyleLex

variable {c : Config} {ms : List Mode} {v : View}

namespace Script

/-- Whatever may follow the state that the script leads to gives, behind the kinds handed over, a
word of `L`. A script that fails can still be completed to one. -/
def Conforms (c : Config) : Script → List Mode → (List Kind → Prop) → Prop
  | .skip _ s, ms, L | .note _ s, ms, L => s.Conforms c ms L
  | .emit k _ s, ms, L => s.Conforms c ms fun w => L (k :: w)
  | .enter mode s, ms, L => s.Conforms c (mode :: ms) L
  | .leave s, ms, L => s.Conforms c ms.tail L
  | .goto st, ms, L => ∀ w, Follows c st ms w → L w
  | .resume, ms, L => ∀ w, Follows c (.ofMode (topMode ms)) ms w → L w
  | .fail _ _, _, L => ∃ w, L w

variable {L : List Kind → Prop} {rest : Text} {next : Text → Script} {s : Script}

theorem SigilForm.conforms {k : Kind} {a : Char} (hs : SigilForm k a rest next s)
    (hL : ∃ w, L w) (h : ∀ tail, (next tail).Conforms c ms fun w => L (k :: w)) :
    s.Conforms c ms L := by
  cases hs with
  | nameless => exact hL
  | named => exact h _

theorem QuotedForm.conforms {q : Char} (hs : QuotedForm q rest next s) (hL : ∃ w, L w)
    (h : ∀ tail, (next tail).Conforms c ms fun w => L (.quotedString :: w)) :
    s.Conforms c ms L := by
  cases hs with
  | unclosed => exact hL
  | closed => exact h _

theorem UnitForm.conforms (hs : UnitForm rest next s) (hL : ∃ w, L w)
    (hnext : ∀ tail, (next tail).Conforms c ms L)
    (hunit : ∀ u tail, (next tail).Conforms c ms fun w => L (.unit u :: w)) : s.Conforms c ms L := by
  cases hs with
  | percent => exact hunit _ _
  | none => exact hnext _
  | known => exact hunit _ _
  | unknown => exact hL

theorem NumberForm.conforms (hs : NumberForm rest next s) (hL : ∃ w, L w)
    (hw : ∀ u, Derives c .number u → ∃ w, L (u ++ w))
    (h : ∀ u, Derives c .number u → ∀ tail, (next tail).Conforms c ms fun w => L (u ++ w)) :
    s.Conforms c ms L := by
  cases hs with
  | malformed => exact hL
  | float _ _ _ _ unit =>
    exact unit.conforms (hw [.float] (.number (.inr rfl))) (h [.float] (.number (.inr rfl)))
      (fun u => h [.float, .unit u] (.measure (.inr rfl) u))
  | integer _ _ _ unit =>
    exact unit.conforms (hw [.integer] (.number (.inl rfl))) (h [.integer] (.number (.inl rfl)))
      (fun u => h [.integer, .unit u] (.measure (.inl rfl) u))

theorem HexColorForm.conforms (hs : HexColorForm rest next s) (hL : ∃ w, L w)
    (h : ∀ tail, (next tail).Conforms c ms fun w => L (.hexColor :: w)) : s.Conforms c ms L := by
  cases hs with
  | color => exact h _
  | malformed => exact hL

theorem ConstantForm.conforms {inCall : Bool} (hs : ConstantForm inCall rest next s) (hL : ∃ w, L w)
    (h : ∀ tail, (next tail).Conforms c ms fun w => L (.constant :: w)) : s.Conforms c ms L := by
  cases hs with
  | none => exact hL
  | word => exact h _

theorem ComponentForm.conforms {after : State} (hs : ComponentForm v after rest s)
    (hms : ValueModes c ms) (hafter : ∀ w, Follows c after ms w → Completes c ms w) :
    s.Conforms c ms (Completes c ms) := by
  have hL := hms.exists_completes
  have hcomponent {u : List Kind} (hu : Derives c .component u) :
      (goto after).Conforms c ms fun w => Completes c ms (u ++ w) :=
    fun w hw => (hafter w hw).component hms hu
  have hliteral {k : Kind} (hk : k.isLiteral = true) :
      (goto after).Conforms c ms fun w => Completes c ms (k :: w) :=
    hcomponent (.literal hk)
  cases hs with
  | atEnd => exact hL
  | reference _ form => exact form.conforms hL fun _ => hliteral rfl
  | interpolation => exact fun w hw => hw.openInterpolation hms
  | hexColor _ _ form => exact form.conforms hL fun _ => hliteral rfl
  | quoted _ _ form => exact form.conforms hL fun _ => hliteral rfl
  | comma => exact hliteral rfl
  | call => exact fun w hw => hw.openCall hms
  | stray => exact hL
  | number _ form =>
    apply form.conforms hL
    · intro u hu
      obtain ⟨w, hw⟩ := hL
      exact ⟨w, hw.component hms (.quantity hu)⟩
    · exact fun u hu _ => hcomponent (.quantity hu)
  | constant _ _ _ _ form => exact form.conforms hL fun _ => hliteral rfl

/-- A value that ends in front of a brace, without its semicolon, hands over nothing. Its brace is a
token of the step behind it. -/
structure EndsAtBrace (v : View) (rest : Text) (s : Script) : Prop where
  ahead : ∃ t, rest = '}' :: t
  outside : v.inCall = false
  lenient : v.config.requireSemicolon = false
  script : s = .leave .resume

theorem ValueForm.conforms (hs : ValueForm v rest s) (hv : v.Shows c ms) (h : State.Fits c .value ms)
    (hbrace : ¬EndsAtBrace v rest s) : s.Conforms c ms (Completes c ms) := by
  have hL := h.valueModes.exists_completes
  cases hs with
  | endOfText => exact hL
  | endInCall => exact hL
  | braceInCall => exact hL
  | semicolon _ outside =>
    obtain ⟨ms', rfl, outer⟩ := h.not_inCall hv outside
    exact fun w hw => (outer.follows_resume.1 hw).closeValue
  | missing => exact hL
  | lenient ahead outside lenient => exact absurd ⟨⟨_, ahead⟩, outside, lenient, rfl⟩ hbrace
  | endOfCall _ inside =>
    obtain ⟨ms', rfl, outer⟩ := h.inCall hv inside
    exact fun w hw => (outer.follows_resume.1 hw).closeCall
  | component _ _ _ _ form => exact form.conforms h.valueModes fun _ hw => hw

theorem CloseForm.conforms (hs : CloseForm v s) (h : State.Fits c .interpolation ms) :
    s.Conforms c ms (Completes c ms) := by
  have hresume : ∀ w, Follows c (.ofMode (topMode ms.tail)) ms.tail w →
      Completes c ms (.interpolationEnd :: w) := by
    cases h with
    | interpolation outer => exact fun w hw => (outer.follows_resume.1 hw).closeInterpolation
    | selectorInterpolation outer => exact fun w hw => Completes.closeInterpolation hw
  cases hs with
  | selector => exact hresume
  | value => exact hresume

theorem InterpolationForm.conforms (hs : InterpolationForm v s) (hv : v.Shows c ms)
    (h : State.Fits c .interpolation ms) : s.Conforms c ms (Completes c ms) := by
  have hL : ∃ w, Completes c ms w := by
    cases h with
    | interpolation outer =>
      obtain ⟨w, hw⟩ := outer.exists_completes
      exact ⟨_, hw.closeInterpolation⟩
    | selectorInterpolation outer =>
      obtain ⟨w, hw⟩ := outer.exists_completes_selector c
      exact ⟨_, hw.closeInterpolation⟩
  cases hs with
  | unclosedSkipped => exact hL
  | skipped _ _ _ close => exact close.conforms h
  | unclosed => exact hL
  | close _ _ close => exact close.conforms h
  | component tokens _ _ form =>
    exact form.conforms (h.interpolationModes (hv.config ▸ tokens)) fun _ hw => hw

theorem SimpleForm.conforms {a : Char} (hs : SimpleForm a rest s)
    (hL : ∃ w, L w)
    (h : ∀ p, Derives c .part p → ∀ w, Completes c (.selector :: ms) w → L (p ++ w)) :
    s.Conforms c (.selector :: ms) L := by
  have hsimple {k : Kind} (hk : k.isSelector = true) :
      (noteSimple k <| .goto .selector).Conforms c (.selector :: ms) fun w => L (k :: w) :=
    h [k] (.simple (.inr (.inr hk)))
  cases hs with
  | group =>
    intro w hw
    obtain ⟨t, u, ht, rfl, hu⟩ := hw
    exact h _ ht u hu
  | pseudo _ form =>
    cases form with
    | nameless => exact hL
    | bare => exact hsimple rfl
    | arguments =>
      intro w hfollows
      obtain ⟨u, hw, hu⟩ := hfollows
      rcases hw with rfl | rfl
      · exact hsimple rfl _ hu
      · exact h _ .arguments u hu
  | sigil start form =>
    exact form.conforms hL fun _ => hsimple (isSelector_of_sigilKind? start)
  | universal => exact hsimple rfl
  | parent => exact hsimple rfl
  | tag => exact hsimple rfl

theorem CompoundForm.conforms {a : Char} (hs : CompoundForm v a rest s) (hv : v.compound.Plain)
    (outer : Blocks ms) :
    s.Conforms c (.selector :: ms) (Completes c (.selector :: ms)) := by
  obtain ⟨w, hw⟩ := outer.exists_completes_selector c
  cases hs with
  | interpolation => exact fun w hw => hw.openSelectorInterpolation
  | continued _ _ same => exact fun w hw => hw.simplePart (.inr (.inr (same ▸ hv.kind)))
  | simple _ _ _ form => exact form.conforms ⟨w, hw⟩ fun p hp w hw => hw.part hp
  | glued _ _ _ form =>
    exact form.conforms ⟨w, hw.simplePart (.inr (.inl rfl))⟩
      fun p hp w hw => (hw.part hp).simplePart (.inr (.inl rfl))
  | stray => exact ⟨w, hw⟩

theorem SelectorForm.conforms (hs : SelectorForm v s) (hv : v.compound.Plain) (outer : Blocks ms) :
    s.Conforms c (.selector :: ms) (Completes c (.selector :: ms)) := by
  cases hs with
  | atEnd => exact outer.exists_completes_selector c
  | combinator _ known =>
    exact fun w hw => hw.simplePart (.inr (.inl (isCombinator_of_combinator? known)))
  | block => exact fun w hw => Completes.startBlock hw
  | comma => exact fun w hw => hw.simplePart (.inl rfl)
  | descendant => exact fun w hw => hw.simplePart (.inr (.inl rfl))
  | compound _ _ _ _ _ form => exact form.conforms hv outer

theorem AttributeEndForm.conforms (hs : AttributeEndForm v rest s) (outer : Blocks ms)
    (h : ∀ w, Completes c (.selector :: ms) w → L (.attrEnd :: w)) :
    s.Conforms c (.attribute :: .selector :: ms) L := by
  cases hs with
  | closed => exact h
  | unclosed =>
    obtain ⟨w, hw⟩ := outer.exists_completes_selector c
    exact ⟨_, h w hw⟩

theorem AttributeForm.conforms (hs : AttributeForm v s) (outer : Blocks ms) :
    s.Conforms c (.attribute :: .selector :: ms)
      (Follows c .attribute (.attribute :: .selector :: ms)) := by
  obtain ⟨w, hw⟩ := outer.exists_completes_selector c
  have hname : ∀ w, Completes c (.selector :: ms) w →
      Follows c .attribute (.attribute :: .selector :: ms) (.attrName :: .attrEnd :: w) :=
    fun w hw => ⟨[.attrName, .attrEnd], w, .attributeName, rfl, hw⟩
  have htest {o k : Kind} (ho : o.isOperator = true) (hk : k = .quotedString ∨ k = .unquotedString) :
      ∀ w, Completes c (.selector :: ms) w →
        Follows c .attribute (.attribute :: .selector :: ms) (.attrName :: o :: k :: .attrEnd :: w) :=
    fun w hw => ⟨[.attrName, o, k, .attrEnd], w, .attributeTest ho hk, rfl, hw⟩
  cases hs with
  | nameless => exact ⟨_, hname w hw⟩
  | named _ _ _ _ form =>
    cases form with
    | none _ form => exact form.conforms outer hname
    | operator known _ _ form =>
      have ho := isOperator_of_mem known
      cases form with
      | quoted _ _ form =>
        have hquoted := htest ho (.inl rfl)
        exact form.conforms (L := fun u => Follows c .attribute _ (_ :: _ :: u)) ⟨_, hquoted w hw⟩
          fun _ => (attributeEnd_form v _).conforms outer hquoted
      | bare => exact (attributeEnd_form v _).conforms outer (htest ho (.inr rfl))
      | missing => exact ⟨_, htest ho (.inl rfl) w hw⟩

theorem ArgumentsForm.conforms (hs : ArgumentsForm v s) (outer : Blocks ms) :
    s.Conforms c (.pseudoArguments :: .selector :: ms)
      (Follows c .pseudoArguments (.pseudoArguments :: .selector :: ms)) := by
  cases hs with
  | unclosed =>
    obtain ⟨w, hw⟩ := outer.exists_completes_selector c
    exact ⟨w, w, .inl rfl, hw⟩
  | empty => exact fun w hw => ⟨w, .inl rfl, hw⟩
  | arguments => exact fun w hw => ⟨w, .inr rfl, hw⟩

theorem ColonForm.conforms (hs : ColonForm rest s) (outer : Blocks ms)
    (h : ∀ w, Completes c (.value :: ms) w → L (.colon :: w)) : s.Conforms c ms L := by
  cases hs with
  | colon => exact h
  | missing =>
    obtain ⟨w, hw⟩ := outer.exists_completes_value c
    exact ⟨_, h w hw⟩

theorem StatementForm.conforms (hs : StatementForm v rest s) (hv : v.Shows c ms) (outer : Blocks ms) :
    s.Conforms c ms (Completes c ms) := by
  have hL := outer.exists_completes c
  have hitem {i : List Kind} (hi : Derives c (.item (inBlock ms)) i) :
      (goto .statement).Conforms c ms fun w => Completes c ms (i ++ w) :=
    fun w hw => Completes.item hw outer hi
  cases hs with
  | finished _ bottom =>
    obtain rfl := outer.eq_nil (hv.top ▸ bottom)
    intro w hw
    obtain rfl : w = [] := hw
    exact .sheet .noItems
  | unclosed => exact hL
  | atRule =>
    intro w hw
    obtain ⟨k, u, hk, rfl, hu⟩ := hw
    exact hu.declaration (p := [k]) outer fun v hv => .atRule hk hv
  | assignment =>
    intro w hw
    obtain ⟨u, rfl, hu⟩ := hw
    exact hu.declaration (p := [.variableName, .colon]) outer fun v hv => .assignment hv
  | block => exact fun w hw => Completes.openBlock hw outer
  | close _ inside =>
    obtain ⟨ms', rfl, outer'⟩ := outer.eq_cons (hv.top ▸ inside)
    exact fun w hw => (outer'.follows_resume.1 hw).closeBlock
  | unbalanced => exact hL
  | quoted _ _ form => exact form.conforms hL fun _ => hitem .string
  | number _ _ form =>
    apply form.conforms hL
    · intro u hu
      obtain ⟨w, hw⟩ := hL
      exact ⟨w, hw.item outer (.quantityItem hu)⟩
    · exact fun u hu _ => hitem (.quantityItem hu)
  | property _ inside =>
    obtain ⟨ms', rfl, outer'⟩ := outer.eq_cons (hv.top ▸ inside)
    intro w hw
    obtain ⟨u, rfl, hu⟩ := hw
    exact hu.declaration (p := [.propertyName, .colon]) outer fun v hv => .property hv
  | selector => exact fun w hw => Completes.openSelector hw outer
  | stray => exact hL

theorem AtRuleForm.conforms (hs : AtRuleForm rest s) (outer : Blocks ms) :
    s.Conforms c ms (Follows c .atRule ms) := by
  obtain ⟨w, hw⟩ := outer.exists_completes_value c
  cases hs with
  | atEnd => exact ⟨_, .importRule, w, rfl, rfl, hw⟩
  | known _ _ known => exact fun u hu => ⟨_, u, isAtRule_of_atKeyword? known, rfl, hu⟩
  | unknown => exact ⟨_, .importRule, w, rfl, rfl, hw⟩

theorem AssignmentForm.conforms (hs : AssignmentForm rest s) (outer : Blocks ms) :
    s.Conforms c ms (Follows c .assignment ms) := by
  obtain ⟨w, hw⟩ := outer.exists_completes_value c
  cases hs with
  | atEnd => exact ⟨_, w, rfl, hw⟩
  | named _ form =>
    apply form.conforms ⟨_, w, rfl, hw⟩
    exact fun _ => (colon_form _).conforms outer fun u hu => ⟨u, rfl, hu⟩

theorem PropertyForm.conforms (hs : PropertyForm rest s) (outer : Blocks ms) :
    s.Conforms c ms (Follows c .property ms) := by
  obtain ⟨w, hw⟩ := outer.exists_completes_value c
  cases hs with
  | atEnd => exact ⟨_, w, rfl, hw⟩
  | named _ _ _ form => exact form.conforms outer fun u hu => ⟨u, rfl, hu⟩
  | stray => exact ⟨_, w, rfl, hw⟩

/-- The script of a state either conforms or ends a value at a brace. -/
theorem conforms_ofState {st : State} (hv : v.Shows c ms) (h : st.Fits c ms) :
    (ofState st v).Conforms c ms (Follows c st ms) ∨
      st = .value ∧ ∃ blank rest s, v.rest.Munch isSpace blank rest ∧ EndsAtBrace v rest s ∧
        ofState st v = .skip blank s := by
  have hs := ofState_form st v
  generalize ofState st v = s at hs ⊢
  cases hs with
  | statement _ form => cases h with | statement outer => exact .inl (form.conforms hv outer)
  | atRule form => cases h with | atRule outer => exact .inl (form.conforms outer)
  | assignment form => cases h with | assignment outer => exact .inl (form.conforms outer)
  | property form => cases h with | property outer => exact .inl (form.conforms (.cons outer))
  | selector form => cases h with | selector outer => exact .inl (form.conforms hv.compound outer)
  | group form => cases h with | group outer => exact .inl (form.conforms outer)
  | pseudoArguments form =>
    cases h with | pseudoArguments outer => exact .inl (form.conforms outer)
  | @value blank rest s munch form =>
    by_cases hbrace : EndsAtBrace v rest s
    · exact .inr ⟨rfl, blank, rest, s, munch, hbrace, rfl⟩
    · exact .inl (form.conforms hv h hbrace)
  | interpolation form => exact .inl (form.conforms hv h)
  | done => exact .inl fun w hw => hw

end Script

end StyleLex

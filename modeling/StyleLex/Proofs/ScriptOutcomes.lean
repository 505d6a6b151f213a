import StyleLex.Proofs.ReachedMachines

/-!
# Outcomes of scripts

A value is left at its end only, and a selector is left in front of its block or for an interpolation.
-/
namespace StyleLex

variable {c : Config} {st : State} {ms outer : List Mode} {v : View} {rest t u : Text} {a : Char} {k : Kind}

/-- Calls and interpolations inside of a value that is itself inside of `outer`. -/
inductive InValue (outer : List Mode) : List Mode → Prop where
  | value : InValue outer (.value :: outer)
  | call {ms : List Mode} (inner : InValue outer ms) : InValue outer (.functionArguments :: ms)
  | interpolation {ms : List Mode} (inner : InValue outer ms) : InValue outer (.interpolation :: ms)

/-- The states that go on with a value. -/
def ReadsValue (outer ms : List Mode) (st : State) : Prop :=
  InValue outer ms ∧ (st = .value ∨ st = .interpolation)

/-- The states that go on with a selector that is inside of `outer`. -/
inductive ReadsSelector (outer : List Mode) : List Mode → State → Prop where
  | selector : ReadsSelector outer (.selector :: outer) .selector
  | group : ReadsSelector outer (.attribute :: .selector :: outer) .attribute
  | arguments : ReadsSelector outer (.pseudoArguments :: .selector :: outer) .pseudoArguments

theorem InValue.resume (h : InValue outer ms) : ReadsValue outer ms (State.ofMode (topMode ms)) := by
  refine ⟨h, ?_⟩
  cases h with
  | value => exact .inl rfl
  | call => exact .inl rfl
  | interpolation => exact .inr rfl

theorem ReadsValue.inside (h : ReadsValue outer ms st) : st ≠ .statement ∧ st ≠ .done := by
  rcases h.2 with rfl | rfl <;> exact ⟨nofun, nofun⟩

theorem ReadsSelector.inside (h : ReadsSelector outer ms st) : st ≠ .statement ∧ st ≠ .done := by
  cases h <;> exact ⟨nofun, nofun⟩

/-- The text does not end in a hash, which might begin an interpolation. -/
def EndsPlain (t : Text) : Prop := t.getLast? ≠ some '#'

theorem endsPlain_append (ne : t ≠ []) (h : ∀ b ∈ t, b ≠ '#') (u : Text) : EndsPlain (u ++ t) := by
  intro hlast
  rw [List.getLast?_append, List.getLast?_eq_some_getLast ne, Option.some_or] at hlast
  exact h _ (List.getLast_mem ne) (Option.some.inj hlast)

theorem endsPlain_char (h : a ≠ '#') (u : Text) : EndsPlain (u ++ [a]) := by
  refine endsPlain_append (List.cons_ne_nil a []) (fun b hb => ?_) u
  rwa [List.mem_singleton.1 hb]

theorem ne_hash_of_isNameChar (h : isNameChar a = true) : a ≠ '#' := by
  rintro rfl
  cases h

theorem ne_hash_of_isSpace (h : isSpace a = true) : a ≠ '#' := by
  rintro rfl
  cases h

namespace Script

/-- Unless the script fails, it hands over kinds in `K` only, and `P` holds of the modes and the state
that it leads to and of `u` with the text that it moves over behind it. -/
def Ends (K : Kind → Prop) (P : List Mode → State → Text → Prop) : Script → List Mode → Text → Prop
  | .skip t s, ms, u => s.Ends K P ms (u ++ t)
  | .emit k t s, ms, u => K k ∧ s.Ends K P ms (u ++ t)
  | .enter mode s, ms, u => s.Ends K P (mode :: ms) u
  | .leave s, ms, u => s.Ends K P ms.tail u
  | .note _ s, ms, u => s.Ends K P ms u
  | .goto st, ms, u => P ms st u
  | .resume, ms, u => P ms (State.ofMode (topMode ms)) u
  | .fail _ _, _, _ => True

variable {K : Kind → Prop} {P : List Mode → State → Text → Prop} {next : Text → Script} {s : Script}

theorem SigilForm.ends (hs : SigilForm k a rest next s) (hk : K k)
    (h : ∀ name tail, name ≠ [] → (∀ b ∈ name, isNameChar b = true) →
      (next tail).Ends K P ms (u ++ a :: name)) : s.Ends K P ms u := by
  cases hs with
  | nameless => trivial
  | named munch ne => exact ⟨hk, h _ _ ne munch.inside⟩

theorem QuotedForm.ends {q : Char} (hs : QuotedForm q rest next s) (hk : K .quotedString)
    (h : ∀ tail u, (next tail).Ends K P ms u) : s.Ends K P ms u := by
  cases hs with
  | unclosed => trivial
  | closed => exact ⟨hk, h _ _⟩

theorem UnitForm.ends (hs : UnitForm rest next s) (hk : ∀ n, K (.unit n))
    (h : ∀ tail u, (next tail).Ends K P ms u) : s.Ends K P ms u := by
  cases hs with
  | percent => exact ⟨hk _, h _ _⟩
  | none => exact h _ _
  | known => exact ⟨hk _, h _ _⟩
  | unknown => trivial

theorem NumberForm.ends (hs : NumberForm rest next s) (hfloat : K .float) (hinteger : K .integer)
    (hk : ∀ n, K (.unit n)) (h : ∀ tail u, (next tail).Ends K P ms u) : s.Ends K P ms u := by
  cases hs with
  | malformed => trivial
  | float _ _ _ _ unit => exact ⟨hfloat, unit.ends hk h⟩
  | integer _ _ _ unit => exact ⟨hinteger, unit.ends hk h⟩

theorem HexColorForm.ends (hs : HexColorForm rest next s) (hk : K .hexColor)
    (h : ∀ tail u, (next tail).Ends K P ms u) : s.Ends K P ms u := by
  cases hs with
  | color => exact ⟨hk, h _ _⟩
  | malformed => trivial

theorem ConstantForm.ends {inCall : Bool} (hs : ConstantForm inCall rest next s) (hk : K .constant)
    (h : ∀ tail u, (next tail).Ends K P ms u) : s.Ends K P ms u := by
  cases hs with
  | none => trivial
  | word => exact ⟨hk, h _ _⟩

/-- The script goes on with the value and does not hand over its semicolon. -/
abbrev EndsInValue (outer : List Mode) (s : Script) (ms : List Mode) (u : Text) : Prop :=
  s.Ends (· ≠ .semicolon) (fun ms st _ => ReadsValue outer ms st) ms u

theorem ComponentForm.ends {after : State} (hs : ComponentForm v after rest s) (h : InValue outer ms)
    (hafter : after = .value ∨ after = .interpolation) : s.EndsInValue outer ms u := by
  have hnext (_ u : Text) : (goto after).EndsInValue outer ms u := ⟨h, hafter⟩
  cases hs with
  | atEnd => trivial
  | reference _ form => exact form.ends nofun fun _ tail _ _ => hnext tail _
  | interpolation => exact ⟨nofun, .interpolation h, .inr rfl⟩
  | hexColor _ _ form => exact form.ends nofun hnext
  | quoted _ _ form => exact form.ends nofun hnext
  | comma => exact ⟨nofun, h, hafter⟩
  | call => exact ⟨nofun, .call h, .inl rfl⟩
  | stray => trivial
  | number _ form => exact form.ends nofun nofun nofun hnext
  | constant _ _ _ _ form => exact form.ends nofun hnext

/-- What the script of a value comes to, in front of `rest`. -/
inductive ValueOutcome (outer ms : List Mode) (rest : Text) : Script → Prop where
  | inside {s : Script} (ends : ∀ u, s.EndsInValue outer ms u) : ValueOutcome outer ms rest s
  | semicolon (bottom : ms = .value :: outer) :
      ValueOutcome outer ms rest (.emit .semicolon [';'] <| .leave .resume)
  | brace {t : Text} (bottom : ms = .value :: outer) (ahead : rest = '}' :: t) :
      ValueOutcome outer ms rest (.leave .resume)

theorem ValueForm.outcome (hs : ValueForm v rest s) (hv : v.Shows c ms) (hfits : State.Fits c .value ms)
    (h : InValue outer ms) : ValueOutcome outer ms rest s := by
  have hbottom (hout : v.inCall = false) : ms = .value :: outer := by
    obtain ⟨ms', rfl, -⟩ := hfits.not_inCall hv hout
    cases h
    rfl
  cases hs with
  | endOfText => exact .inside fun _ => trivial
  | endInCall => exact .inside fun _ => trivial
  | braceInCall => exact .inside fun _ => trivial
  | semicolon _ outside => exact .semicolon (hbottom outside)
  | missing => exact .inside fun _ => trivial
  | lenient ahead outside => exact .brace (hbottom outside) ahead
  | endOfCall _ inside =>
    obtain ⟨ms', rfl, -⟩ := hfits.inCall hv inside
    cases h with
    | call inner => exact .inside fun _ => ⟨nofun, inner.resume⟩
  | component _ _ _ _ form => exact .inside fun _ => form.ends h (.inl rfl)

theorem InterpolationForm.ends (hs : InterpolationForm v s) (hfits : State.Fits c .interpolation ms)
    (h : InValue outer ms) : s.EndsInValue outer ms u := by
  have hclose {s : Script} {u : Text} (hs : CloseForm v s) : s.EndsInValue outer ms u := by
    cases hfits with
    | selectorInterpolation => cases h with | interpolation inner => cases inner
    | interpolation =>
      cases h with
      | interpolation inner => cases hs <;> exact ⟨nofun, inner.resume⟩
  cases hs with
  | unclosedSkipped => trivial
  | @skipped body _ _ _ _ _ close =>
    have hbehind := hclose (u := u ++ body) close
    exact hbehind
  | unclosed => trivial
  | @close blank _ _ _ _ close =>
    have hbehind := hclose (u := u ++ blank) close
    exact hbehind
  | @component blank _ _ _ _ _ _ form =>
    have hbehind := form.ends (u := u ++ blank) h (.inr rfl)
    exact hbehind

/-- The script goes on with the selector, behind a text that does not end in a hash. -/
abbrev EndsInSelector (outer : List Mode) (s : Script) (ms : List Mode) (u : Text) : Prop :=
  s.Ends (· ≠ .braceStart) (fun ms st u => ReadsSelector outer ms st ∧ EndsPlain u) ms u

theorem ends_simple (h : EndsPlain u) :
    (noteSimple k <| .goto .selector).EndsInSelector outer (.selector :: outer) u :=
  ⟨.selector, h⟩

theorem endsPlain_name {name : Text} (ha : a ≠ '#') (h : ∀ b ∈ name, isNameChar b = true) (u : Text) :
    EndsPlain (u ++ a :: name) := by
  refine endsPlain_append (List.cons_ne_nil a name) ?_ u
  intro b hb
  rcases List.mem_cons.1 hb with rfl | hb
  · exact ha
  · exact ne_hash_of_isNameChar (h b hb)

theorem SimpleForm.ends (hs : SimpleForm a rest s) :
    s.EndsInSelector outer (.selector :: outer) u := by
  cases hs with
  | group start =>
    subst start
    exact ⟨nofun, .group, endsPlain_char (by decide) u⟩
  | pseudo _ form =>
    have hname {colons t name tail : Text} (munch : t.Munch isNameChar name tail) (ne : name ≠ []) :
        EndsPlain (u ++ (colons ++ name)) := by
      rw [← List.append_assoc]
      exact endsPlain_append ne (fun b hb => ne_hash_of_isNameChar (munch.inside b hb)) _
    cases form with
    | nameless => trivial
    | bare _ munch ne => exact ⟨nofun, ends_simple (hname munch ne)⟩
    | arguments => exact ⟨nofun, .arguments, endsPlain_char (by decide) _⟩
  | @sigil k _ start form =>
    have hk := isSelector_of_sigilKind? start
    refine form.ends (fun h => ?_) fun name _ ne inside => ends_simple ?_
    · rw [h] at hk
      cases hk
    · rw [List.append_cons]
      exact endsPlain_append ne (fun b hb => ne_hash_of_isNameChar (inside b hb)) _
  | universal start =>
    subst start
    exact ⟨nofun, ends_simple (endsPlain_char (by decide) u)⟩
  | parent start munch =>
    subst start
    exact ⟨nofun, ends_simple (endsPlain_name (by decide) munch.inside u)⟩
  | tag start munch =>
    have ha := ne_hash_of_isNameChar (isNameChar_of_isNameStart start)
    exact ⟨nofun, ends_simple (endsPlain_name ha munch.inside u)⟩

/-- What the script of a selector comes to, in front of `rest`. -/
inductive SelectorOutcome (outer : List Mode) (rest : Text) : Script → Prop where
  | inside {s : Script} (ends : s.EndsInSelector outer (.selector :: outer) []) :
      SelectorOutcome outer rest s
  | block {blank t : Text} (munch : rest.Munch isSpace blank ('{' :: t)) :
      SelectorOutcome outer rest (.skip blank <| .leave <| .enter .block <|
        .emit .braceStart ['{'] <| .note .detached <| .goto .statement)
  | interpolation {blank t : Text} (munch : rest.Munch isSpace blank ('#' :: '{' :: t)) :
      SelectorOutcome outer rest (.skip blank openInterpolation)

theorem SelectorForm.outcome (hs : SelectorForm v s) (hv : v.compound.Plain) :
    SelectorOutcome outer v.rest s := by
  have hdetached {u : Text} (h : EndsPlain u) :
      (Script.note .detached <| .goto .selector).EndsInSelector outer (.selector :: outer) u :=
    ⟨.selector, h⟩
  cases hs with
  | atEnd => exact .inside trivial
  | @combinator blank t gap tail a k munch known behind =>
    have hk := isCombinator_of_combinator? known
    have ha : a ≠ '#' := by
      rintro rfl
      cases known
    refine .inside ⟨?_, hdetached ?_⟩
    · rintro rfl
      cases hk
    · rw [List.nil_append, List.append_assoc]
      refine endsPlain_append (List.cons_ne_nil a gap) (fun b hb => ?_) blank
      rcases List.mem_cons.1 hb with rfl | hb
      · exact ha
      · exact ne_hash_of_isSpace (behind.inside b hb)
  | block munch => exact .block munch
  | comma => exact .inside ⟨nofun, hdetached (endsPlain_char (by decide) _)⟩
  | descendant munch _ _ _ ne =>
    exact .inside ⟨nofun, hdetached (endsPlain_append ne
      (fun b hb => ne_hash_of_isSpace (munch.inside b hb)) [])⟩
  | @compound blank t a s munch _ _ _ _ form =>
    cases form with
    | interpolation ahead =>
      rw [ahead] at munch
      exact .interpolation munch
    | @continued k _ _ _ start same munch =>
      have hk : k.isSelector = true := same ▸ hv.kind
      refine .inside ⟨?_, ends_simple (endsPlain_name (ne_hash_of_isNameChar start) munch.inside _)⟩
      rintro rfl
      cases hk
    | simple _ _ _ form => exact .inside form.ends
    | glued _ _ _ form => exact .inside ⟨nofun, form.ends⟩
    | stray => exact .inside trivial

theorem AttributeEndForm.ends (hs : AttributeEndForm v rest s) :
    s.EndsInSelector outer (.attribute :: .selector :: outer) u := by
  cases hs with
  | closed => exact ⟨nofun, .selector, endsPlain_char (by decide) u⟩
  | unclosed => trivial

theorem AttributeForm.ends (hs : AttributeForm v s) :
    s.EndsInSelector outer (.attribute :: .selector :: outer) u := by
  have hend (r u : Text) :
      (attributeEnd v r).EndsInSelector outer (.attribute :: .selector :: outer) u :=
    (attributeEnd_form v r).ends
  cases hs with
  | nameless => trivial
  | named _ _ _ _ form =>
    refine ⟨nofun, ?_⟩
    cases form with
    | none _ form => exact form.ends
    | @operator _ _ _ _ k _ known _ _ form =>
      have hk := isOperator_of_mem known
      refine ⟨?_, ?_⟩
      · rintro rfl
        cases hk
      · cases form with
        | quoted _ _ form => exact form.ends nofun fun _ _ => hend _ _
        | bare => exact ⟨nofun, hend _ _⟩
        | missing => trivial

theorem ArgumentsForm.ends (hs : ArgumentsForm v s) :
    s.EndsInSelector outer (.pseudoArguments :: .selector :: outer) u := by
  have hclose (u : Text) :
      (closeArguments v).EndsInSelector outer (.pseudoArguments :: .selector :: outer) u :=
    ⟨.selector, endsPlain_char (by decide) u⟩
  cases hs with
  | unclosed => trivial
  | empty => exact hclose u
  | arguments => exact ⟨nofun, hclose _⟩

end Script

namespace Machine

variable {m : Machine} {s : Script}

theorem ends_perform {K : Kind → Prop} {P : List Mode → State → Text → Prop}
    (h : s.Ends K P m.openModes u) (he : (perform s m).error? = none) :
    P (perform s m).machine.openModes (perform s m).machine.state (u ++ Piece.texts s.pieces) ∧
      ∀ p ∈ Piece.spelled s.pieces, K p.1 := by
  induction s generalizing m u with
  | skip t s ih =>
    rw [Script.pieces, Piece.texts_cons, ← List.append_assoc]
    exact ih (m := m.skip t) h he
  | emit k t s ih =>
    obtain ⟨hend, hkinds⟩ := ih (m := (m.take t).2) h.2 he
    rw [Script.pieces, Piece.texts_cons, ← List.append_assoc]
    refine ⟨hend, fun p hp => ?_⟩
    rcases List.mem_cons.1 hp with rfl | hp
    · exact h.1
    · exact hkinds p hp
  | enter mode s ih => exact ih (m := m.enter mode) h he
  | leave s ih =>
    rw [Script.Ends, ← openModes_leave] at h
    exact ih (m := m.leave) h he
  | note g s ih => exact ih (m := m.note g) h he
  | goto st =>
    rw [Script.pieces, Piece.texts_nil, List.append_nil]
    exact ⟨h, List.forall_mem_nil _⟩
  | resume =>
    rw [Script.Ends, topMode_openModes] at h
    rw [Script.pieces, Piece.texts_nil, List.append_nil]
    exact ⟨h, List.forall_mem_nil _⟩
  | fail t f => cases he

theorem leave_resume (h : m.openModes = .value :: outer) (houter : Blocks outer) :
    m.leave.resume.openModes = outer ∧ m.leave.resume.state = .statement := by
  have hmodes : m.leave.openModes = outer := by rw [openModes_leave, h, List.tail_cons]
  refine ⟨hmodes, ?_⟩
  rw [resume, goto, ← topMode_openModes, hmodes]
  exact houter.resume

/-- A step of a value stays in it, or leaves it behind its semicolon or in front of a brace. -/
theorem Coherent.value_step (hm : m.Coherent) (houter : Blocks outer)
    (h : ReadsValue outer m.openModes m.state) (he : m.step.error? = none) :
    (ReadsValue outer m.step.machine.openModes m.step.machine.state ∧
        ∀ p ∈ Piece.spelled m.script.pieces, p.1 ≠ .semicolon) ∨
      m.step.machine.openModes = outer ∧ m.step.machine.state = .statement ∧
        (Piece.spelled m.script.pieces = [(.semicolon, [';'])] ∨
          ∃ t, m.step.machine.cursor.rest = '}' :: t) := by
  obtain ⟨hinside, hst | hst⟩ := h
  · have hfits := hm.fits
    rw [hst] at hfits
    obtain ⟨blank, rest, s, munch, form, hvalue⟩ := Script.value_form m.view
    have hscript : m.script = .skip blank s := by rw [script, hst, Script.ofState, hvalue]
    have hrest : (m.skip blank).cursor.rest = rest := rest_skip_of_eq munch.split
    rw [Machine.step, hscript] at he ⊢
    have houtcome := form.outcome hm.view_shows hfits hinside
    cases houtcome with
    | inside ends => exact .inl (ends_perform (u := []) (ends blank) he)
    | semicolon bottom =>
      obtain ⟨hmodes, hstate⟩ := leave_resume (m := ((m.skip blank).take [';']).2) bottom houter
      exact .inr ⟨hmodes, hstate, .inl rfl⟩
    | @brace t bottom ahead =>
      obtain ⟨hmodes, hstate⟩ := leave_resume (m := m.skip blank) bottom houter
      exact .inr ⟨hmodes, hstate, .inr ⟨t, hrest.trans ahead⟩⟩
  · have hfits := hm.fits
    rw [hst] at hfits
    have hscript : m.script = .interpolation m.view := by rw [script, hst, Script.ofState]
    have hends := (Script.interpolation_form m.view).ends (u := []) hfits hinside
    rw [← hscript] at hends
    exact .inl (ends_perform hends he)

/-- A step of a selector stays in it, or leaves it for its block or for an interpolation. -/
theorem Coherent.selector_step (hm : m.Coherent) (h : ReadsSelector outer m.openModes m.state)
    (he : m.step.error? = none) :
    (ReadsSelector outer m.step.machine.openModes m.step.machine.state ∧
        EndsPlain (Piece.texts m.script.pieces) ∧
        ∀ p ∈ Piece.spelled m.script.pieces, p.1 ≠ .braceStart) ∨
      (∃ blank t, m.cursor.rest.Munch isSpace blank ('{' :: t) ∧
        Piece.spelled m.script.pieces = [(.braceStart, ['{'])] ∧
        m.step.machine.cursor.rest = t ∧ m.step.machine.state = .statement ∧
        m.step.machine.openModes = .block :: outer ∧ m.step.machine.compound = .detached) ∨
      ∃ blank t, m.cursor.rest.Munch isSpace blank ('#' :: '{' :: t) ∧
        m.step.machine.cursor.rest = t ∧ m.step.machine.state = .interpolation := by
  have hinside (ends : m.script.EndsInSelector outer m.openModes []) :
      ReadsSelector outer m.step.machine.openModes m.step.machine.state ∧
        EndsPlain (Piece.texts m.script.pieces) ∧
        ∀ p ∈ Piece.spelled m.script.pieces, p.1 ≠ .braceStart := by
    obtain ⟨⟨hstate, hplain⟩, hkinds⟩ := ends_perform ends he
    exact ⟨hstate, hplain, hkinds⟩
  generalize hms : m.openModes = ms at h hinside
  generalize hst : m.state = st at h
  cases h with
  | selector =>
    have hscript : m.script = .selector m.view := by rw [script, hst, Script.ofState]
    have houtcome : Script.SelectorOutcome outer m.cursor.rest m.script := by
      rw [hscript]
      exact (Script.selector_form m.view).outcome hm.compound
    rw [Machine.step] at hinside ⊢
    generalize m.script = s at houtcome hinside ⊢
    cases houtcome with
    | inside ends => exact .inl (hinside ends)
    | @block blank t munch =>
      have hrest : (m.skip blank).cursor.rest = ['{'] ++ t := rest_skip_of_eq munch.split
      have hleft : (m.skip blank).leave.openModes = outer := by
        rw [openModes_leave, show (m.skip blank).openModes = _ from hms, List.tail_cons]
      exact .inr (.inl ⟨blank, t, munch, rfl, rest_take_of_eq hrest, rfl,
        congrArg (Mode.block :: ·) hleft, rfl⟩)
    | @interpolation blank t munch =>
      have hrest : (m.skip blank).cursor.rest = ['#', '{'] ++ t := rest_skip_of_eq munch.split
      exact .inr (.inr ⟨blank, t, munch, rest_take_of_eq hrest, rfl⟩)
  | group =>
    have hscript : m.script = .attributeGroup m.view := by rw [script, hst, Script.ofState]
    rw [hscript] at hinside ⊢
    exact .inl (hinside (Script.attributeGroup_form m.view).ends)
  | arguments =>
    have hscript : m.script = .pseudoArguments m.view := by rw [script, hst, Script.ofState]
    rw [hscript] at hinside ⊢
    exact .inl (hinside (Script.pseudoArguments_form m.view).ends)

end Machine

end StyleLex

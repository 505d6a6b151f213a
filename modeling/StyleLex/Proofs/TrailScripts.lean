import StyleLex.Proofs.DeclaredValues
import StyleLex.Proofs.TokenTrails

/-!
# Scripts behind a trail

Outside of selectors the tokens say nothing of a compound, whichever form a script has. In a selector,
what may follow is told by the compound, part by part.
-/
namespace StyleLex

variable {c : Config} {ms : List Mode} {v : View} {g : Compound} {rest : Text} {tr : Trail}

theorem Blocks.count_interpolation (h : Blocks ms) : ms.count .interpolation = 0 :=
  List.count_eq_zero.2 (h.not_mem nofun)

namespace Script

variable {next : Text → Script} {s : Script} {k : Kind} {a : Char} {p : Kind → Bool}

/-- The script gets to `next` over tokens that say nothing of a compound, or it fails. -/
inductive Calm (next : Text → Script) : Script → Prop where
  | next (tail : Text) : Calm next (next tail)
  | skip {t : Text} {s : Script} (behind : Calm next s) : Calm next (skip t s)
  | emit {k : Kind} {t : Text} {s : Script} (calm : k.isCalm = true) (behind : Calm next s) :
      Calm next (emit k t s)
  | fail {t : Text} {f : Fault} : Calm next (fail t f)

theorem SigilForm.calm (hs : SigilForm k a rest next s) (hk : k.isCalm = true) : Calm next s := by
  cases hs with
  | nameless => exact .fail
  | named => exact .emit hk (.next _)

theorem QuotedForm.calm {q : Char} (hs : QuotedForm q rest next s) : Calm next s := by
  cases hs with
  | unclosed => exact .fail
  | closed => exact .skip (.emit rfl (.skip (.next _)))

theorem UnitForm.calm (hs : UnitForm rest next s) : Calm next s := by
  cases hs with
  | percent => exact .emit rfl (.next _)
  | none => exact .next _
  | known => exact .emit rfl (.next _)
  | unknown => exact .fail

theorem NumberForm.calm (hs : NumberForm rest next s) : Calm next s := by
  cases hs with
  | malformed => exact .fail
  | float _ _ _ _ unit => exact .emit rfl unit.calm
  | integer _ _ _ unit => exact .emit rfl unit.calm

theorem HexColorForm.calm (hs : HexColorForm rest next s) : Calm next s := by
  cases hs with
  | color => exact .emit rfl (.next _)
  | malformed => exact .fail

theorem ConstantForm.calm {inCall : Bool} (hs : ConstantForm inCall rest next s) : Calm next s := by
  cases hs with
  | none => exact .fail
  | word => exact .emit rfl (.next _)

/-- The kinds that a state must not stand behind. Calm kinds are none of them, but glue is. -/
structure Bars (p : Kind → Bool) : Prop where
  calm : ∀ k, k.isCalm = true → p k = false
  joins : ∀ k, k.joins = true → p k = true

theorem bars_joins : Bars Kind.joins where
  calm := fun k hk => by cases k <;> first | rfl | cases hk
  joins := fun _ hk => hk

theorem bars_both : Bars fun k => k.joins || k.endsPart where
  calm := fun k hk => by cases k <;> first | rfl | cases hk
  joins := fun _ hk => by simp [hk]

theorem Bars.free_joins (h : Bars p) (hfree : tr.Free p) : tr.Free Kind.joins := by
  intro k hk
  by_contra hjoins
  have hbar := h.joins k (by simpa using hjoins)
  rw [hfree k hk] at hbar
  cases hbar

/-- A calm token may be handed over wherever there is nothing to join. -/
theorem places_emit {t : Text} (calm : k.isCalm = true) (bars : Bars p) (free : tr.Free p)
    (tells : tr.Tells ms g)
    (h : (tr.take k).Free p → (tr.take k).Tells ms g → s.Places ms g (rest.drop t.length) (tr.take k)) :
    (emit k t s).Places ms g rest tr := by
  obtain ⟨hjoins, hbegins, hdetaches, hselector, hstart, hclose⟩ := Kind.classes_of_isCalm calm
  constructor
  · exact (bars.free_joins free).allows hjoins hbegins t
  · apply h
    · exact Trail.free_take (bars.calm k calm) tr
    · exact tells.take hstart hclose hdetaches hselector

theorem Calm.places (hs : Calm next s) (bars : Bars p) (free : tr.Free p) (tells : tr.Tells ms g)
    (h : ∀ tail rest (tr : Trail), tr.Free p → tr.Tells ms g → (next tail).Places ms g rest tr) :
    s.Places ms g rest tr := by
  induction hs generalizing rest tr with
  | next tail => exact h tail rest tr free tells
  | skip _ ih => exact ih (free.pass _) (tells.pass _)
  | emit calm _ ih => exact places_emit calm bars free tells ih
  | fail => trivial

theorem places_openInterpolation (allows : tr.Allows .interpolationStart ['#', '{'])
    (tells : tr.Tells ms g) : openInterpolation.Places ms g rest tr := by
  refine ⟨allows, Trail.free_take rfl tr, ?_, ?_⟩
  · rw [Trail.kinds_take, List.count_cons_self, ← tells.depth]
    rfl
  · rw [Trail.kinds_take, Kind.lastSelector?_cons rfl rfl, tells.kind]

/-- Outside of interpolations no selector is open around a value, so there is no compound. -/
theorem kind?_of_valueModes (h : ValueModes c ms) (kept : g.Kept ms)
    (outside : ms.count .interpolation = 0) : g.kind? = none := by
  induction h with
  | value outer =>
    have hmem : Mode.selector ∉ Mode.value :: _ :=
      List.not_mem_cons_of_ne_of_not_mem nofun (outer.not_mem nofun)
    rw [kept.resolve_left hmem]
    rfl
  | call _ ih =>
    rw [List.count_cons_of_ne (by decide)] at outside
    exact ih (kept.tail nofun) outside
  | interpolation =>
    rw [List.count_cons_self] at outside
    cases outside
  | selector =>
    rw [List.count_cons_self] at outside
    cases outside

theorem place_statement (free : tr.Free fun k => k.joins || k.endsPart) (g : Compound) (rest : Text) :
    State.statement.Place g rest tr := by
  obtain ⟨hjoins, hends⟩ := Trail.free_or.1 free
  exact ⟨hjoins, .inl hends⟩

/-- Where no part ends and nothing joins, a selector may begin. -/
theorem place_selector (free : tr.Free fun k => k.joins || k.endsPart) (rest : Text) :
    State.selector.Place .detached rest tr := by
  obtain ⟨hjoins, hends⟩ := Trail.free_or.1 free
  have hparted : tr.last? ≠ some .descendantCombinator := by
    intro hlast
    cases hjoins _ hlast
  refine ⟨.detached (Trail.free_or.2 ⟨hends, fun k hk => ?_⟩) fun hlast => absurd hlast hparted,
    fun hlast => absurd hlast hparted⟩
  have hfree := hjoins k hk
  rw [Kind.joins, Bool.or_eq_false_iff] at hfree
  exact hfree.1

theorem place_of_valueModes (h : ValueModes c ms) (free : tr.Free Kind.joins) (g : Compound)
    (rest : Text) : (State.ofMode (topMode ms)).Place g rest tr := by
  cases h <;> exact free

section Values

variable (free : tr.Free Kind.joins) (tells : tr.Tells ms g)
include free tells

theorem ComponentForm.places {after : State} (hs : ComponentForm v after rest s) (modes : ValueModes c ms)
    (kept : g.Kept ms) (hafter : ∀ rest (tr : Trail), tr.Free Kind.joins → after.Place g rest tr)
    (r : Text) : s.Places ms g r tr := by
  have hnext : ∀ (_ r : Text) (tr : Trail), tr.Free Kind.joins → tr.Tells ms g →
      (goto after).Places ms g r tr := fun _ r tr free tells => ⟨hafter r tr free, tells⟩
  cases hs with
  | atEnd => trivial
  | reference _ form => exact (form.calm rfl).places bars_joins free tells hnext
  | interpolation => exact places_openInterpolation (free.allows rfl rfl _) tells
  | hexColor _ _ form => exact form.calm.places bars_joins free tells hnext
  | quoted _ _ form => exact form.calm.places bars_joins free tells hnext
  | comma =>
    refine ⟨free.allows rfl rfl _, hafter _ _ (Trail.free_take rfl tr), tells.depth, ?_⟩
    by_cases outside : ms.count .interpolation = 0
    · rw [Trail.kinds_take, Kind.lastSelector?_of_detaches rfl (tells.depth.trans outside),
        kind?_of_valueModes modes kept outside]
    · rw [Trail.kinds_take, Kind.lastSelector?, tells.depth, if_pos outside, tells.kind]
  | call =>
    exact ⟨free.allows rfl rfl _, Trail.free_take rfl tr,
      (tells.cons (by decide)).take (by decide) (by decide) rfl rfl⟩
  | stray => trivial
  | number _ form => exact form.calm.places bars_joins free tells hnext
  | constant _ _ _ _ form => exact form.calm.places bars_joins free tells hnext

theorem ColonForm.places (hs : ColonForm rest s) (r : Text) : s.Places ms g r tr := by
  cases hs with
  | colon =>
    refine places_emit rfl bars_joins (free.pass _) (tells.pass _) fun free tells => ?_
    exact ⟨free, tells.cons (by decide)⟩
  | missing => trivial

end Values

theorem ValueForm.places (hs : ValueForm v rest s) (hv : v.Shows c ms) (hfits : State.Fits c .value ms)
    (kept : g.Kept ms) (free : tr.Free Kind.joins) (tells : tr.Tells ms g) : s.Places ms g rest tr := by
  cases hs with
  | endOfText => trivial
  | endInCall => trivial
  | braceInCall => trivial
  | semicolon _ outside =>
    obtain ⟨ms', rfl, outer⟩ := hfits.not_inCall hv outside
    refine ⟨free.allows rfl rfl _, ?_, (tells.of_cons (by decide)).take (by decide) (by decide) rfl rfl⟩
    rw [List.tail_cons, outer.resume]
    exact place_statement (Trail.free_take rfl tr) _ _
  | missing => trivial
  | lenient ahead outside =>
    obtain ⟨ms', rfl, outer⟩ := hfits.not_inCall hv outside
    refine ⟨?_, tells.of_cons (by decide)⟩
    rw [List.tail_cons, outer.resume]
    exact ⟨free, .inr (by rw [ahead]; rfl)⟩
  | endOfCall _ inside =>
    obtain ⟨ms', rfl, outer⟩ := hfits.inCall hv inside
    refine places_emit rfl bars_joins free tells fun free tells => ?_
    exact ⟨place_of_valueModes outer free _ _, tells.of_cons (by decide)⟩
  | component _ _ _ _ form =>
    exact form.places free tells hfits.valueModes kept (fun _ _ free => free) _

/-- Behind an interpolation a value goes on, or the selector whose compound it stands in. -/
theorem CloseForm.places (hs : CloseForm v s) (hv : v.Shows c ms)
    (hfits : State.Fits c .interpolation ms) (free : tr.Free Kind.joins)
    (tells : tr.Tells ms v.compound) (r : Text) : s.Places ms v.compound r tr := by
  obtain ⟨ms', rfl⟩ : ∃ ms', ms = .interpolation :: ms' := by cases hfits <;> exact ⟨_, rfl⟩
  have hdepth : Kind.openInterpolations (tr.take .interpolationEnd).kinds = ms'.count .interpolation := by
    have hdepth := tells.depth
    rw [List.count_cons_self] at hdepth
    rw [Trail.kinds_take, Kind.openInterpolations, hdepth, Nat.add_sub_cancel]
  have hkind : Kind.lastSelector? (tr.take .interpolationEnd).kinds = v.compound.kind? := by
    rw [Trail.kinds_take, Kind.lastSelector?_cons rfl rfl, tells.kind]
  have houter : v.outer = topMode ms' := hv.outer
  cases hs with
  | selector outer =>
    refine ⟨free.allows rfl rfl _, ?_, hdepth, hkind⟩
    rw [List.tail_cons, ← houter, outer]
    exact ⟨.interpolation rfl rfl, nofun⟩
  | value outer =>
    refine ⟨free.allows rfl rfl _, ?_, hdepth, hkind⟩
    cases hfits with
    | interpolation modes => exact place_of_valueModes modes (Trail.free_take rfl tr) _ _
    | selectorInterpolation => exact absurd houter outer

theorem InterpolationForm.places (hs : InterpolationForm v s) (hv : v.Shows c ms)
    (hfits : State.Fits c .interpolation ms) (kept : v.compound.Kept ms) (free : tr.Free Kind.joins)
    (tells : tr.Tells ms v.compound) (r : Text) : s.Places ms v.compound r tr := by
  cases hs with
  | unclosedSkipped => trivial
  | skipped _ _ _ close => exact close.places hv hfits (free.pass _) (tells.pass _) _
  | unclosed => trivial
  | close _ _ close => exact close.places hv hfits (free.pass _) (tells.pass _) _
  | component tokens _ _ form =>
    rw [hv.config] at tokens
    exact form.places (free.pass _) (tells.pass _) (hfits.interpolationModes tokens) kept
      (fun _ _ free => free) _

theorem StatementForm.places (hs : StatementForm v rest s) (hv : v.Shows c ms) (outer : Blocks ms)
    (kept : g.Kept ms) (free : tr.Free Kind.joins)
    (ends : tr.Free Kind.endsPart ∨ rest.head? = some '}') (tells : tr.Tells ms g) :
    s.Places ms g rest tr := by
  have hdetached : g = .detached := kept.resolve_left (outer.not_mem nofun)
  have hboth {a : Char} {t : Text} (ahead : rest = a :: t) (other : a ≠ '}') :
      tr.Free fun k => k.joins || k.endsPart := by
    refine Trail.free_or.2 ⟨free, ends.resolve_right fun hhead => ?_⟩
    rw [ahead] at hhead
    exact other (Option.some.inj hhead)
  have hnext : ∀ (_ r : Text) (tr : Trail), (tr.Free fun k => k.joins || k.endsPart) →
      tr.Tells ms g → (goto .statement).Places ms g r tr :=
    fun _ r tr free tells => ⟨place_statement free g r, tells⟩
  cases hs with
  | finished => exact ⟨trivial, tells⟩
  | unclosed => trivial
  | atRule => exact ⟨free, tells⟩
  | assignment => exact ⟨free, tells⟩
  | block =>
    have hbehind : (tr.take .braceStart).Tells (.block :: ms) .detached :=
      (tells.detach rfl outer.count_interpolation).cons (by decide)
    rw [← hdetached] at hbehind
    exact ⟨free.allows rfl rfl _, place_statement (Trail.free_take rfl tr) _ _, hbehind⟩
  | close _ inside =>
    obtain ⟨ms', rfl, around⟩ := outer.eq_cons (hv.top ▸ inside)
    refine ⟨free.allows rfl rfl _, ?_, (tells.of_cons (by decide)).take (by decide) (by decide) rfl rfl⟩
    rw [List.tail_cons, around.resume]
    exact place_statement (Trail.free_take rfl tr) _ _
  | unbalanced => trivial
  | quoted ahead quote form =>
    refine form.calm.places bars_both (hboth ahead ?_) tells hnext
    rintro rfl
    cases quote
  | number ahead digit form =>
    refine form.calm.places bars_both (hboth ahead ?_) tells hnext
    rintro rfl
    cases digit
  | property => exact ⟨free, tells⟩
  | selector ahead opens =>
    have hfree := hboth ahead (by rintro rfl; cases opens)
    subst hdetached
    exact ⟨place_selector hfree _, tells.cons (by decide)⟩
  | stray => trivial

section Values

variable (free : tr.Free Kind.joins) (tells : tr.Tells ms g)
include free tells

theorem AtRuleForm.places (hs : AtRuleForm rest s) (r : Text) : s.Places ms g r tr := by
  cases hs with
  | atEnd => trivial
  | known _ _ known =>
    refine places_emit (Kind.isCalm_of_isAtRule (isAtRule_of_atKeyword? known)) bars_joins free tells
      fun free tells => ?_
    exact ⟨free, tells.cons (by decide)⟩
  | unknown => trivial

theorem AssignmentForm.places (hs : AssignmentForm rest s) (r : Text) : s.Places ms g r tr := by
  cases hs with
  | atEnd => trivial
  | named _ form =>
    exact (form.calm rfl).places bars_joins free tells
      fun _ r _ free tells => (colon_form _).places free tells r

theorem PropertyForm.places (hs : PropertyForm rest s) (r : Text) : s.Places ms g r tr := by
  cases hs with
  | atEnd => trivial
  | named _ _ _ form =>
    exact places_emit rfl bars_joins free tells fun free tells => form.places free tells _
  | stray => trivial

end Values

theorem outside_of_blocks (outer : Blocks ms) : (Mode.selector :: ms).count .interpolation = 0 := by
  rw [List.count_cons_of_ne (by decide), outer.count_interpolation]

section Selectors

variable (outer : Blocks ms) (tells : tr.Tells (.selector :: ms) g)
include outer tells

/-- Behind a simple selector, that is the last one of its compound. -/
theorem places_noteSimple (hk : k.isSelector = true) :
    (noteSimple k <| .goto .selector).Places (.selector :: ms) g rest (tr.take k) := by
  have hne (k' : Kind) (h' : k'.isSelector = false) : k ≠ k' := by
    rintro rfl
    rw [hk] at h'
    cases h'
  have hclosed : k.Closes [] := by
    cases k <;> first | rfl | exact Or.inl rfl | cases hk
  have houtside := tells.depth.trans (outside_of_blocks outer)
  have hparted : k ≠ .descendantCombinator := hne _ rfl
  refine ⟨⟨.simple rfl (.inl hk) hclosed, fun hlast => absurd (Option.some.inj hlast) hparted⟩, ?_, ?_⟩
  · rw [Trail.kinds_take, Kind.openInterpolations_cons (hne _ rfl) (hne _ rfl), tells.depth]
  · rw [Trail.kinds_take, Kind.lastSelector?_of_isSelector hk houtside]

theorem SimpleForm.places (hs : SimpleForm a rest s)
    (allows : ∀ k t, k.beginsPart = true → (k = .attrStart ↔ a = '[') → tr.Allows k t) (r : Text) :
    s.Places (.selector :: ms) g r tr := by
  have hselector {k : Kind} (hk : k.isSelector = true) (ha : a ≠ '[') (t : Text) : tr.Allows k t := by
    apply allows
    · simp [Kind.beginsPart, hk]
    · refine ⟨?_, fun h => absurd h ha⟩
      rintro rfl
      cases hk
  cases hs with
  | group start =>
    refine ⟨allows _ _ rfl ⟨fun _ => start, fun _ => rfl⟩, Trail.free_take rfl tr, ?_⟩
    exact (tells.cons (by decide)).take (by decide) (by decide) rfl rfl
  | pseudo start form =>
    have ha : a ≠ '[' := by
      rintro rfl
      cases start
    cases form with
    | nameless => trivial
    | bare => exact ⟨hselector rfl ha _, places_noteSimple outer tells rfl⟩
    | arguments =>
      have hsimple : (noteSimple .pseudoSelector <| .goto .selector).Places (.selector :: ms) g r
          (tr.take .pseudoSelector) := places_noteSimple outer tells rfl
      refine ⟨hselector rfl ha _, ⟨rfl, rfl⟩, ?_⟩
      exact (hsimple.2.pass _).cons (by decide)
  | sigil start form =>
    have hkind := isSelector_of_sigilKind? start
    have ha : a ≠ '[' := by
      rintro rfl
      cases start
    cases form with
    | nameless => trivial
    | named => exact ⟨hselector hkind ha _, places_noteSimple outer tells hkind⟩
  | universal start | parent start | tag start =>
    have ha : a ≠ '[' := by
      rintro rfl
      cases start
    exact ⟨hselector rfl ha _, places_noteSimple outer tells rfl⟩

end Selectors

theorem gluesTo_iff (g : Compound) (a : Char) : g.gluesTo a = true ↔
    g.glue ≠ .detached ∧ (g.glue = .attribute → a ≠ '[') := by
  rw [Compound.gluesTo]
  cases g.glue <;> simp

/-- The kind of a part is glued to the part in front of it, or it may stand there without glue. -/
theorem CompoundForm.places (hs : CompoundForm v a rest s) (hv : v.compound.Plain) (outer : Blocks ms)
    (meets : tr.Meets v.compound.glue) (tells : tr.Tells (.selector :: ms) v.compound) (r : Text) :
    s.Places (.selector :: ms) v.compound r tr := by
  cases hs with
  | interpolation =>
    refine places_openInterpolation ?_ tells
    exact Trail.allows_other rfl rfl meets.not_joined (fun hlast => ⟨(meets.tight hlast).2, rfl⟩) _
  | @continued kind name tail glue start same munch =>
    have hkind : kind.isSelector = true := same ▸ hv.kind
    have hbegins : kind.beginsPart = true := by simp [Kind.beginsPart, hkind]
    refine ⟨?_, places_noteSimple outer tells hkind⟩
    refine meets.allows_part hbegins fun e he _ => ?_
    rw [glue] at meets
    cases meets with
    | interpolation last closed =>
      obtain rfl : e = .interpolationEnd := Option.some.inj (he.symm.trans last)
      exact ⟨closed, .inr ⟨rfl, List.cons_ne_nil a name,
        List.forall_mem_cons.2 ⟨start, munch.inside⟩⟩⟩
  | simple _ _ glue form =>
    rw [← Bool.not_eq_true, gluesTo_iff, not_and_or, not_not, Classical.not_imp, not_not] at glue
    refine form.places outer tells (fun k t hk ha => meets.allows_part hk fun e he hends => ?_) r
    rcases glue with glue | ⟨glue, bracket⟩
    · rw [glue] at meets
      cases meets with
      | detached free =>
        have hfree := free e he
        simp [hends] at hfree
    · rw [glue] at meets
      cases meets with
      | group last closed =>
        obtain rfl : e = .attrEnd := Option.some.inj (he.symm.trans last)
        exact ⟨closed, .inl ⟨rfl, ha.2 bracket⟩⟩
  | glued _ _ glue form =>
    obtain ⟨attached, bracket⟩ := (gluesTo_iff _ _).1 glue
    refine ⟨meets.allows_joint attached rfl fun h => Kind.noConfusion h, ?_⟩
    refine form.places outer (tells.take (by decide) (by decide) rfl rfl) (fun k t hk ha => ?_) _
    refine Trail.allows_glued hk (fun hlast hstart => ?_) t
    exact bracket (meets.behind_attrEnd hlast) (ha.1 hstart)
  | stray => trivial

theorem classes_of_combinator? (h : combinator? a = some k) : k.detaches = true ∧ k.joins = false ∧
    k.beginsPart = false ∧ k.endsPart = false := by
  unfold combinator? at h
  split at h <;> cases h <;> decide

/-- The spaces in front of a part end where the part begins. -/
theorem nil_of_partAhead {blank t : Text} (h : rest.PartAhead) (munch : rest.Munch isSpace blank (a :: t)) :
    blank = [] ∧ combinator? a = none ∧ a ≠ '{' ∧ a ≠ ',' := by
  obtain ⟨b, u, rfl, hspace, hother, hbrace, hcomma⟩ := h
  obtain ⟨split, inside, -⟩ := munch
  cases blank with
  | nil =>
    obtain rfl : b = a := (List.cons.inj split).1
    exact ⟨rfl, hother, hbrace, hcomma⟩
  | cons d blank =>
    obtain rfl : b = d := (List.cons.inj split).1
    rw [inside b List.mem_cons_self] at hspace
    cases hspace

/-- Behind a sign nothing is left of the compound in front of it. -/
theorem places_detached (outer : Blocks ms) (tells : tr.Tells (.selector :: ms) g)
    (hk : k.detaches = true) (joins : k.joins = false) (ends : k.endsPart = false)
    (gap : Text) : (note .detached <| .goto .selector).Places (.selector :: ms) g rest
      ((tr.take k).pass gap) := by
  refine ⟨place_selector (Trail.Free.pass (Trail.free_take ?_ tr) gap) rest, ?_⟩
  · simp [joins, ends]
  · exact (tells.detach hk (outside_of_blocks outer)).pass gap

theorem SelectorForm.places (hs : SelectorForm v s) (hv : v.compound.Plain) (outer : Blocks ms)
    (meets : tr.Meets v.compound.glue)
    (parted : tr.last? = some .descendantCombinator → v.rest.PartAhead)
    (tells : tr.Tells (.selector :: ms) v.compound) :
    s.Places (.selector :: ms) v.compound v.rest tr := by
  -- A sign stands behind no spaces that are a combinator, since a part is ahead of these.
  have hsign {blank t : Text} {a : Char} {k : Kind} (munch : v.rest.Munch isSpace blank (a :: t))
      (other : combinator? a ≠ none ∨ a = '{' ∨ a = ',') (hjoins : k.joins = false)
      (hbegins : k.beginsPart = false) : (tr.pass blank).Allows k [a] := by
    apply Trail.allows_other hjoins hbegins
    · exact meets.not_joined
    · intro hlast
      obtain ⟨-, hnone, hbrace, hcomma⟩ := nil_of_partAhead (parted hlast) munch
      rcases other with h | h | h
      · exact absurd hnone h
      · exact absurd h hbrace
      · exact absurd h hcomma
  cases hs with
  | atEnd => trivial
  | combinator munch known =>
    obtain ⟨hdetaches, hjoins, hbegins, hends⟩ := classes_of_combinator? known
    refine ⟨hsign munch (.inl (by simp [known])) hjoins hbegins, ?_⟩
    exact places_detached outer (tells.pass _) hdetaches hjoins hends _
  | @block blank t munch =>
    refine ⟨hsign munch (.inr (.inl rfl)) rfl rfl, ?_⟩
    refine ⟨place_statement (Trail.free_take rfl _) _ _, ?_⟩
    have hbehind : ((tr.pass blank).take .braceStart).Tells ms .detached :=
      ((tells.of_cons (by decide)).pass blank).detach rfl outer.count_interpolation
    exact hbehind.cons (by decide)
  | comma munch =>
    refine ⟨hsign munch (.inr (.inr rfl)) rfl rfl, ?_⟩
    exact places_detached outer (tells.pass _) rfl rfl rfl []
  | @descendant blank t a munch other brace comma ne attached =>
    refine ⟨meets.allows_joint attached rfl fun _ => ⟨ne, munch.inside⟩, ?_⟩
    refine ⟨⟨.detached (Trail.free_take rfl tr) fun _ => rfl, fun _ => ⟨a, t, ?_⟩⟩,
      tells.detach rfl (outside_of_blocks outer)⟩
    exact ⟨by rw [munch.split, List.drop_left], munch.stop a rfl, other, brace, comma⟩
  | compound munch _ _ _ tight form =>
    have hparted (hlast : tr.last? = some .descendantCombinator) : _ = [] :=
      (nil_of_partAhead (parted hlast) munch).1
    exact form.places hv outer (meets.pass tight hparted) (tells.pass _) _

section Groups

variable (free : tr.Free Kind.joins) (tells : tr.Tells (.attribute :: .selector :: ms) v.compound)
include free tells

theorem AttributeEndForm.places (hs : AttributeEndForm v rest s) (r : Text) :
    s.Places (.attribute :: .selector :: ms) v.compound r tr := by
  cases hs with
  | closed =>
    have hbehind := (tells.of_cons (by decide)).take (k := .attrEnd) (by decide) (by decide) rfl rfl
    exact ⟨free.allows rfl rfl _, ⟨.group rfl rfl, fun hlast => by cases hlast⟩,
      hbehind.depth, hbehind.kind⟩
  | unclosed => trivial

theorem AttributeValueForm.places (hs : AttributeValueForm v rest s) (r : Text) :
    s.Places (.attribute :: .selector :: ms) v.compound r tr := by
  cases hs with
  | quoted _ _ form =>
    exact form.calm.places bars_joins free tells fun _ r _ free tells =>
      (attributeEnd_form v _).places (free.pass _) (tells.pass _) _
  | bare =>
    exact places_emit rfl bars_joins free tells fun free tells =>
      (attributeEnd_form v _).places (free.pass _) (tells.pass _) _
  | missing => trivial

theorem AttributeForm.places (hs : AttributeForm v s) (r : Text) :
    s.Places (.attribute :: .selector :: ms) v.compound r tr := by
  cases hs with
  | nameless => trivial
  | named _ _ _ _ form =>
    refine places_emit rfl bars_joins (free.pass _) (tells.pass _) fun free tells => ?_
    cases form with
    | none _ form => exact form.places (free.pass _) (tells.pass _) _
    | operator known _ _ form =>
      refine places_emit (Kind.isCalm_of_isOperator (isOperator_of_mem known)) bars_joins (free.pass _) (tells.pass _)
        fun free tells => ?_
      exact form.places (free.pass _) (tells.pass _) _

end Groups

/-- Arguments belong to the pseudo selector in front of them, with both parentheses. -/
theorem ArgumentsForm.places (hs : ArgumentsForm v s) (last : tr.last? = some .pseudoSelector)
    (opened : tr.gap = ['('])
    (tells : tr.Tells (.pseudoArguments :: .selector :: ms) v.compound) (r : Text) :
    s.Places (.pseudoArguments :: .selector :: ms) v.compound r tr := by
  have hclose (tr : Trail) (k : Kind) (r : Text) (hk : k.isSelector = true ∨ k = .langCode)
      (last : tr.last? = some k) (closed : k.Closes (tr.gap ++ [')']))
      (tells : tr.Tells (.selector :: ms) v.compound) :
      (closeArguments v).Places (.pseudoArguments :: .selector :: ms) v.compound r tr := by
    refine ⟨⟨.simple last hk closed, fun hlast => ?_⟩, tells.depth, tells.kind⟩
    obtain rfl : k = .descendantCombinator := Option.some.inj (last.symm.trans hlast)
    rcases hk with hk | hk <;> cases hk
  have hselector : tr.Tells (.selector :: ms) v.compound := tells.of_cons (by decide)
  cases hs with
  | unclosed => trivial
  | empty =>
    refine hclose tr .pseudoSelector r (.inl rfl) last ?_ hselector
    rw [opened]
    exact .inr rfl
  | arguments =>
    have hbehind := hselector.take (k := .langCode) (by decide) (by decide) rfl rfl
    refine ⟨?_, hclose _ .langCode _ (.inr rfl) rfl rfl hbehind⟩
    apply Trail.allows_other rfl rfl
    · simp [last]
    · simp [last]

theorem head?_of_munch {blank rest' : Text} (munch : rest.Munch isSpace blank rest')
    (h : rest.head? = some '}') : rest'.head? = some '}' := by
  obtain ⟨rfl, inside, -⟩ := munch
  cases blank with
  | nil => exact h
  | cons a blank =>
    obtain rfl : a = '}' := Option.some.inj h
    cases inside '}' List.mem_cons_self

/-- What a step hands over is allowed behind the trail, if its state has its place there. -/
theorem places_ofState {st : State} (hv : v.Shows c ms) (hfits : st.Fits c ms)
    (kept : v.compound.Kept ms) (place : st.Place v.compound v.rest tr)
    (tells : tr.Tells ms v.compound) : (ofState st v).Places ms v.compound v.rest tr := by
  have hs := ofState_form st v
  generalize ofState st v = s at hs ⊢
  cases hs with
  | statement munch form =>
    cases hfits with
    | statement outer =>
      obtain ⟨free, ends⟩ := place
      have hends := ends.imp_right (head?_of_munch munch)
      rw [Places, munch.split, List.drop_left]
      exact form.places hv outer kept (free.pass _) hends (tells.pass _)
  | atRule form => exact form.places place tells _
  | assignment form => exact form.places place tells _
  | property form => exact form.places place tells _
  | selector form =>
    cases hfits with
    | selector outer => exact form.places hv.compound outer place.1 place.2 tells
  | group form =>
    cases hfits with
    | group => exact form.places place tells _
  | pseudoArguments form =>
    cases hfits with
    | pseudoArguments => exact form.places place.1 place.2 tells _
  | value munch form =>
    rw [Places, munch.split, List.drop_left]
    exact form.places hv hfits kept (Trail.Free.pass place _) (tells.pass _)
  | interpolation form => exact form.places hv hfits kept place tells _
  | done => exact ⟨trivial, tells⟩

end Script

end StyleLex

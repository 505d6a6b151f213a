import StyleLex.Proofs.DeclarationShapes
import StyleLex.Proofs.ReachedMachines

/-!
# The end of a declaration is in sight

If a declaration is read without an error, then the search for the shape of a rule, which passes over
strings and interpolations in its own way, meets the end of the declaration in the text that was read.
Inside an interpolation the search stops at the first closing brace, so none may stand in a string
there.
-/
namespace StyleLex

/-- No string stands in an interpolation, if `open_` brackets are open in front of the kinds. -/
def QuotesOutside (open_ ks : List Kind) : Prop :=
  ∀ u w, ks = u ++ .quotedString :: w → ∀ st, openBrackets open_ u = some st →
    .interpolationStart ∉ st

/-- No string with a closing brace stands in an interpolation, if `open_` brackets are open in front
of the tokens. -/
def BracesOutside (open_ : List Kind) (ks : List (Kind × Text)) : Prop :=
  ∀ u t w, ks = u ++ (.quotedString, t) :: w → ∀ st, openBrackets open_ (u.map Prod.fst) = some st →
    .interpolationStart ∈ st → '}' ∉ t

variable {c : Config} {ms : List Mode} {v : View} {rest t u : Text} {a : Char} {s : Script}
  {source before : Text}

theorem quotesOutside_of_not_mem {open_ ks : List Kind} (h : .quotedString ∉ ks) :
    QuotesOutside open_ ks := by
  rintro u w rfl
  exact absurd (List.mem_append_right u List.mem_cons_self) h

theorem QuotesOutside.bracesOutside {open_ : List Kind} {ks : List (Kind × Text)}
    (h : QuotesOutside open_ (ks.map Prod.fst)) : BracesOutside open_ ks := by
  rintro u t w rfl st hst hmem
  exact absurd hmem (h (u.map Prod.fst) (w.map Prod.fst) (by simp) st hst)

theorem BracesOutside.behind {o o' : List Kind} {ks ks' : List (Kind × Text)}
    (h : BracesOutside o (ks ++ ks')) (ho : openBrackets o (ks.map Prod.fst) = some o') :
    BracesOutside o' ks' := by
  rintro u t w rfl st hst
  refine h (ks ++ u) t w (List.append_assoc _ _ _).symm st ?_
  rw [List.map_append, openBrackets_append, ho]
  exact hst

theorem mem_brackets (h : .interpolation ∈ ms) : .interpolationStart ∈ brackets ms :=
  List.mem_filterMap.2 ⟨.interpolation, h, rfl⟩

theorem BracesOutside.head {ks : List (Kind × Text)}
    (h : BracesOutside (brackets ms) ((.quotedString, t) :: ks)) (hmem : .interpolation ∈ ms) :
    '}' ∉ t :=
  h [] t ks rfl _ rfl (mem_brackets hmem)

theorem Blocks.not_mem (h : Blocks ms) {mode : Mode} (other : mode ≠ .block) : mode ∉ ms := by
  induction h with
  | nil => exact List.not_mem_nil
  | cons _ ih =>
    rw [List.mem_cons, not_or]
    exact ⟨other, ih⟩

/-- The end of the declaration is in sight, and that of the interpolation if one is open. An
interpolation that is skipped is not searched. -/
structure InSight (c : Config) (ms : List Mode) (st : State) (t : Text) : Prop where
  shape : ¬(st = .interpolation ∧ c.interpolation = .skipped) → RuleShape.Declares t
  closing : .interpolation ∈ ms → '}' ∈ t ∧ RuleShape.Declares (RuleShape.behind '}' t)

/-- Characters that are passed over one by one. -/
def isPassed (a : Char) : Bool := a ≠ '{' && a ≠ '}' && !isQuote a

theorem isPassed_of_isNameChar (h : isNameChar a = true) : isPassed a = true := by
  have hopen : a ≠ '{' := by rintro rfl; cases h
  have hclose : a ≠ '}' := by rintro rfl; cases h
  have hquote : isQuote a = false := by
    cases hq : isQuote a with
    | false => rfl
    | true =>
      simp only [isQuote, Bool.or_eq_true, decide_eq_true_eq] at hq
      rcases hq with rfl | rfl <;> cases h
  simp [isPassed, hopen, hclose, hquote]

theorem isNameChar_of_isAlphanum (h : a.isAlphanum = true) : isNameChar a = true := by
  simp [isNameChar, h]

theorem isPassed_of_isDigit (h : a.isDigit = true) : isPassed a = true :=
  isPassed_of_isNameChar (isNameChar_of_isAlphanum (by simp [Char.isAlphanum, h]))

theorem isPassed_of_isAlpha (h : a.isAlpha = true) : isPassed a = true :=
  isPassed_of_isNameChar (isNameChar_of_isAlphanum (by simp [Char.isAlphanum, h]))

theorem isPassed_of_isSpace (h : isSpace a = true) : isPassed a = true := by
  simp only [isSpace, Bool.or_eq_true, decide_eq_true_eq] at h
  rcases h with (((rfl | rfl) | rfl) | rfl) | rfl <;> rfl

theorem isPassed_of_endsWord {inCall : Bool} (h : Script.endsWord inCall a = false) :
    isPassed a = true := by
  simp only [Script.endsWord, Bool.or_eq_false_iff, decide_eq_false_iff_not] at h
  simp [isPassed, h.1.1.1.1.1.1.1, h.1.1.1.1.1.1.2, h.1.1.2]

/-- Both ends are in sight from here. -/
def Declared (ms : List Mode) (t : Text) : Prop :=
  RuleShape.Declares t ∧
    (.interpolation ∈ ms → '}' ∈ t ∧ RuleShape.Declares (RuleShape.behind '}' t))

theorem Declared.cons (h : Declared ms t) (passed : isPassed a = true) : Declared ms (a :: t) := by
  simp only [isPassed, Bool.and_eq_true, decide_eq_true_eq, Bool.not_eq_true'] at passed
  obtain ⟨⟨hopen, hclose⟩, hquote⟩ := passed
  refine ⟨h.1.cons hopen hquote, fun hmem => ?_⟩
  obtain ⟨hin, hbehind⟩ := h.2 hmem
  rw [RuleShape.behind_cons hclose]
  exact ⟨List.mem_cons_of_mem a hin, hbehind⟩

theorem Declared.append (h : Declared ms t) (passed : ∀ a ∈ u, isPassed a = true) :
    Declared ms (u ++ t) := by
  induction u with
  | nil => exact h
  | cons a u ih =>
    exact (ih fun b hb => passed b (List.mem_cons_of_mem a hb)).cons (passed a List.mem_cons_self)

theorem Declared.inSight {st : State} (h : Declared ms t) : InSight c ms st t := ⟨fun _ => h.1, h.2⟩

theorem InSight.declared {st : State} (h : InSight c ms st t)
    (searched : ¬(st = .interpolation ∧ c.interpolation = .skipped)) : Declared ms t :=
  ⟨h.shape searched, h.closing⟩

/-- What is to be shown of the states that read values. -/
def Ahead (c : Config) (ms : List Mode) (st : State) (t : Text) : Prop :=
  st = .value ∨ st = .interpolation → .selector ∉ ms → InSight c ms st t

theorem ValueModes.ahead (h : ValueModes c ms) (ahead : Ahead c ms (State.ofMode (topMode ms)) t)
    (outside : .selector ∉ ms) : Declared ms t := by
  cases h with
  | value => exact (ahead (.inl rfl) outside).declared nofun
  | call => exact (ahead (.inl rfl) outside).declared nofun
  | interpolation tokens =>
    refine (ahead (.inr rfl) outside).declared ?_
    rintro ⟨-, hskipped⟩
    rw [tokens] at hskipped
    cases hskipped
  | selector => exact absurd (List.mem_cons_of_mem _ List.mem_cons_self) outside

theorem ValueModes.tokens (h : ValueModes c ms) (hmem : .interpolation ∈ ms) :
    c.interpolation = .tokens := by
  induction h with
  | value outer =>
    rcases List.mem_cons.1 hmem with heq | hmem
    · cases heq
    · exact absurd hmem (outer.not_mem nofun)
  | call _ ih =>
    rcases List.mem_cons.1 hmem with heq | hmem
    · cases heq
    · exact ih hmem
  | interpolation tokens => exact tokens
  | selector tokens => exact tokens

namespace Script

variable {P : List Mode → State → Text → Prop} {next : Text → Script} {k : Kind}

/-- `P` holds of the modes, the state and the text that the script leaves, and it does not fail. -/
def Leaves (P : List Mode → State → Text → Prop) : Script → List Mode → Text → Prop
  | .skip t s, ms, rest | .emit _ t s, ms, rest => s.Leaves P ms (rest.drop t.length)
  | .enter mode s, ms, rest => s.Leaves P (mode :: ms) rest
  | .leave s, ms, rest => s.Leaves P ms.tail rest
  | .note _ s, ms, rest => s.Leaves P ms rest
  | .goto st, ms, rest => P ms st rest
  | .resume, ms, rest => P ms (State.ofMode (topMode ms)) rest
  | .fail _ _, _, _ => False

theorem leaves_append {kind : Kind} (h : (emit kind u s).Leaves P ms (u ++ t)) : s.Leaves P ms t := by
  rwa [Leaves, List.drop_left] at h

/-- The script passes over characters one by one and goes on with `next` behind them. -/
def Passes (P : List Mode → State → Text → Prop) (next : Text → Script) (ms : List Mode)
    (rest : Text) : Prop :=
  ∃ u tail, rest = u ++ tail ∧ (∀ b ∈ u, isPassed b = true) ∧ (next tail).Leaves P ms tail

theorem Passes.append (h : Passes P next ms t) (passed : ∀ b ∈ u, isPassed b = true) :
    Passes P next ms (u ++ t) := by
  obtain ⟨w, tail, rfl, hw, hnext⟩ := h
  refine ⟨u ++ w, tail, (List.append_assoc _ _ _).symm, ?_, hnext⟩
  intro b hb
  rcases List.mem_append.1 hb with hb | hb
  · exact passed b hb
  · exact hw b hb

theorem SigilForm.passes (hs : SigilForm k a rest next s) (passed : isPassed a = true)
    (h : s.Leaves P ms (a :: rest)) : Passes P next ms (a :: rest) := by
  cases hs with
  | nameless => exact h.elim
  | @named name tail munch _ =>
    rw [munch.split] at h ⊢
    refine ⟨a :: name, tail, rfl, ?_, leaves_append h⟩
    intro b hb
    rcases List.mem_cons.1 hb with rfl | hb
    · exact passed
    · exact isPassed_of_isNameChar (munch.inside b hb)

theorem UnitForm.passes (hs : UnitForm rest next s) (h : s.Leaves P ms rest) :
    Passes P next ms rest := by
  cases hs with
  | @percent tail ahead =>
    rw [ahead] at h ⊢
    exact ⟨['%'], tail, rfl, List.all_eq_true.1 rfl, h⟩
  | none => exact ⟨[], rest, rfl, nofun, h⟩
  | @known letters tail u munch =>
    rw [munch.split] at h ⊢
    exact ⟨letters, tail, rfl, fun b hb => isPassed_of_isAlpha (munch.inside b hb), leaves_append h⟩
  | unknown => exact h.elim

theorem Whole.passed {sgn digits tail : Text} (h : Whole rest sgn digits tail) :
    ∀ b ∈ sgn ++ digits, isPassed b = true := by
  intro b hb
  rcases List.mem_append.1 hb with hb | hb
  · rcases h.sign with rfl | rfl
    · cases hb
    · rw [List.mem_singleton.1 hb]
      rfl
  · exact isPassed_of_isDigit (h.munch.inside b hb)

theorem NumberForm.passes (hs : NumberForm rest next s) (h : s.Leaves P ms rest) :
    Passes P next ms rest := by
  cases hs with
  | malformed => exact h.elim
  | @float sgn digits t fraction behind s whole munch _ _ unit =>
    have hsplit : rest = (sgn ++ digits ++ '.' :: fraction) ++ behind := by
      rw [whole.split, munch.split]
      simp
    rw [hsplit] at h ⊢
    refine (unit.passes (leaves_append h)).append ?_
    intro b hb
    rcases List.mem_append.1 hb with hb | hb
    · exact whole.passed b hb
    · rcases List.mem_cons.1 hb with rfl | hb
      · rfl
      · exact isPassed_of_isDigit (munch.inside b hb)
  | @integer sgn digits tail s whole _ _ unit =>
    have hsplit : rest = (sgn ++ digits) ++ tail := by rw [whole.split, List.append_assoc]
    rw [hsplit] at h ⊢
    exact (unit.passes (leaves_append h)).append whole.passed

theorem HexColorForm.passes (hs : HexColorForm rest next s) (h : s.Leaves P ms ('#' :: rest)) :
    Passes P next ms ('#' :: rest) := by
  cases hs with
  | @color digits tail munch =>
    rw [munch.split] at h ⊢
    refine ⟨'#' :: digits, tail, rfl, ?_, leaves_append h⟩
    intro b hb
    rcases List.mem_cons.1 hb with rfl | hb
    · rfl
    · exact isPassed_of_isNameChar (munch.inside b hb)
  | malformed => exact h.elim

theorem ConstantForm.passes {inCall : Bool} (hs : ConstantForm inCall rest next s)
    (h : s.Leaves P ms rest) : Passes P next ms rest := by
  cases hs with
  | none => exact h.elim
  | @word w tail word _ =>
    rw [word.split] at h ⊢
    exact ⟨w, tail, rfl, fun b hb => isPassed_of_endsWord (word.inside b hb), leaves_append h⟩

theorem Passes.declared {after : State} (h : Passes (Ahead c) (fun _ => .goto after) ms rest)
    (hafter : ∀ t, Ahead c ms after t → Declared ms t) : Declared ms rest := by
  obtain ⟨u, tail, rfl, passed, hahead⟩ := h
  exact (hafter tail hahead).append passed

theorem ComponentForm.declared {after : State} (hs : ComponentForm v after rest s)
    (h : s.Leaves (Ahead c) ms rest) (outside : .selector ∉ ms)
    (hafter : ∀ t, Ahead c ms after t → Declared ms t)
    (braces : .interpolation ∈ ms →
      ∀ t ks, Piece.spelled s.pieces = (.quotedString, t) :: ks → '}' ∉ t) :
    Declared ms rest := by
  cases hs with
  | atEnd => exact h.elim
  | reference ahead form =>
    rw [ahead] at h ⊢
    exact (form.passes rfl h).declared hafter
  | @interpolation t ahead =>
    rw [ahead] at h ⊢
    have hnext : InSight c (.interpolation :: ms) .interpolation t := by
      refine h (.inr rfl) ?_
      rw [List.mem_cons, not_or]
      exact ⟨nofun, outside⟩
    obtain ⟨hmem, hbehind⟩ := hnext.closing List.mem_cons_self
    refine ⟨RuleShape.declares_interpolation hmem hbehind, fun _ => ?_⟩
    rw [RuleShape.behind_cons (by decide), RuleShape.behind_cons (by decide)]
    exact ⟨List.mem_cons_of_mem _ (List.mem_cons_of_mem _ hmem), hbehind⟩
  | hexColor ahead _ form =>
    rw [ahead] at h ⊢
    exact (form.passes h).declared hafter
  | @quoted q t s ahead quote form =>
    rw [ahead] at h ⊢
    cases form with
    | unclosed => exact h.elim
    | @closed body tail split first =>
      have hnext : Ahead c ms after tail := by
        rw [split] at h
        simpa [Leaves] using h
      obtain ⟨hshape, hclosing⟩ := hafter tail hnext
      rw [split]
      refine ⟨hshape.quoted quote first, fun hmem => ?_⟩
      have hq : q ≠ '}' := by
        rintro rfl
        cases quote
      obtain ⟨hin, hbehind⟩ := hclosing hmem
      rw [RuleShape.behind_cons hq, RuleShape.behind_append_of_not_mem (braces hmem body _ rfl),
        RuleShape.behind_cons hq]
      exact ⟨by simp [hin], hbehind⟩
  | @comma t ahead =>
    rw [ahead] at h ⊢
    exact (hafter t h).cons rfl
  | @call t ahead =>
    rw [ahead] at h ⊢
    have hnext : InSight c (.functionArguments :: ms) .value t := by
      refine h (.inl rfl) ?_
      rw [List.mem_cons, not_or]
      exact ⟨nofun, outside⟩
    have hdeclared : Declared ms t :=
      ⟨hnext.shape nofun, fun hmem => hnext.closing (List.mem_cons_of_mem _ hmem)⟩
    exact hdeclared.cons rfl
  | stray => exact h.elim
  | number _ form => exact (form.passes h).declared hafter
  | constant _ _ _ _ form => exact (form.passes h).declared hafter

theorem ValueForm.declared (hs : ValueForm v rest s) (hv : v.Shows c ms)
    (hfits : State.Fits c .value ms) (h : s.Leaves (Ahead c) ms rest) (outside : .selector ∉ ms)
    (braces : .interpolation ∈ ms →
      ∀ t ks, Piece.spelled s.pieces = (.quotedString, t) :: ks → '}' ∉ t) :
    Declared ms rest := by
  have hend {a : Char} {t : Text} (ha : a = ';' ∨ a = '}') (hout : v.inCall = false) :
      Declared ms (a :: t) := by
    obtain ⟨ms', rfl, outer⟩ := hfits.not_inCall hv hout
    refine ⟨RuleShape.declares_of_end ha t, fun hmem => ?_⟩
    rcases List.mem_cons.1 hmem with heq | hmem
    · cases heq
    · exact absurd hmem (outer.not_mem nofun)
  cases hs with
  | endOfText => exact h.elim
  | endInCall => exact h.elim
  | braceInCall => exact h.elim
  | semicolon ahead hout =>
    rw [ahead]
    exact hend (.inl rfl) hout
  | missing => exact h.elim
  | lenient ahead hout =>
    rw [ahead]
    exact hend (.inr rfl) hout
  | @endOfCall t ahead inside =>
    obtain ⟨ms', rfl, outer⟩ := hfits.inCall hv inside
    rw [ahead] at h ⊢
    rw [List.mem_cons, not_or] at outside
    obtain ⟨hshape, hclosing⟩ := outer.ahead h outside.2
    have hdeclared : Declared (.functionArguments :: ms') t := by
      refine ⟨hshape, fun hmem => ?_⟩
      rcases List.mem_cons.1 hmem with heq | hmem
      · cases heq
      · exact hclosing hmem
    exact hdeclared.cons rfl
  | component _ _ _ _ form =>
    exact form.declared h outside (fun t ht => (ht (.inl rfl) outside).declared nofun) braces

theorem CloseForm.declares (hs : CloseForm v s) (hfits : State.Fits c .interpolation ms)
    (h : s.Leaves (Ahead c) ms ('}' :: t)) (outside : .selector ∉ ms) : RuleShape.Declares t := by
  cases hfits with
  | @interpolation ms' outer =>
    rw [List.mem_cons, not_or] at outside
    have hahead : Ahead c ms' (State.ofMode (topMode ms')) t := by
      cases hs with
      | selector => exact h
      | value => exact h
    exact (outer.ahead hahead outside.2).1
  | selectorInterpolation => exact absurd (List.mem_cons_of_mem _ List.mem_cons_self) outside

theorem InterpolationForm.inSight (hs : InterpolationForm v s) (hv : v.Shows c ms)
    (hfits : State.Fits c .interpolation ms) (h : s.Leaves (Ahead c) ms v.rest)
    (outside : .selector ∉ ms)
    (braces : .interpolation ∈ ms →
      ∀ t ks, Piece.spelled s.pieces = (.quotedString, t) :: ks → '}' ∉ t) :
    InSight c ms .interpolation v.rest := by
  have hspaces {blank tail : Text} (munch : v.rest.Munch isSpace blank tail) :
      ∀ b ∈ blank, isPassed b = true := fun b hb => isPassed_of_isSpace (munch.inside b hb)
  cases hs with
  | unclosedSkipped => exact h.elim
  | @skipped body tail s skipped split first close =>
    rw [split] at h ⊢
    rw [Leaves, List.drop_left] at h
    have hbehind := close.declares hfits h outside
    rw [hv.config] at skipped
    refine ⟨fun hsearched => absurd ⟨rfl, skipped⟩ hsearched, fun _ => ⟨by simp, ?_⟩⟩
    rw [RuleShape.behind_split first]
    exact hbehind
  | unclosed => exact h.elim
  | @close blank t s _ munch close =>
    have hblank := hspaces munch
    rw [munch.split] at h ⊢
    rw [Leaves, List.drop_left] at h
    have hbehind := close.declares hfits h outside
    have hdeclared : Declared ms ('}' :: t) := by
      refine ⟨RuleShape.declares_of_end (.inr rfl) t, fun _ => ⟨List.mem_cons_self, ?_⟩⟩
      rwa [← List.nil_append ('}' :: t), RuleShape.behind_split List.not_mem_nil]
    exact (hdeclared.append hblank).inSight
  | @component blank t a s tokens munch _ form =>
    have hblank := hspaces munch
    rw [munch.split] at h ⊢
    rw [Leaves, List.drop_left] at h
    rw [hv.config] at tokens
    have hsearched : ¬(State.interpolation = .interpolation ∧ c.interpolation = .skipped) := by
      rw [tokens]
      nofun
    have hafter (t : Text) (ht : Ahead c ms .interpolation t) : Declared ms t :=
      (ht (.inr rfl) outside).declared hsearched
    exact ((form.declared h outside hafter braces).append hblank).inSight

theorem inSight_ofState {st : State} (hst : st = .value ∨ st = .interpolation) (hv : v.Shows c ms)
    (hfits : st.Fits c ms) (h : (ofState st v).Leaves (Ahead c) ms v.rest) (outside : .selector ∉ ms)
    (braces : .interpolation ∈ ms →
      ∀ t ks, Piece.spelled (ofState st v).pieces = (.quotedString, t) :: ks → '}' ∉ t) :
    InSight c ms st v.rest := by
  have hs := ofState_form st v
  generalize ofState st v = s at hs h braces
  cases hs with
  | @value blank rest s munch form =>
    have hblank : ∀ b ∈ blank, isPassed b = true := fun b hb => isPassed_of_isSpace (munch.inside b hb)
    rw [munch.split] at h ⊢
    rw [Leaves, List.drop_left] at h
    exact ((form.declared hv hfits h outside braces).append hblank).inSight
  | interpolation form => exact form.inSight hv hfits h outside braces
  | statement => simp at hst
  | atRule => simp at hst
  | assignment => simp at hst
  | property => simp at hst
  | selector => simp at hst
  | group => simp at hst
  | pseudoArguments => simp at hst
  | done => simp at hst

/-- The name of a property and the colon behind it are passed over. -/
theorem PropertyForm.passes (hs : PropertyForm rest s) (h : s.Leaves P ms rest) :
    ∃ u tail, rest = u ++ tail ∧ (∀ b ∈ u, isPassed b = true) ∧ P (.value :: ms) .value tail := by
  cases hs with
  | atEnd => exact h.elim
  | stray => exact h.elim
  | @named a t name behind s ahead start munch form =>
    cases form with
    | missing => exact h.elim
    | @colon blank tail blanks =>
      have hsplit : rest = a :: name ++ (blank ++ ':' :: tail) := by
        rw [ahead, munch.split, blanks.split, List.cons_append]
      have hname : isNameChar a = true := by
        rcases start with rfl | start
        · rfl
        · exact isNameChar_of_isNameStart start
      rw [hsplit] at h ⊢
      have hvalue := leaves_append h
      rw [Leaves, List.drop_left] at hvalue
      refine ⟨a :: name ++ (blank ++ [':']), tail, by simp, ?_, hvalue⟩
      intro b hb
      rcases List.mem_append.1 hb with hb | hb
      · rcases List.mem_cons.1 hb with rfl | hb
        · exact isPassed_of_isNameChar hname
        · exact isPassed_of_isNameChar (munch.inside b hb)
      · rcases List.mem_append.1 hb with hb | hb
        · exact isPassed_of_isSpace (blanks.inside b hb)
        · rw [List.mem_singleton.1 hb]
          rfl

theorem CloseForm.spelled_ne (hs : CloseForm v s) (t : Text) (ks : List (Kind × Text)) :
    Piece.spelled s.pieces ≠ (.quotedString, t) :: ks := by
  cases hs <;> exact nofun

/-- An interpolation that is skipped holds no string. -/
theorem spelled_ne_of_skipped {st : State} (hst : st = .value ∨ st = .interpolation)
    (hfits : st.Fits v.config ms) (hmem : .interpolation ∈ ms)
    (hskipped : v.config.interpolation = .skipped) (t : Text) (ks : List (Kind × Text)) :
    Piece.spelled (ofState st v).pieces ≠ (.quotedString, t) :: ks := by
  have hnot : ¬v.config.interpolation = .tokens := by
    rw [hskipped]
    nofun
  rcases hst with rfl | rfl
  · exact absurd (hfits.valueModes.tokens hmem) hnot
  · have hs : InterpolationForm v (ofState .interpolation v) := interpolation_form v
    generalize ofState .interpolation v = s at hs
    cases hs with
    | unclosedSkipped => exact nofun
    | skipped _ _ _ close => exact close.spelled_ne t ks
    | unclosed tokens => exact absurd tokens hnot
    | close tokens => exact absurd tokens hnot
    | component tokens => exact absurd tokens hnot

end Script

namespace Machine

variable {m : Machine}

theorem leaves_perform {P : List Mode → State → Text → Prop} {s : Script} {m : Machine}
    (he : (perform s m).error? = none)
    (h : P (perform s m).machine.openModes (perform s m).machine.state
      (perform s m).machine.cursor.rest) :
    s.Leaves P m.openModes m.cursor.rest := by
  induction s generalizing m with
  | skip t s ih => exact ih (m := m.skip t) he h
  | emit k t s ih => exact ih (m := (m.take t).2) he h
  | enter mode s ih => exact ih (m := m.enter mode) he h
  | leave s ih =>
    have hleave := ih (m := m.leave) he h
    rwa [openModes_leave] at hleave
  | note g s ih => exact ih (m := m.note g) he h
  | goto st => exact h
  | resume =>
    rw [Script.Leaves, topMode_openModes]
    exact h
  | fail t f => cases he

/-- No string is still to come in an interpolation, unless interpolations are skipped. -/
def QuotesOutside (m : Machine) : Prop :=
  m.config.interpolation = .tokens →
    StyleLex.QuotesOutside (StyleLex.brackets m.openModes) m.run.kinds

/-- No string with a closing brace is still to come in an interpolation, unless interpolations are
skipped. -/
def BracesOutside (m : Machine) : Prop :=
  m.config.interpolation = .tokens → StyleLex.BracesOutside (StyleLex.brackets m.openModes) m.spelling

theorem QuotesOutside.bracesOutside (h : m.QuotesOutside) : m.BracesOutside := by
  intro htokens
  have hkinds := h htokens
  rw [← spelling_kinds] at hkinds
  exact hkinds.bracesOutside

theorem Coherent.bracesOutside_step (hm : m.Coherent) (hs : m.Stands source before)
    (running : m.state ≠ .done) (ok : m.step.error? = none) (h : m.BracesOutside) :
    m.step.machine.BracesOutside := by
  intro htokens
  rw [show m.step.machine.config = m.config from config_perform m.script m] at htokens
  have hspelling := h htokens
  rw [(reaches_step running ok).spelling hm hs] at hspelling
  refine hspelling.behind ?_
  rw [← kinds_perform m.script m]
  exact hm.openBrackets_step

/-- A string that is the first thing handed over in an interpolation has no closing brace. -/
theorem Coherent.not_mem_of_bracesOutside (hm : m.Coherent) (hs : m.Stands source before)
    (running : m.state ≠ .done) (ok : m.step.error? = none) (hmem : .interpolation ∈ m.openModes)
    (h : StyleLex.BracesOutside (StyleLex.brackets m.openModes) m.spelling) (t : Text)
    (ks : List (Kind × Text)) (heq : Piece.spelled m.script.pieces = (.quotedString, t) :: ks) :
    '}' ∉ t := by
  rw [(reaches_step running ok).spelling hm hs, heq] at h
  exact h.head hmem

/-- While a value is read that is without an error, the end of its declaration is in sight. -/
theorem Coherent.inSight (hm : m.Coherent) (hst : m.state = .value ∨ m.state = .interpolation)
    (hs : m.Stands source before) (outside : .selector ∉ m.openModes) (hok : m.run.error? = none)
    (hbraces : m.BracesOutside) :
    InSight m.config m.openModes m.state m.cursor.rest := by
  induction m using run_induction generalizing before with
  | done m hdone => simp [hdone] at hst
  | error m hdone he =>
    rw [run_of_error he] at hok
    exact absurd hok he
  | step m hdone he ih =>
    obtain ⟨-, hok'⟩ := error?_step_of_run hok
    have hahead : Ahead m.config m.step.machine.openModes m.step.machine.state
        m.step.machine.cursor.rest := by
      intro hst' houtside'
      rw [← show m.step.machine.config = m.config from config_perform m.script m]
      exact ih (hm.step he) hst' ((reaches_step hdone he).stands hm hs) houtside' hok'
        (hm.bracesOutside_step hs hdone he hbraces)
    refine Script.inSight_ofState hst hm.view_shows hm.fits (leaves_perform he hahead) outside ?_
    intro hmem
    cases hconfig : m.config.interpolation with
    | tokens => exact hm.not_mem_of_bracesOutside hs hdone he hmem (hbraces hconfig)
    | skipped =>
      intro t ks heq
      exact absurd heq (Script.spelled_ne_of_skipped hst hm.fits hmem hconfig t ks)

/-- A property that is read without an error is found to be a declaration, whatever stands behind
the text. -/
theorem Coherent.declares (hm : m.Coherent) (hst : m.state = .property) (hs : m.Stands source before)
    (hok : m.run.error? = none) (hbraces : m.BracesOutside) :
    RuleShape.Declares m.cursor.rest := by
  have running : m.state ≠ .done := ne_of_eq_of_ne hst (by decide)
  obtain ⟨he, hok'⟩ := error?_step_of_run hok
  have houtside : .selector ∉ m.openModes := by
    have hfits := hm.fits
    rw [hst] at hfits
    generalize m.openModes = ms at hfits ⊢
    cases hfits with
    | property outer => exact (Blocks.cons outer).not_mem (by decide)
  have hvalue : m.step.machine.state = .value → .selector ∉ m.step.machine.openModes →
      RuleShape.Declares m.step.machine.cursor.rest := by
    intro hstate houtside'
    have hinSight := (hm.step he).inSight (.inl hstate) ((reaches_step running he).stands hm hs)
      houtside' hok' (hm.bracesOutside_step hs running he hbraces)
    exact hinSight.shape fun h => absurd (hstate.symm.trans h.1) (by decide)
  have hleaves := leaves_perform
    (P := fun ms st t => st = .value → Mode.selector ∉ ms → RuleShape.Declares t) he hvalue
  have hform : Script.PropertyForm m.cursor.rest m.script := by
    rw [script, hst]
    exact Script.property_form m.view
  obtain ⟨u, tail, hsplit, passed, hdeclares⟩ := hform.passes hleaves
  have hbehind : Declared [] tail := by
    refine ⟨hdeclares rfl ?_, fun h => absurd h List.not_mem_nil⟩
    rw [List.mem_cons, not_or]
    exact ⟨by decide, houtside⟩
  rw [hsplit]
  exact (hbehind.append passed).1

end Machine

end StyleLex

import StyleLex.Proofs.DetachedCompounds
import StyleLex.Proofs.Layout

/-!
# Trails of tokens

A trail is what can be told from the tokens so far: their kinds, and the text passed over behind the
last one. It tells which tokens may follow, and the compound that a selector remembers can be read off
it.
-/
namespace StyleLex

namespace Kind

/-- A part of a compound may end with the token. -/
def endsPart (k : Kind) : Bool :=
  k.isSelector || k = .langCode || k = .attrEnd || k = .interpolationEnd

/-- A part of a compound begins with the token. -/
def beginsPart (k : Kind) : Bool := k.isSelector || k = .attrStart

/-- The token stands between two parts without a sign of its own. -/
def joins (k : Kind) : Bool := k = .andCombinator || k = .descendantCombinator

/-- A compound ends in front of the token. -/
def detaches : Kind → Bool
  | .descendantCombinator | .childCombinator | .adjacentCombinator | .siblingCombinator
  | .comma | .braceStart => true
  | _ => false

/-- The token says nothing of a compound. -/
def isCalm (k : Kind) : Bool :=
  !(k.endsPart || k.beginsPart || k.joins || k.detaches || k = .interpolationStart)

/-- The text behind the token that belongs to the same part, the parentheses of a pseudo selector. -/
def Closes : Kind → Text → Prop
  | .langCode, gap => gap = [')']
  | .pseudoSelector, gap => gap = [] ∨ gap = ['(', ')']
  | _, gap => gap = []

/-- The interpolations that are open behind tokens of these kinds, the last one first. -/
def openInterpolations : List Kind → Nat
  | [] => 0
  | .interpolationStart :: ks => openInterpolations ks + 1
  | .interpolationEnd :: ks => openInterpolations ks - 1
  | _ :: ks => openInterpolations ks

/-- The last simple selector of the compound that tokens of these kinds end in, the last one first. What
stands inside an interpolation is passed over. -/
def lastSelector? : List Kind → Option Kind
  | [] => none
  | k :: ks =>
    if openInterpolations ks ≠ 0 then lastSelector? ks
    else if k.detaches then none
    else if k.isSelector then some k
    else lastSelector? ks

end Kind

/-- The kinds of the tokens so far, the last one first, and the text passed over behind them. -/
structure Trail where
  kinds : List Kind
  gap : Text

namespace Trail

def start : Trail := ⟨[], []⟩

def pass (t : Text) (tr : Trail) : Trail := { tr with gap := tr.gap ++ t }

def take (k : Kind) (tr : Trail) : Trail := ⟨k :: tr.kinds, []⟩

def follow (tr : Trail) : List Piece → Trail
  | [] => tr
  | .gap t :: ps => (tr.pass t).follow ps
  | .token k _ :: ps => (tr.take k).follow ps

def last? (tr : Trail) : Option Kind := tr.kinds.head?

/-- The last token is none of those in `p`. -/
def Free (p : Kind → Bool) (tr : Trail) : Prop := ∀ k, tr.last? = some k → p k = false

/-- A token of this kind and text may follow. -/
structure Allows (tr : Trail) (k : Kind) (t : Text) : Prop where
  /-- Glue and spaces that are a combinator stand right behind a part. -/
  joint : k.joins = true → ∃ e, tr.last? = some e ∧ e.endsPart = true ∧ e.Closes tr.gap
  spaces : k = .descendantCombinator → t ≠ [] ∧ ∀ a ∈ t, isSpace a = true
  /-- A part follows glue at once, but no bracket group if the glue stands behind one. -/
  glued : tr.last? = some .andCombinator → tr.gap = [] ∧ k.beginsPart = true ∧
    ¬(tr.kinds.tail.head? = some .attrEnd ∧ k = .attrStart)
  parted : tr.last? = some .descendantCombinator →
    tr.gap = [] ∧ (k.beginsPart = true ∨ k = .interpolationStart)
  /-- Without glue, only a bracket group follows a bracket group, and a name an interpolation. -/
  bare : ∀ e, tr.last? = some e → e.endsPart = true → k.beginsPart = true → tr.gap = [] ∧
    (e = .attrEnd ∧ k = .attrStart ∨ e = .interpolationEnd ∧ t ≠ [] ∧ ∀ a ∈ t, isNameChar a = true)

/-- Every token among the pieces is allowed behind what is in front of it. -/
def Placed (tr : Trail) : List Piece → Prop
  | [] => True
  | .gap t :: ps => (tr.pass t).Placed ps
  | .token k t :: ps => tr.Allows k t ∧ (tr.take k).Placed ps

/-- What a selector stands behind, as its compound says. -/
inductive Meets (tr : Trail) : Glue → Prop where
  | detached (free : tr.Free fun k => k.endsPart || k = .andCombinator)
      (tight : tr.last? = some .descendantCombinator → tr.gap = []) : Meets tr .detached
  | simple {k : Kind} (last : tr.last? = some k) (kind : k.isSelector = true ∨ k = .langCode)
      (closed : k.Closes tr.gap) : Meets tr .simple
  | group (last : tr.last? = some .attrEnd) (closed : tr.gap = []) : Meets tr .attribute
  | interpolation (last : tr.last? = some .interpolationEnd) (closed : tr.gap = []) :
      Meets tr .interpolation

/-- The open interpolations and the compound are told by the trail. -/
structure Tells (ms : List Mode) (g : Compound) (tr : Trail) : Prop where
  depth : Kind.openInterpolations tr.kinds = ms.count .interpolation
  kind : Kind.lastSelector? tr.kinds = g.kind?

end Trail

/-- Nothing is ahead that would stand in the place of a combinator of spaces. -/
def Text.PartAhead (rest : Text) : Prop :=
  ∃ a t, rest = a :: t ∧ isSpace a = false ∧ Script.combinator? a = none ∧ a ≠ '{' ∧ a ≠ ','

/-- What the trail is in a state. A value may end behind an interpolation, but only in front of the
brace that ends its block. -/
def State.Place : State → Compound → Text → Trail → Prop
  | .selector, g, rest, tr =>
    tr.Meets g.glue ∧ (tr.last? = some .descendantCombinator → rest.PartAhead)
  | .pseudoArguments, _, _, tr => tr.last? = some .pseudoSelector ∧ tr.gap = ['(']
  | .statement, _, rest, tr => tr.Free Kind.joins ∧ (tr.Free Kind.endsPart ∨ rest.head? = some '}')
  | .done, _, _, _ => True
  | _, _, _, tr => tr.Free Kind.joins

/-- The tokens of the script are allowed behind the trail, and the state behind it has its place. -/
def Script.Places : Script → List Mode → Compound → Text → Trail → Prop
  | .skip t s, ms, g, rest, tr => s.Places ms g (rest.drop t.length) (tr.pass t)
  | .emit k t s, ms, g, rest, tr =>
    tr.Allows k t ∧ s.Places ms g (rest.drop t.length) (tr.take k)
  | .enter mode s, ms, g, rest, tr => s.Places (mode :: ms) g rest tr
  | .leave s, ms, g, rest, tr => s.Places ms.tail g rest tr
  | .note g s, ms, _, rest, tr => s.Places ms g rest tr
  | .goto st, ms, g, rest, tr => st.Place g rest tr ∧ tr.Tells ms g
  | .resume, ms, g, rest, tr => (State.ofMode (topMode ms)).Place g rest tr ∧ tr.Tells ms g
  | .fail _ _, _, _, _, _ => True

namespace Kind

variable {k : Kind} {ks : List Kind}

theorem classes_of_isCalm (h : k.isCalm = true) : k.joins = false ∧ k.beginsPart = false ∧
    k.detaches = false ∧ k.isSelector = false ∧ k ≠ .interpolationStart ∧ k ≠ .interpolationEnd := by
  simp only [isCalm, endsPart, beginsPart, Bool.not_eq_true', Bool.or_eq_false_iff,
    decide_eq_false_iff_not] at h
  obtain ⟨⟨⟨⟨⟨⟨⟨hselector, -⟩, -⟩, hclose⟩, -, hgroup⟩, hjoins⟩, hdetaches⟩, hstart⟩ := h
  refine ⟨hjoins, ?_, hdetaches, hselector, hstart, hclose⟩
  simp [beginsPart, hselector, hgroup]

theorem ne_close_of_isCalm (h : k.isCalm = true) : k ≠ .interpolationEnd := by
  rintro rfl
  cases h

theorem joins_of_beginsPart (h : k.beginsPart = true) : k.joins = false := by
  cases k <;> first | rfl | cases h

theorem isCalm_of_isAtRule (h : k.isAtRule = true) : k.isCalm = true := by
  cases k <;> first | rfl | cases h

theorem isCalm_of_isOperator (h : k.isOperator = true) : k.isCalm = true := by
  cases k <;> first | rfl | cases h

theorem openInterpolations_cons (start : k ≠ .interpolationStart) (close : k ≠ .interpolationEnd)
    (ks : List Kind) : openInterpolations (k :: ks) = openInterpolations ks := by
  cases k <;> first | rfl | exact absurd rfl start | exact absurd rfl close

theorem lastSelector?_cons (detached : k.detaches = false) (other : k.isSelector = false)
    (ks : List Kind) : lastSelector? (k :: ks) = lastSelector? ks := by
  simp [lastSelector?, detached, other]

theorem lastSelector?_of_detaches (h : k.detaches = true) (outside : openInterpolations ks = 0) :
    lastSelector? (k :: ks) = none := by
  simp [lastSelector?, h, outside]

theorem lastSelector?_of_isSelector (h : k.isSelector = true) (outside : openInterpolations ks = 0) :
    lastSelector? (k :: ks) = some k := by
  have hdetached : k.detaches = false := by
    cases k <;> first | rfl | cases h
  simp [lastSelector?, h, hdetached, outside]

end Kind

namespace Trail

variable {tr : Trail} {p : Kind → Bool} {k : Kind} {t : Text} {ms : List Mode} {g : Compound}
  {mode : Mode}

@[simp] theorem gap_pass (t : Text) (tr : Trail) : (tr.pass t).gap = tr.gap ++ t := rfl

@[simp] theorem kinds_take (k : Kind) (tr : Trail) : (tr.take k).kinds = k :: tr.kinds := rfl

theorem free_start (p : Kind → Bool) : start.Free p := nofun

theorem free_take (h : p k = false) (tr : Trail) : (tr.take k).Free p := by
  rintro k' ⟨⟩
  exact h

theorem Free.pass (h : tr.Free p) (t : Text) : (tr.pass t).Free p := h

theorem free_or {q : Kind → Bool} : (tr.Free fun k => p k || q k) ↔ tr.Free p ∧ tr.Free q := by
  simp only [Free, Bool.or_eq_false_iff, imp_and, forall_and]

/-- A token that is no part of a compound and no joint. -/
theorem allows_other (hjoins : k.joins = false) (hbegins : k.beginsPart = false)
    (unglued : tr.last? ≠ some .andCombinator)
    (parted : tr.last? = some .descendantCombinator → tr.gap = [] ∧ k = .interpolationStart)
    (t : Text) : tr.Allows k t := by
  constructor
  case joint => simp [hjoins]
  case spaces =>
    rintro rfl
    cases hjoins
  case glued => exact fun hlast => absurd hlast unglued
  case parted => exact fun hlast => ⟨(parted hlast).1, .inr (parted hlast).2⟩
  case bare => simp [hbegins]

/-- A token that has nothing to do with compounds is allowed wherever nothing is left to join. -/
theorem Free.allows (h : tr.Free Kind.joins) (hjoins : k.joins = false)
    (hbegins : k.beginsPart = false) (t : Text) : tr.Allows k t := by
  have hne (e : Kind) (he : e.joins = true) : tr.last? ≠ some e := by
    intro hlast
    rw [h e hlast] at he
    cases he
  exact allows_other hjoins hbegins (hne _ rfl) (fun hlast => absurd hlast (hne _ rfl)) t

/-- Where something is to be glued to, a part ends. -/
theorem Meets.ends {glue : Glue} (h : tr.Meets glue) (attached : glue ≠ .detached) :
    ∃ e, tr.last? = some e ∧ e.endsPart = true ∧ e.Closes tr.gap := by
  cases h with
  | detached => exact absurd rfl attached
  | simple last kind closed =>
    refine ⟨_, last, ?_, closed⟩
    rcases kind with hk | rfl
    · simp [Kind.endsPart, hk]
    · rfl
  | group last closed => exact ⟨_, last, rfl, closed⟩
  | interpolation last closed => exact ⟨_, last, rfl, closed⟩

theorem Meets.not_joined {glue : Glue} (h : tr.Meets glue) : tr.last? ≠ some .andCombinator := by
  intro hlast
  by_cases hglue : glue = .detached
  · subst hglue
    cases h with
    | detached free => cases free _ hlast
  · obtain ⟨e, he, hends, -⟩ := h.ends hglue
    rw [hlast] at he
    cases he
    cases hends

theorem Meets.tight {glue : Glue} (h : tr.Meets glue)
    (hlast : tr.last? = some .descendantCombinator) : glue = .detached ∧ tr.gap = [] := by
  by_cases hglue : glue = .detached
  · subst hglue
    cases h with
    | detached _ tight => exact ⟨rfl, tight hlast⟩
  · obtain ⟨e, he, hends, -⟩ := h.ends hglue
    rw [hlast] at he
    cases he
    cases hends

/-- Spaces are passed over where nothing is left of a compound, but not behind other spaces. -/
theorem Meets.pass {glue : Glue} (h : tr.Meets glue) (loose : t = [] ∨ glue = .detached)
    (parted : tr.last? = some .descendantCombinator → t = []) : (tr.pass t).Meets glue := by
  rcases loose with rfl | rfl
  · rwa [pass, List.append_nil]
  · cases h with
    | detached free tight =>
      refine .detached (free.pass t) fun hlast => ?_
      rw [gap_pass, tight hlast, parted hlast]
      rfl

/-- Behind a bracket group the compound says so. -/
theorem Meets.behind_attrEnd {glue : Glue} (h : tr.Meets glue) (hlast : tr.last? = some .attrEnd) :
    glue = .attribute := by
  cases h with
  | detached free => cases free _ hlast
  | simple last kind =>
    rw [Option.some.inj (last.symm.trans hlast)] at kind
    rcases kind with kind | kind <;> cases kind
  | group => rfl
  | interpolation last => cases last.symm.trans hlast

/-- Behind an interpolation the compound says so, and nothing has been passed over. -/
theorem Meets.behind_interpolationEnd {glue : Glue} (h : tr.Meets glue)
    (hlast : tr.last? = some .interpolationEnd) : glue = .interpolation ∧ tr.gap = [] := by
  cases h with
  | detached free => cases free _ hlast
  | simple last kind =>
    rw [Option.some.inj (last.symm.trans hlast)] at kind
    rcases kind with kind | kind <;> cases kind
  | group last => cases last.symm.trans hlast
  | interpolation _ closed => exact ⟨rfl, closed⟩

/-- A part of a compound without glue in front. -/
theorem Meets.allows_part {glue : Glue} (h : tr.Meets glue) (hk : k.beginsPart = true)
    (bare : ∀ e, tr.last? = some e → e.endsPart = true → tr.gap = [] ∧ (e = .attrEnd ∧ k = .attrStart ∨
      e = .interpolationEnd ∧ t ≠ [] ∧ ∀ a ∈ t, isNameChar a = true)) : tr.Allows k t := by
  constructor
  case joint => simp [Kind.joins_of_beginsPart hk]
  case spaces =>
    rintro rfl
    cases hk
  case glued => exact fun hlast => absurd hlast h.not_joined
  case parted => exact fun hlast => ⟨(h.tight hlast).2, .inl hk⟩
  case bare => exact fun e he hends _ => bare e he hends

/-- Glue or spaces behind a part. -/
theorem Meets.allows_joint {glue : Glue} (h : tr.Meets glue) (attached : glue ≠ .detached)
    (hk : k.joins = true)
    (spaces : k = .descendantCombinator → t ≠ [] ∧ ∀ a ∈ t, isSpace a = true) : tr.Allows k t := by
  constructor
  case joint => exact fun _ => h.ends attached
  case spaces => exact spaces
  case glued => exact fun hlast => absurd hlast h.not_joined
  case parted => exact fun hlast => absurd (h.tight hlast).1 attached
  case bare =>
    intro e _ _ hbegins
    rw [Kind.joins_of_beginsPart hbegins] at hk
    cases hk

/-- The part behind the glue. -/
theorem allows_glued (hk : k.beginsPart = true)
    (group : tr.last? = some .attrEnd → k ≠ .attrStart) (t : Text) :
    (tr.take .andCombinator).Allows k t := by
  constructor
  case joint => simp [Kind.joins_of_beginsPart hk]
  case spaces =>
    rintro rfl
    cases hk
  case glued => exact fun _ => ⟨rfl, hk, fun h => group h.1 h.2⟩
  case parted => exact nofun
  case bare =>
    rintro e ⟨⟩ hends
    cases hends

theorem Tells.pass (h : tr.Tells ms g) (t : Text) : (tr.pass t).Tells ms g := ⟨h.depth, h.kind⟩

theorem Tells.of_cons (h : tr.Tells (mode :: ms) g) (other : mode ≠ .interpolation) : tr.Tells ms g := by
  refine ⟨?_, h.kind⟩
  rw [h.depth, List.count_cons_of_ne other]

theorem Tells.cons (h : tr.Tells ms g) (other : mode ≠ .interpolation) : tr.Tells (mode :: ms) g := by
  refine ⟨?_, h.kind⟩
  rw [h.depth, List.count_cons_of_ne other]

/-- A token that is no bracket of an interpolation, no simple selector and does not detach. -/
theorem Tells.take (h : tr.Tells ms g) (start : k ≠ .interpolationStart) (close : k ≠ .interpolationEnd)
    (detached : k.detaches = false) (other : k.isSelector = false) : (tr.take k).Tells ms g := by
  constructor
  · rw [kinds_take, Kind.openInterpolations_cons start close, h.depth]
  · rw [kinds_take, Kind.lastSelector?_cons detached other, h.kind]

/-- In front of a token that detaches, the compound ends. -/
theorem Tells.detach (h : tr.Tells ms g) (hk : k.detaches = true)
    (outside : ms.count .interpolation = 0) : (tr.take k).Tells ms .detached := by
  have hne (k' : Kind) (h' : k'.detaches = false) : k ≠ k' := by
    rintro rfl
    rw [hk] at h'
    cases h'
  constructor
  · rw [kinds_take, Kind.openInterpolations_cons (hne _ rfl) (hne _ rfl), h.depth]
  · rw [kinds_take, Kind.lastSelector?_of_detaches hk (h.depth.trans outside)]
    rfl

end Trail

end StyleLex

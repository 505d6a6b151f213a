import StyleLex.Proofs.PlainRuns
import StyleLex.Proofs.WrittenSelectors

/-!
# Written selectors are tokenized

What is expected of the text behind a part of a selector is expected of the part and that text, with the
tokens of the part in front. So a selector is followed from its end to its beginning.
-/
namespace StyleLex

open Script

variable {c : Config} {ms : List Mode} {g : Compound} {t y : Text} {ks : List (Kind × Text)} {a : Char}

namespace Script

variable {k : Kind}

theorem upToClosing_plain (h : a ≠ '(' ∧ a ≠ ')') (depth : Nat) (t : Text) :
    upToClosing depth (a :: t) = (upToClosing depth t).map (a :: ·) := by
  rw [upToClosing.eq_def]
  dsimp only
  rw [if_neg h.2, if_neg h.1]

/-- Parentheses that are balanced are passed over in the search for the closing one. -/
theorem upToClosing_balanced (h : t.Balanced) (depth : Nat) (y : Text) :
    upToClosing depth (t ++ y) = (upToClosing depth y).map (t ++ ·) := by
  induction h generalizing depth y with
  | nil => simp
  | char plain _ ih =>
    rw [List.cons_append, upToClosing_plain plain, ih, Option.map_map]
    rfl
  | @group t u _ _ ihInside ihBehind =>
    have hopen : upToClosing depth ('(' :: (t ++ ')' :: (u ++ y))) =
        (upToClosing (depth + 1) (t ++ ')' :: (u ++ y))).map ('(' :: ·) := rfl
    have hclose : upToClosing (depth + 1) (')' :: (u ++ y)) =
        (upToClosing depth (u ++ y)).map (')' :: ·) := rfl
    have hsplit : ('(' :: (t ++ ')' :: u)) ++ y = '(' :: (t ++ ')' :: (u ++ y)) := by simp
    rw [hsplit, hopen, ihInside, hclose, ihBehind]
    simp [Function.comp_def]

theorem expects_glue {s : Script} {o : Outlook} (needed : Bool) (h : s.Expects c o ks) :
    (glue needed s).Expects c o (Written.glued needed ++ ks) := by
  cases needed with
  | false => exact h
  | true => exact h.emit (t := [])

/-- Where a simple selector begins, the spaces in front of it are a combinator or are passed over. -/
theorem selectorBehind_of_opensSimple (opens : opensSimple a = true) (v : View) (blank t : Text) :
    selectorBehind v blank a t = if blank ≠ [] ∧ v.compound.glue ≠ .detached then
      .emit .descendantCombinator blank <| .note .detached <| .goto .selector
    else .skip blank <| compoundPart v a t := by
  have hother : combinator? a = none := by
    unfold combinator?
    split <;> first | rfl | cases opens
  have hbrace : a ≠ '{' := by
    rintro rfl
    cases opens
  have hcomma : a ≠ ',' := by
    rintro rfl
    cases opens
  rw [selectorBehind, hother]
  dsimp only
  rw [if_neg hbrace, if_neg hcomma]

theorem compoundPart_of_opensSimple {v : View} (opens : opensSimple a = true)
    (plain : interpolationAhead (a :: t) = false) (fresh : v.compound.glue ≠ .interpolation) :
    compoundPart v a t = glue (v.compound.gluesTo a) (simpleSelector a t) := by
  rw [compoundPart, plain, if_neg (by simp), if_neg fun h => fresh h.1, if_pos opens]

theorem simpleSelector_of_sigilKind? (h : sigilKind? a = some k) (t : Text) :
    simpleSelector a t = sigil k a t fun _ => noteSimple k <| .goto .selector := by
  unfold sigilKind? at h
  split at h <;> cases h <;> rfl

theorem simpleSelector_of_isNameStart (h : isNameStart a = true) (t : Text) :
    simpleSelector a t = (.emit .tagSelector (a :: t.takeWhile isNameChar) <|
      noteSimple .tagSelector <| .goto .selector) := by
  have hne (b : Char) (hb : isNameStart b = false) : a ≠ b := by
    rintro rfl
    rw [hb] at h
    cases h
  rw [simpleSelector, if_neg (hne '[' rfl), if_neg (hne ':' rfl), if_neg (hne '.' rfl),
    if_neg (hne '#' rfl), if_neg (hne '*' rfl), if_neg (hne '&' rfl)]

end Script

theorem stops_of_opensSimple (h : opensSimple a = true) (t : Text) : Text.Stops isSpace (a :: t) := by
  have hopens : opensSelector a = true := by simp [opensSelector, h]
  exact Text.stops_cons (plain_of_opensSelector hopens).1 t

/-- A simple selector may stand behind spaces where there is nothing to glue it to. -/
theorem State.expects_simple (x : Spaces) (opens : opensSimple a = true)
    (plain : interpolationAhead (a :: t) = false) (fresh : g.glue ≠ .interpolation)
    (tight : x.text = [] ∨ g.glue = .detached)
    (h : (simpleSelector a t).Expects c ⟨.selector :: ms, g, a :: t⟩ ks) :
    State.selector.Expects c ⟨.selector :: ms, g, x.text ++ a :: t⟩
      (Written.glued (g.gluesTo a) ++ ks) := by
  have htight : ¬(x.text ≠ [] ∧ g.glue ≠ .detached) := by
    rcases tight with h | h <;> simp [h]
  apply State.expects_of_script (by decide)
  rw [ofState, selector_of_munch (x.munch (stops_of_opensSimple opens t)),
    selectorBehind_of_opensSimple opens, Outlook.view_compound, if_neg htight, compoundPart_of_opensSimple opens plain fresh]
  exact (expects_glue _ h).skip

/-- Where nothing stands in front, spaces are passed over and no glue is handed over. -/
theorem State.expects_first (x : Spaces) (hg : g.glue = .detached) (opens : opensSimple a = true)
    (plain : interpolationAhead (a :: t) = false)
    (h : (simpleSelector a t).Expects c ⟨.selector :: ms, g, a :: t⟩ ks) :
    State.selector.Expects c ⟨.selector :: ms, g, x.text ++ a :: t⟩ ks := by
  have hfresh : g.glue ≠ .interpolation := by simp [hg]
  have hloose : g.gluesTo a = false := by simp [Compound.gluesTo, hg]
  have hexpects := State.expects_simple x opens plain hfresh (.inr hg) h
  rwa [hloose] at hexpects

namespace Written

/-- The characters that the name of a selector goes on with, or that open its arguments. -/
def goesOn (a : Char) : Bool := isNameChar a || a = '('

theorem stops_isNameChar (h : y.Stops goesOn) : y.Stops isNameChar := by
  intro a ha
  have hgoes := h a ha
  simp only [goesOn, Bool.or_eq_false_iff] at hgoes
  exact hgoes.1

theorem head?_ne_of_stops (h : y.Stops goesOn) : y.head? ≠ some '(' := by
  intro ha
  cases h _ ha

theorem goesOn_of_isSpace (h : isSpace a = true) : goesOn a = false := by
  have hparen : a ≠ '(' := by
    rintro rfl
    cases h
  simp [goesOn, not_isNameChar_of_isSpace h, hparen]

theorem Operand.stops_isSpace (x : Operand) (t : Text) : Text.Stops isSpace (x.print ++ t) := by
  cases x with
  | quoted string => exact Text.stops_cons (not_isSpace_of_isQuote string.isQuote_quote) _
  | bare text => exact text.stops (apart_symm fun _ => not_isUnquotedChar_of_isSpace) t

theorem Operator.mem_attributeOperators (x : Operator) : (x.print, x.kind) ∈ attributeOperators := by
  cases x <;> decide

/-- A name and spaces end in front of what follows the name of an attribute. -/
theorem stops_comparison {p : Char → Bool} (h : ∀ a ∈ [']', '=', '~', '|', '^', '$', '*'], p a = false)
    (x? : Option Comparison) (t : Text) :
    Text.Stops p (x?.elim [] Comparison.print ++ ']' :: t) := by
  cases x? with
  | none => exact Text.stops_cons (h _ (by decide)) _
  | some x =>
    rw [Option.elim_some, Comparison.print]
    cases x.operator <;> exact Text.stops_cons (h _ (by decide)) _

section Groups

variable {v : View} (behind : State.selector.Expects c ⟨ms, { v.compound with glue := .attribute }, y⟩ ks)
include behind

theorem expects_attributeEnd : (attributeEnd v (']' :: y)).Expects c ⟨.attribute :: ms, g, ']' :: y⟩
    ((.attrEnd, [']']) :: ks) := by
  apply Script.Expects.emit (t := [']'])
  exact .leave (.note (.goto behind))

theorem Operand.expects (x : Operand) (gap : Spaces) :
    (attributeValue v (x.print ++ (gap.text ++ ']' :: y))).Expects c
      ⟨.attribute :: ms, g, x.print ++ (gap.text ++ ']' :: y)⟩
      (x.spelled ++ (.attrEnd, [']']) :: ks) := by
  have hend : (skipSpaces (gap.text ++ ']' :: y) (attributeEnd v)).Expects c
      ⟨.attribute :: ms, g, gap.text ++ ']' :: y⟩ ((.attrEnd, [']']) :: ks) :=
    expects_skipSpaces gap (Text.stops_cons rfl y) (expects_attributeEnd behind)
  cases x with
  | quoted string =>
    have hvalue : attributeValue v (string.print ++ (gap.text ++ ']' :: y)) =
        Script.quoted string.quote (string.body ++ string.quote :: (gap.text ++ ']' :: y))
          fun r => skipSpaces r <| attributeEnd v := by
      simp [attributeValue, QuotedText.print, string.isQuote_quote]
    rw [Operand.print, hvalue]
    exact expects_quoted string hend
  | bare text =>
    have hstop : Text.Stops isUnquotedChar (gap.text ++ ']' :: y) :=
      gap.stops (fun _ => not_isUnquotedChar_of_isSpace) (Text.stops_cons rfl y)
    have hmunch := text.munch hstop
    obtain ⟨a, t, htext, ha⟩ := text.exists_cons
    have hquote : isQuote a = false := by
      simp only [isUnquotedChar, Bool.not_eq_true', Bool.or_eq_false_iff] at ha
      exact ha.1.1.2
    have hvalue : attributeValue v (text.text ++ (gap.text ++ ']' :: y)) =
        .emit .unquotedString text.text (skipSpaces (gap.text ++ ']' :: y) (attributeEnd v)) := by
      unfold attributeValue
      dsimp only
      rw [hmunch.takeWhile_eq.1, hmunch.takeWhile_eq.2, if_neg text.ne, htext]
      simp [hquote]
    rw [Operand.print, hvalue]
    exact hend.emit

theorem expects_attributeTest (x? : Option Comparison) :
    (attributeTest v (x?.elim [] Comparison.print ++ ']' :: y)).Expects c
      ⟨.attribute :: ms, g, x?.elim [] Comparison.print ++ ']' :: y⟩
      (x?.elim [] Comparison.spelled ++ (.attrEnd, [']']) :: ks) := by
  cases x? with
  | none => exact expects_attributeEnd behind
  | some x =>
    have hprint : x.print ++ ']' :: y =
        x.operator.print ++ (x.gap.text ++ (x.operand.print ++ (x.behind.text ++ ']' :: y))) := by
      simp [Comparison.print]
    rw [Option.elim_some, Option.elim_some, hprint, attributeTest_of_mem x.operator.mem_attributeOperators]
    apply Script.Expects.emit
    apply expects_skipSpaces x.gap
    · exact x.operand.stops_isSpace _
    · exact x.operand.expects behind x.behind

end Groups

theorem expects_attribute (gap : Spaces) (name : Name) (blank : Spaces) (x? : Option Comparison)
    (behind : State.selector.Expects c ⟨ms, { g with glue := .attribute }, y⟩ ks) :
    State.attribute.Expects c
      ⟨.attribute :: ms, g,
        gap.text ++ (name.text ++ (blank.text ++ (x?.elim [] Comparison.print ++ ']' :: y)))⟩
      ((.attrName, name.text) :: (x?.elim [] Comparison.spelled ++ (.attrEnd, [']']) :: ks)) := by
  have hname : Text.Stops isNameChar (blank.text ++ (x?.elim [] Comparison.print ++ ']' :: y)) :=
    blank.stops (fun _ => not_isNameChar_of_isSpace)
      (stops_comparison (List.all_iff_forall_prop.1 rfl) x? y)
  have hspace : Text.Stops isSpace
      (name.text ++ (blank.text ++ (x?.elim [] Comparison.print ++ ']' :: y))) :=
    name.stops (apart_symm fun _ => not_isNameChar_of_isSpace) _
  apply State.expects_of_script (by decide)
  rw [ofState, attributeGroup]
  apply expects_skipSpaces gap hspace
  dsimp only
  rw [(name.munch hname).takeWhile_eq.1, (name.munch hname).takeWhile_eq.2, if_neg name.ne]
  apply Script.Expects.emit
  apply expects_skipSpaces blank (stops_comparison (List.all_iff_forall_prop.1 rfl) x? y)
  exact expects_attributeTest behind x?

/-- The parentheses behind a pseudo selector are read up to the closing one. -/
theorem Arguments.expects (x : Arguments)
    (behind : State.selector.Expects c ⟨.selector :: ms, { g with glue := .simple }, y⟩ ks) :
    State.pseudoArguments.Expects c ⟨.pseudoArguments :: .selector :: ms, g, x.text ++ ')' :: y⟩
      (x.spelled ++ ks) := by
  have hfound : upToClosing 0 (x.text ++ ')' :: y) = some x.text := by
    rw [upToClosing_balanced x.balanced]
    simp [upToClosing]
  have hclose (v : View) (hv : v.compound = g) : (closeArguments v).Expects c
      ⟨.pseudoArguments :: .selector :: ms, g, ')' :: y⟩ ks := by
    subst hv
    apply Script.Expects.skip (t := [')'])
    exact .leave (.note (.resume behind))
  apply State.expects_of_script (by decide)
  rw [ofState, pseudoArguments, Outlook.view, hfound, Arguments.spelled]
  cases htext : x.text with
  | nil => exact hclose _ rfl
  | cons a t =>
    apply Script.Expects.emit
    exact hclose _ rfl

/-- What the next part is glued to. -/
def glueBehind (behindAttribute : Bool) : Glue := if behindAttribute then .attribute else .simple

theorem glueBehind_ne (behindAttribute : Bool) :
    glueBehind behindAttribute ≠ .detached ∧ glueBehind behindAttribute ≠ .interpolation := by
  cases behindAttribute <;> decide

namespace Part

theorem opensSimple_sigil (p : Part) : opensSimple p.sigil = true := by
  cases p <;> rfl

theorem goesOn_sigil (p : Part) : goesOn p.sigil = false := by
  cases p <;> rfl

theorem not_interpolationAhead (p : Part) (y : Text) :
    interpolationAhead (p.sigil :: (p.behind ++ y)) = false := by
  rw [← Bool.not_eq_true, interpolationAhead_cons]
  rintro ⟨hash, brace⟩
  cases p with
  | byId name =>
    obtain ⟨a, t, htext, ha⟩ := name.exists_cons
    rw [Part.behind, htext] at brace
    obtain rfl : a = '{' := Option.some.inj brace
    cases ha
  | byClass | pseudo | «attribute» => cases hash

theorem gluesTo_sigil (p : Part) {behindAttribute : Bool} (hg : g.glue = glueBehind behindAttribute) :
    g.gluesTo p.sigil = !(behindAttribute && p.isAttribute) := by
  rw [Compound.gluesTo, hg]
  cases behindAttribute <;> cases p <;> rfl

theorem pseudo_colon (element : Bool) (stop : t.head? ≠ some ':') :
    Script.pseudo (colon element ++ t) = pseudoName (':' :: colon element) t := by
  cases element with
  | false => exact pseudo_of_colons ⟨rfl, .inl rfl, fun _ => stop⟩
  | true => rfl

theorem expects_pseudo (element : Bool) (name : Name) (x? : Option Arguments) (stop : y.Stops goesOn)
    (behind : ∀ g' : Compound, g'.glue = .simple →
      State.selector.Expects c ⟨.selector :: ms, g', y⟩ ks) :
    (Script.pseudo (colon element ++ (name.text ++ (x?.elim [] Arguments.print ++ y)))).Expects c
      ⟨.selector :: ms, g, ':' :: (colon element ++ (name.text ++ (x?.elim [] Arguments.print ++ y)))⟩
      ((.pseudoSelector, ':' :: (colon element ++ name.text)) ::
        (x?.elim [] Arguments.spelled ++ ks)) := by
  have hcolon : (name.text ++ (x?.elim [] Arguments.print ++ y)).head? ≠ some ':' := by
    intro hhead
    obtain ⟨a, t, htext, ha⟩ := name.exists_cons
    rw [htext] at hhead
    obtain rfl : a = ':' := Option.some.inj hhead
    cases ha
  have hname : Text.Stops isNameChar (x?.elim [] Arguments.print ++ y) := by
    cases x? with
    | none => exact stops_isNameChar stop
    | some x => exact Text.stops_cons rfl _
  have hsplit : ':' :: (colon element ++ (name.text ++ (x?.elim [] Arguments.print ++ y))) =
      (':' :: colon element ++ name.text) ++ (x?.elim [] Arguments.print ++ y) := by simp
  rw [pseudo_colon element hcolon, pseudoName_of_munch (name.munch hname) name.ne, hsplit]
  apply Script.Expects.emit
  apply Script.Expects.note
  cases x? with
  | none =>
    rw [Option.elim_none, List.nil_append, if_neg (head?_ne_of_stops stop)]
    exact .goto (behind _ rfl)
  | some x =>
    have hprint : x.print ++ y = '(' :: (x.text ++ ')' :: y) := by simp [Arguments.print]
    rw [Option.elim_some, Option.elim_some, hprint, List.head?_cons, if_pos rfl]
    apply Script.Expects.enter
    apply Script.Expects.skip (t := ['('])
    exact .goto (x.expects (behind _ rfl))

theorem expects (p : Part) (stop : y.Stops goesOn)
    (behind : ∀ g' : Compound, g'.glue = glueBehind p.isAttribute →
      State.selector.Expects c ⟨.selector :: ms, g', y⟩ ks) :
    (simpleSelector p.sigil (p.behind ++ y)).Expects c
      ⟨.selector :: ms, g, p.sigil :: (p.behind ++ y)⟩ (p.spelled ++ ks) := by
  cases p with
  | byClass name | byId name =>
    rw [Part.sigil, Part.behind, simpleSelector_of_sigilKind? rfl]
    apply expects_sigil name (stops_isNameChar stop)
    exact .note (.goto (behind _ rfl))
  | pseudo element name x? =>
    rw [Part.behind, List.append_assoc, List.append_assoc]
    exact expects_pseudo element name x? stop behind
  | «attribute» gap name blank x? =>
    have hprint : (Part.attribute gap name blank x?).behind ++ y =
        gap.text ++ (name.text ++ (blank.text ++ (x?.elim [] Comparison.print ++ ']' :: y))) := by
      simp [Part.behind]
    have hspelled : (Part.attribute gap name blank x?).spelled ++ ks = (.attrStart, ['[']) ::
        (.attrName, name.text) :: (x?.elim [] Comparison.spelled ++ (.attrEnd, [']']) :: ks) := by
      simp [Part.spelled]
    rw [hprint, hspelled]
    apply Script.Expects.enter
    apply Script.Expects.emit (t := ['['])
    exact .goto (expects_attribute gap name blank x? (behind _ rfl))

end Part

theorem stops_printParts (parts : List Part) (h : y.Stops goesOn) :
    Text.Stops goesOn (printParts parts ++ y) := by
  cases parts with
  | nil => exact h
  | cons p parts => exact Text.stops_cons p.goesOn_sigil _

theorem expects_parts (parts : List Part) {b : Bool} (hg : g.glue = glueBehind b)
    (stop : y.Stops goesOn) (behind : ∀ (b : Bool) (g' : Compound), g'.glue = glueBehind b →
      State.selector.Expects c ⟨.selector :: ms, g', y⟩ ks) :
    State.selector.Expects c ⟨.selector :: ms, g, printParts parts ++ y⟩
      (spelledParts b parts ++ ks) := by
  induction parts generalizing g b with
  | nil => exact behind b g hg
  | cons p parts ih =>
    have hfresh : g.glue ≠ .interpolation := by
      rw [hg]
      exact (glueBehind_ne _).2
    have hprint : printParts (p :: parts) ++ y =
        [] ++ p.sigil :: (p.behind ++ (printParts parts ++ y)) := by
      simp [printParts, Part.print]
    rw [hprint, spelledParts, ← p.gluesTo_sigil hg, List.append_assoc, List.append_assoc]
    apply State.expects_simple (.nil _) p.opensSimple_sigil (p.not_interpolationAhead _) hfresh
      (.inl rfl)
    apply p.expects (stops_printParts parts stop)
    intro g' hg'
    exact ih hg'

theorem Head.expects (h : Head) (stop : y.Stops isNameChar)
    (behind : ∀ g' : Compound, g'.glue = .simple →
      State.selector.Expects c ⟨.selector :: ms, g', y⟩ ks) :
    (simpleSelector h.sigil (h.behind ++ y)).Expects c
      ⟨.selector :: ms, g, h.sigil :: (h.behind ++ y)⟩ (h.spelled ++ ks) := by
  have hnext (k : Kind) : (noteSimple k (.goto .selector)).Expects c ⟨.selector :: ms, g, y⟩ ks :=
    .note (.goto (behind _ rfl))
  cases h with
  | tag start begins more =>
    rw [Head.sigil, Head.behind, simpleSelector_of_isNameStart begins, (more.munch stop).takeWhile_eq.1]
    exact (hnext _).emit
  | universal => exact (hnext _).emit (t := ['*'])
  | parent suffix =>
    have hscript : simpleSelector '&' (suffix.text ++ y) =
        .emit .parentSelector ('&' :: (suffix.text ++ y).takeWhile isNameChar)
          (noteSimple .parentSelector <| .goto .selector) := rfl
    rw [Head.sigil, Head.behind, hscript, (suffix.munch stop).takeWhile_eq.1]
    exact (hnext _).emit

theorem Head.opensSimple_sigil (h : Head) : opensSimple h.sigil = true := by
  cases h with
  | tag start begins more => simp [Head.sigil, opensSimple, begins]
  | universal | parent => rfl

theorem Head.not_interpolationAhead (h : Head) (t : Text) :
    interpolationAhead (h.sigil :: t) = false := by
  rw [← Bool.not_eq_true, interpolationAhead_cons]
  rintro ⟨hash, -⟩
  cases h with
  | tag start begins more =>
    obtain rfl : start = '#' := hash
    cases begins
  | universal | parent => cases hash

theorem Chain.opensSimple_sigil (x : Chain) : opensSimple x.sigil = true := by
  cases x with
  | headed head => exact head.opensSimple_sigil
  | headless first => exact first.opensSimple_sigil

/-- Nothing is glued to a compound in front of it. -/
theorem Chain.expects (x : Chain) (gap : Spaces) (hg : g.glue = .detached) (stop : y.Stops goesOn)
    (behind : ∀ (b : Bool) (g' : Compound), g'.glue = glueBehind b →
      State.selector.Expects c ⟨.selector :: ms, g', y⟩ ks) :
    State.selector.Expects c ⟨.selector :: ms, g, gap.text ++ (x.print ++ y)⟩ (x.spelled ++ ks) := by
  cases x with
  | headed head parts =>
    have hprint : (Chain.headed head parts).print ++ y =
        head.sigil :: (head.behind ++ (printParts parts ++ y)) := by
      simp [Chain.print, Chain.sigil, Chain.behind]
    rw [hprint, Chain.spelled, List.append_assoc]
    apply State.expects_first gap hg head.opensSimple_sigil (head.not_interpolationAhead _)
    apply head.expects (stops_isNameChar (stops_printParts parts stop))
    intro g' hg'
    exact expects_parts parts (b := false) hg' stop behind
  | headless first parts =>
    have hprint : (Chain.headless first parts).print ++ y =
        first.sigil :: (first.behind ++ (printParts parts ++ y)) := by
      simp [Chain.print, Chain.sigil, Chain.behind]
    rw [hprint, Chain.spelled, List.append_assoc]
    apply State.expects_first gap hg first.opensSimple_sigil (first.not_interpolationAhead _)
    apply first.expects (stops_printParts parts stop)
    intro g' hg'
    exact expects_parts parts hg' stop behind

theorem Joint.stops (j : Joint) (t : Text) : Text.Stops goesOn (j.print ++ t) := by
  cases j with
  | descendant spaces => exact spaces.stops (fun _ => goesOn_of_isSpace) t
  | signed gap sign blank =>
    rw [Joint.print, List.append_assoc]
    apply gap.stops fun _ => goesOn_of_isSpace
    cases sign <;> exact Text.stops_cons rfl _

/-- Behind a joint nothing is left to glue to, and spaces are passed over. -/
theorem Joint.expects (j : Joint) {b : Bool} (hg : g.glue = glueBehind b) (opens : opensSimple a = true)
    (behind : ∀ (gap : Spaces) (g' : Compound), g'.glue = .detached →
      State.selector.Expects c ⟨.selector :: ms, g', gap.text ++ a :: t⟩ ks) :
    State.selector.Expects c ⟨.selector :: ms, g, j.print ++ a :: t⟩ (j.spelled ++ ks) := by
  apply State.expects_of_script (by decide)
  cases j with
  | descendant spaces =>
    have hglue : spaces.text ≠ [] ∧ g.glue ≠ .detached := by
      rw [hg]
      exact ⟨spaces.ne, (glueBehind_ne b).1⟩
    rw [ofState, selector_of_munch (spaces.munch (stops_of_opensSimple opens t)),
      selectorBehind_of_opensSimple opens, Outlook.view_compound, if_pos hglue]
    apply Script.Expects.emit
    exact .note (.goto (behind (.nil _) _ rfl))
  | signed gap sign blank =>
    have hprint : (Joint.signed gap sign blank).print ++ a :: t =
        gap.text ++ sign.char :: (blank.text ++ a :: t) := by simp [Joint.print]
    have hsign : Text.Stops isSpace (sign.char :: (blank.text ++ a :: t)) := by
      cases sign <;> exact Text.stops_cons rfl _
    rw [hprint, ofState, selector_of_munch (gap.munch hsign)]
    cases sign with
    | comma =>
      apply Script.Expects.skip
      apply Script.Expects.emit (t := [','])
      exact .note (.goto (behind blank _ rfl))
    | child | adjacent | sibling =>
      apply Script.Expects.skip
      apply Script.Expects.emit (t := [_])
      apply expects_skipSpaces blank (stops_of_opensSimple opens t)
      exact .note (.goto (behind (.nil _) _ rfl))

theorem stops_more (more : List (Joint × Chain)) (h : y.Stops goesOn) :
    Text.Stops goesOn (more.flatMap (fun x => x.1.print ++ x.2.print) ++ y) := by
  cases more with
  | nil => exact h
  | cons x more =>
    rw [List.flatMap_cons, List.append_assoc, List.append_assoc]
    exact x.1.stops _

/-- The compounds of a selector behind its first one. -/
theorem expects_more (more : List (Joint × Chain)) {b : Bool} (hg : g.glue = glueBehind b)
    (stop : y.Stops goesOn) (behind : ∀ (b : Bool) (g' : Compound), g'.glue = glueBehind b →
      State.selector.Expects c ⟨.selector :: ms, g', y⟩ ks) :
    State.selector.Expects c
      ⟨.selector :: ms, g, more.flatMap (fun x => x.1.print ++ x.2.print) ++ y⟩
      (more.flatMap (fun x => x.1.spelled ++ x.2.spelled) ++ ks) := by
  induction more generalizing g b with
  | nil => exact behind b g hg
  | cons x more ih =>
    obtain ⟨joint, chain⟩ := x
    rw [List.flatMap_cons, List.flatMap_cons, List.append_assoc, List.append_assoc, List.append_assoc,
      List.append_assoc]
    apply joint.expects hg chain.opensSimple_sigil
    intro gap g' hg'
    apply chain.expects gap hg' (stops_more more stop)
    intro b g' hg'
    exact ih hg'

theorem Selector.expects (s : Selector) (hg : g.glue = .detached) (stop : y.Stops goesOn)
    (behind : ∀ (b : Bool) (g' : Compound), g'.glue = glueBehind b →
      State.selector.Expects c ⟨.selector :: ms, g', y⟩ ks) :
    State.selector.Expects c ⟨.selector :: ms, g, s.print ++ y⟩ (s.spelled ++ ks) := by
  rw [Selector.print, Selector.spelled, List.append_assoc, List.append_assoc]
  apply s.first.expects (.nil _) hg (stops_more s.more stop)
  intro b g' hg'
  exact expects_more s.more hg' stop behind

/-- The text of an empty block, and of the space in front of it. -/
theorem expects_block (g : Compound) :
    State.selector.Expects c ⟨[.selector], g, [' ', '{', '}']⟩
      [(.braceStart, ['{']), (.braceEnd, ['}'])] := by
  have hdone : State.statement.Expects c ⟨[], .detached, []⟩ [] :=
    State.expects_of_script (by decide) (.skip (t := []) (.goto (State.expects_done c _)))
  have hblock : State.statement.Expects c ⟨[.block], .detached, ['}']⟩ [(.braceEnd, ['}'])] :=
    State.expects_of_script (by decide) (.skip (t := []) (.emit (t := ['}']) (.leave (.resume hdone))))
  apply State.expects_of_script (by decide)
  apply Script.Expects.skip (t := [' '])
  apply Script.Expects.leave
  apply Script.Expects.enter
  apply Script.Expects.emit (t := ['{'])
  exact .note (.goto hblock)

/-- In front of a selector the top level goes on in the selector. -/
theorem expects_statement (opens : opensSimple a = true)
    (behind : State.selector.Expects c ⟨[.selector], .detached, a :: t⟩ ks) :
    State.statement.Expects c ⟨[], g, a :: t⟩ ks := by
  have hopens : opensSelector a = true := by simp [opensSelector, opens]
  obtain ⟨hspace, hquote, hdigit⟩ := plain_of_opensSelector hopens
  have htop : ¬((Outlook.view c ⟨[], g, a :: t⟩).top = .block ∧
      RuleShape.ofText (a :: t) = .declaration) := by
    rintro ⟨htop, -⟩
    cases htop
  have hscript : statement (Outlook.view c ⟨[], g, a :: t⟩) =
      .skip [] (.enter .selector <| .note .detached <| .goto .selector) := by
    rw [statement_of_plain rfl hspace (ne_sigil_of_opensSelector hopens) hquote hdigit,
      if_neg htop, if_pos hopens]
  apply State.expects_of_script (by decide)
  rw [ofState, hscript]
  apply Script.Expects.skip (t := [])
  exact .enter (.note (.goto behind))

end Written

/-- Every selector in front of an empty block is tokenized, and to the tokens expected of it. -/
theorem tokenize_selector (c : Config) (s : Written.Selector) :
    ∃ ts, tokenize c (s.print ++ [' ', '{', '}']) = .ok ts ∧
      ts.map (fun t => (t.kind, t.text)) =
        s.spelled ++ [(.braceStart, ['{']), (.braceEnd, ['}'])] := by
  apply tokenize_of_expects
  apply Written.expects_statement s.first.opensSimple_sigil
  apply s.expects rfl (Text.stops_cons rfl _)
  intro b g' hg'
  exact Written.expects_block g'

end StyleLex

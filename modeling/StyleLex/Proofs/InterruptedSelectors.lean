import StyleLex.Proofs.ClosedInterpolations
import StyleLex.Proofs.LoosePlaces
import StyleLex.Proofs.SpacedStates

/-!
# Selectors that an interpolation interrupts

A name right behind an interpolation goes on with the simple selector in front of it. Which one that is
can be told from the tokens: the last one of the compound, whatever stands in its interpolations.
-/
namespace StyleLex

variable {c : Config} {source before rest : Text} {a : Char} {front behind : List Token} {t : Token}

namespace Script

/-- A name behind an interpolation has the kind of the selector that it goes on with. -/
theorem selector_of_interrupted {v : View} (hglue : v.compound.glue = .interpolation)
    (hrest : v.rest = a :: rest) (ha : isNameChar a = true) :
    selector v = .skip [] (.emit (v.compound.kind?.getD .tagSelector)
      ((a :: rest).takeWhile isNameChar) <|
        noteSimple (v.compound.kind?.getD .tagSelector) <| .goto .selector) := by
  have hne (b : Char) (hb : isNameChar b = false) : a ≠ b := by
    rintro rfl
    rw [ha] at hb
    cases hb
  have hspace : isSpace a = false := by
    by_contra h
    rw [not_isNameChar_of_isSpace (by simpa using h)] at ha
    cases ha
  have hother : combinator? a = none := by
    unfold combinator?
    split <;> first | rfl | cases ha
  have hplain : interpolationAhead (a :: rest) = false := by
    unfold interpolationAhead
    split
    case h_1 h => exact absurd (List.cons.inj h).1 (hne '#' rfl)
    case h_2 => rfl
  have hmunch : v.rest.Munch isSpace [] (a :: rest) := by
    refine ⟨hrest, nofun, fun b hb => ?_⟩
    rwa [← Option.some.inj hb]
  rw [selector_of_munch hmunch, selectorBehind, hother]
  dsimp only
  rw [if_neg (hne '{' rfl), if_neg (hne ',' rfl), if_neg (by simp), compoundPart, hplain,
    if_neg (by simp), if_pos ⟨hglue, ha⟩, List.takeWhile_cons_of_pos ha]

end Script

namespace Machine

variable {m : Machine}

/-- The machine of a run that has handed over the tokens `ts` and nothing else. -/
def Behind (c : Config) (source : Text) (ts : List Token) (m : Machine) : Prop :=
  ∃ ps, (start c source).Reaches ps m ∧ Piece.tokens [] ps = ts

/-- In a selector behind an interpolation, the compound says so, and nothing has been passed over. -/
theorem Behind.interrupted (h : Behind c source (front ++ [t]) m) (hk : t.kind = .interpolationEnd)
    (hst : m.state = .selector) : m.compound.glue = .interpolation ∧
      m.compound.kind? = Kind.lastSelector? (front.map Token.kind).reverse ∧
      ∃ before, m.Stands source before ∧ before.byteSize = t.stop := by
  obtain ⟨ps, hreach, hps⟩ := h
  have hm := coherent_start c source
  have hstands := hreach.stands hm (stands_start c source)
  have htraces := Trail.traces_start.follow ps
  rw [List.nil_append, hps] at htraces
  obtain ⟨-, hplace, htells⟩ := hreach.trailed hm (trailed_start c source)
  rw [hst] at hplace
  have hlast : (Trail.start.follow ps).last? = some .interpolationEnd := by
    rw [htraces.last?, List.getLast?_concat, Option.map_some, hk]
  have hkind := htells.kind
  rw [htraces.kinds, List.map_append, List.reverse_append] at hkind
  obtain ⟨hglue, hgap⟩ := hplace.1.behind_interpolationEnd hlast
  obtain ⟨head, hsplit, hstop⟩ := htraces.gap
  rw [hgap, List.append_nil] at hsplit
  refine ⟨hglue, ?_, _, hstands, ?_⟩
  · rw [← hkind, List.map_singleton, hk]
    exact Kind.lastSelector?_cons rfl rfl _
  · rw [hsplit]
    exact hstop t List.getLast?_concat

theorem Behind.tokens_run (h : Behind c source (front ++ [t]) m)
    (hrun : (start c source).run.tokens = front ++ t :: behind) : behind = m.run.tokens := by
  obtain ⟨ps, hreach, hps⟩ := h
  rw [hreach.tokens_run (coherent_start c source) (stands_start c source), hps,
    List.append_assoc] at hrun
  exact (List.cons.inj (List.append_cancel_left hrun)).2.symm

theorem Behind.coherent {ts : List Token} (h : Behind c source ts m) : m.Coherent := by
  obtain ⟨ps, hreach, -⟩ := h
  exact hreach.coherent (coherent_start c source)

/-- The first token of a selector that goes on behind an interpolation. -/
theorem head?_run_of_interrupted (hm : m.Coherent) (hs : m.Stands source before)
    (hst : m.state = .selector) (hglue : m.compound.glue = .interpolation)
    (hrest : m.cursor.rest = a :: rest) (ha : isNameChar a = true) :
    m.run.tokens.head? = some (.make (m.compound.kind?.getD .tagSelector)
      ((a :: rest).takeWhile isNameChar) before.byteSize (1 + before.newlines)) := by
  have hscript : m.script = Script.selector m.view := by
    rw [script, hst]
    rfl
  have hrunning : m.state ≠ .done := by
    rw [hst]
    decide
  have htokens := hm.tokens_step hs hrunning
  rw [hscript, Script.selector_of_interrupted hglue hrest ha] at htokens
  rw [tokens_run_eq, htokens, Script.pieces, Piece.tokens, List.append_nil]
  rfl

end Machine

/-- A run gets to a machine right behind each end of an interpolation. If that machine reads a selector
and a name character stands there, then the longest name there is the next token, and it has the kind of
the last simple selector in front of the interpolation that belongs to the same compound, or that of a
tag if there is none. -/
theorem interrupted_selector (c : Config)
    (h : (Machine.start c source).run.tokens = front ++ t :: behind)
    (hk : t.kind = .interpolationEnd) :
    (∃ m, Machine.Behind c source (front ++ [t]) m) ∧
      ∀ m, Machine.Behind c source (front ++ [t]) m → m.state = .selector →
        ∀ (before : Text) a rest, source = before ++ a :: rest → before.byteSize = t.stop →
          isNameChar a = true → ∃ u, behind.head? = some u ∧ u.offset = t.stop ∧
            u.text = (a :: rest).takeWhile isNameChar ∧
            u.kind = (Kind.lastSelector? (front.map Token.kind).reverse).getD .tagSelector := by
  constructor
  · obtain ⟨ps, m, hreach, hps⟩ := Machine.exists_reaches_of_interpolationEnd
      (Machine.coherent_start c source) (Machine.stands_start c source) h hk
    exact ⟨m, ps, hreach, hps⟩
  · intro m hm hst before a rest hsource hsize ha
    obtain ⟨hglue, hkind, before', hstands, hstop⟩ := hm.interrupted hk hst
    have hsplit : before' ++ m.cursor.rest = before ++ a :: rest := hstands.split.symm.trans hsource
    obtain rfl : before' = before := Text.append_of_byteSize_eq hsplit (hstop.trans hsize.symm)
    have hrest : m.cursor.rest = a :: rest := List.append_cancel_left hsplit
    have hhead := Machine.head?_run_of_interrupted hm.coherent hstands hst hglue hrest ha
    rw [hm.tokens_run h, hhead, hkind]
    exact ⟨_, rfl, hsize, rfl, rfl⟩

/-- The name behind the interpolation goes on with the class in front of it. -/
theorem interrupted_selector_class :
    ∃ u : Token, (Machine.start .standard ".a#{b}c{}".toList).run.tokens[4]? = some u ∧
      u.text = ['c'] ∧ u.kind = .classSelector := by
  let m := Machine.start .standard ".a#{b}c{}".toList
  let front := [Token.make .classSelector ['.', 'a'] 0 1, .make .interpolationStart ['#', '{'] 2 1,
    .make .constant ['b'] 4 1]
  let close := Token.make .interpolationEnd ['}'] 5 1
  let behind := [Token.make .classSelector ['c'] 6 1, .make .braceStart ['{'] 7 1,
    .make .braceEnd ['}'] 8 1]
  have hrun : m.run.tokens = front ++ close :: behind := by decide +kernel
  have hreach : m.Reaches _ m.step.machine.step.machine.step.machine.step.machine.step.machine :=
    .step (by decide +kernel) (by decide +kernel) <| .step (by decide +kernel) (by decide +kernel) <|
      .step (by decide +kernel) (by decide +kernel) <| .step (by decide +kernel) (by decide +kernel) <|
        Machine.reaches_step (by decide +kernel) (by decide +kernel)
  have hbehind : Machine.Behind .standard ".a#{b}c{}".toList (front ++ [close]) _ :=
    ⟨_, hreach, by decide +kernel⟩
  obtain ⟨u, hu, -, htext, hkind⟩ := (interrupted_selector .standard hrun rfl).2 _ hbehind
    (by decide +kernel) ".a#{b}".toList 'c' ['{', '}'] rfl rfl rfl
  refine ⟨u, ?_, htext, hkind⟩
  rw [show Machine.run _ = m.run from rfl, hrun, ← hu]
  rfl

end StyleLex

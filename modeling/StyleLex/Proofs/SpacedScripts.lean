import StyleLex.Proofs.LoosePlaces
import StyleLex.Proofs.SpacedText

/-!
# Scripts with spaces put in

At a loose place in the text ahead, a state passes over more spaces, or the place is behind its script
and the script stays the same.
-/
namespace StyleLex

/-- Whether a state passes over the spaces ahead, whatever follows them. -/
def State.Yields (g : Compound) : State → Prop
  | .statement | .attribute | .value | .interpolation => True
  | .selector => g.glue = .detached
  | .atRule | .assignment | .property | .pseudoArguments | .done => False

theorem Blocks.tail {ms : List Mode} (h : Blocks ms) : Blocks ms.tail := by
  cases h with
  | nil => exact .nil
  | cons outer => exact outer

theorem Blocks.yields {ms : List Mode} {g : Compound} (h : Blocks ms) :
    (State.ofMode (topMode ms)).Yields g := by
  rw [h.resume]
  trivial

/-- Behind a value or a call in it, what goes on passes over spaces. -/
theorem State.Fits.yields_behind_value {c : Config} {ms : List Mode} {g : Compound}
    (h : State.Fits c .value ms) : (State.ofMode (topMode ms.tail)).Yields g := by
  cases h with
  | value outer => exact outer.yields
  | call outer => cases outer <;> trivial

namespace Script

/-- The script does not fail. -/
def Settles : Script → Prop
  | .skip _ s | .emit _ _ s | .enter _ s | .leave s | .note _ s => s.Settles
  | .goto _ | .resume => True
  | .fail _ _ => False

/-- With `w` put in behind `x` the script `s'` stands for `s`. Either more is skipped, or the place is
further on, where the pieces `L` to come have it or the next state passes over spaces. -/
inductive Spaced (w : Text) (L : List Piece) :
    List Mode → Compound → Text → Script → Script → Prop where
  | absorbed {ms : List Mode} {g : Compound} {x r : Text} {s : Script} :
      Spaced w L ms g x (.skip (x ++ r) s) (.skip (x ++ (w ++ r)) s)
  | skip {ms : List Mode} {g : Compound} {x y t : Text} {s s' : Script} (split : x = t ++ y)
      (behind : Spaced w L ms g y s s') : Spaced w L ms g x (.skip t s) (.skip t s')
  | emit {ms : List Mode} {g : Compound} {x y t : Text} {k : Kind} {s s' : Script} (split : x = t ++ y)
      (ne : x ≠ []) (behind : Spaced w L ms g y s s') : Spaced w L ms g x (.emit k t s) (.emit k t s')
  | enter {ms : List Mode} {g : Compound} {x : Text} {mode : Mode} {s s' : Script}
      (behind : Spaced w L (mode :: ms) g x s s') : Spaced w L ms g x (.enter mode s) (.enter mode s')
  | leave {ms : List Mode} {g : Compound} {x : Text} {s s' : Script}
      (behind : Spaced w L ms.tail g x s s') : Spaced w L ms g x (.leave s) (.leave s')
  | note {ms : List Mode} {g g' : Compound} {x : Text} {s s' : Script}
      (behind : Spaced w L ms g' x s s') : Spaced w L ms g x (.note g' s) (.note g' s')
  | goto {ms : List Mode} {g : Compound} {x : Text} {st : State}
      (ready : Loose x L ∨ x = [] ∧ st.Yields g) : Spaced w L ms g x (.goto st) (.goto st)
  | resume {ms : List Mode} {g : Compound} {x : Text}
      (ready : Loose x L ∨ x = [] ∧ (State.ofMode (topMode ms)).Yields g) :
      Spaced w L ms g x .resume .resume

/-- If the script settles and the place is loose, then spaces may be put in. -/
def Admits (w : Text) (L : List Piece) (ms : List Mode) (g : Compound) (x : Text) (s s' : Script) : Prop :=
  s.Settles → Loose x (s.pieces ++ L) → Spaced w L ms g x s s'

/-- Spaces may be put in at every loose place of the text that the script is for. -/
def Roomy (w b : Text) (L : List Piece) (ms : List Mode) (g : Compound) (next : Text → Script) : Prop :=
  ∀ y, Admits w L ms g y (next (y ++ b)) (next (y ++ (w ++ b)))

open Text

variable {w b x y rest u tail t : Text} {L : List Piece} {ms : List Mode} {g : Compound}
  {s s' : Script} {next : Text → Script} {k : Kind} {a q : Char}

theorem settles_of_perform {m : Machine} (h : (Machine.perform s m).error? = none) : s.Settles := by
  induction s generalizing m with
  | skip t s ih => exact ih (m := m.skip t) h
  | emit k t s ih => exact ih (m := (m.take t).2) h
  | enter mode s ih => exact ih (m := m.enter mode) h
  | leave s ih => exact ih (m := m.leave) h
  | note g s ih => exact ih (m := m.note g) h
  | goto st => trivial
  | resume => trivial
  | fail t f => cases h

theorem admits_fail {t : Text} {f : Fault} : Admits w L ms g x (.fail t f) s' := fun ok => ok.elim

theorem admits_goto (st : State) : Admits w L ms g x (.goto st) (.goto st) :=
  fun _ place => .goto (.inl place)

theorem Admits.enter {mode : Mode} (h : Admits w L (mode :: ms) g x s s') :
    Admits w L ms g x (.enter mode s) (.enter mode s') := fun ok place => .enter (h ok place)

theorem Admits.leave (h : Admits w L ms.tail g x s s') :
    Admits w L ms g x (.leave s) (.leave s') := fun ok place => .leave (h ok place)

theorem Admits.note {g' : Compound} (h : Admits w L ms g' x s s') :
    Admits w L ms g x (.note g' s) (.note g' s') := fun ok place => .note (h ok place)

/-- A text that is dropped and holds no spaces is passed. -/
theorem Admits.skip (h : Admits w L ms g y s s') (bare : ∀ a ∈ t, isSpace a = false) :
    Admits w L ms g (t ++ y) (.skip t s) (.skip t s') := by
  intro ok place
  obtain ⟨y', hy, hplace⟩ := place.gap bare
  obtain rfl := List.append_cancel_left hy
  exact .skip rfl (h ok hplace)

/-- So is any text, if the place is behind it. -/
theorem admits_blank (ne : y ≠ []) (h : Admits w L ms g y s s') :
    Admits w L ms g (t ++ y) (.skip t s) (.skip t s') :=
  fun ok place => .skip rfl (h ok (place.behind_gap ne))

/-- A token that spaces may not stand next to is passed. -/
theorem admits_token (before : k.spaceBefore = false) (behind : k.spaceBehind = false) (ne : t ≠ [])
    (h : ∀ y, x = t ++ y → ∃ s'', s' = .emit k t s'' ∧ Admits w L ms g y s s'') :
    Admits w L ms g x (.emit k t s) s' := by
  intro ok place
  obtain ⟨y, hx, hplace⟩ := place.token before behind
  obtain ⟨s'', rfl, hs⟩ := h y hx
  refine .emit hx ?_ (hs ok hplace)
  rw [hx]
  exact List.append_ne_nil_of_left_ne_nil ne y

/-- Behind a token the place is loose again, or it is right there and spaces may stand there. -/
theorem admits_char (h : s.Settles → Loose y (s.pieces ++ L) ∨ y = [] ∧ k.spaceBehind = true →
    Spaced w L ms g y s s') : Admits w L ms g (a :: y) (.emit k [a] s) (.emit k [a] s') := by
  intro ok place
  obtain ⟨y', hy, hplace⟩ := place.token_of_ne (List.cons_ne_nil a y)
  obtain rfl : y = y' := (List.cons.inj hy).2
  exact .emit rfl (List.cons_ne_nil a y) (h ok hplace)

/-- A test that comes out the same. -/
theorem Admits.ite {p : Prop} [Decidable p] {s₁ s₂ s₁' s₂' : Script}
    (ht : p → Admits w L ms g x s₁ s₁') (hf : ¬p → Admits w L ms g x s₂ s₂') :
    Admits w L ms g x (if p then s₁ else s₂) (if p then s₁' else s₂') := by
  by_cases h : p
  · rw [if_pos h, if_pos h]
    exact ht h
  · rw [if_neg h, if_neg h]
    exact hf h

theorem roomy_goto (st : State) : Roomy w b L ms g fun _ => .goto st := fun _ => admits_goto st

theorem skipSpaces_of_munch (munch : rest.Munch isSpace u tail) :
    skipSpaces rest next = .skip u (next tail) := by
  rw [skipSpaces, munch.takeWhile_eq.1, munch.takeWhile_eq.2]

/-- More spaces are skipped with the others, or the place is behind them. -/
theorem spaced_skipSpaces (hw : w.Blank)
    (hnext : ∀ y, y <:+ x → y ≠ [] → Admits w L ms g y (next (y ++ b)) (next (y ++ (w ++ b))))
    (ok : (skipSpaces (x ++ b) next).Settles)
    (place : Loose x ((skipSpaces (x ++ b) next).pieces ++ L) ∨ x = []) :
    Spaced w L ms g x (skipSpaces (x ++ b) next) (skipSpaces (x ++ (w ++ b)) next) := by
  have munch := Text.munch isSpace (x ++ b)
  generalize (x ++ b).takeWhile isSpace = blank at munch
  generalize (x ++ b).dropWhile isSpace = tail at munch
  rw [skipSpaces_of_munch munch] at ok place ⊢
  rcases munch.spaces hw with ⟨r, rfl, munch'⟩ | ⟨y, ne, rfl, rfl, munch'⟩
  · rw [skipSpaces_of_munch munch']
    exact .absorbed
  · rw [skipSpaces_of_munch munch']
    have hplace := place.resolve_right (List.append_ne_nil_of_right_ne_nil blank ne)
    exact .skip rfl (hnext y (List.suffix_append blank y) ne ok (hplace.behind_gap ne))

theorem roomy_skipSpaces (hw : w.Blank)
    (hnext : ∀ y, y ≠ [] → Admits w L ms g y (next (y ++ b)) (next (y ++ (w ++ b)))) :
    Roomy w b L ms g fun r => skipSpaces r next :=
  fun _ ok place => spaced_skipSpaces hw (fun y _ => hnext y) ok (.inl place)

theorem sigil_of_munch (munch : rest.Munch isNameChar u tail) (ne : u ≠ []) :
    sigil k a rest next = .emit k (a :: u) (next tail) := by
  rw [sigil, munch.takeWhile_eq.1, munch.takeWhile_eq.2, if_neg ne]

theorem admits_sigil (hw : w.Blank) (before : k.spaceBefore = false) (behind : k.spaceBehind = false)
    (hnext : Roomy w b L ms g next) :
    Admits w L ms g (a :: x) (sigil k a (x ++ b) next) (sigil k a (x ++ (w ++ b)) next) := by
  have hs : SigilForm k a (x ++ b) next (sigil k a (x ++ b) next) := sigil_form k a
  generalize sigil k a (x ++ b) next = s at hs
  cases hs with
  | nameless => exact admits_fail
  | @named name tail munch ne =>
    refine admits_token before behind (List.cons_ne_nil a name) fun y hx => ?_
    obtain rfl : x = name ++ y := (List.cons.inj hx).2
    obtain ⟨rfl, munch'⟩ := munch.respace hw fun _ => not_isNameChar_of_isSpace
    exact ⟨_, sigil_of_munch munch' ne, hnext y⟩

theorem not_isSpace_of_isQuote (h : isQuote q = true) : isSpace q = false := by
  simp only [isQuote, Bool.or_eq_true, decide_eq_true_eq] at h
  rcases h with rfl | rfl <;> rfl

theorem quoted_of_split (first : q ∉ u) :
    quoted q (u ++ q :: t) next =
      (.skip [q] <| .emit .quotedString u <| .skip [q] <| next t) := by
  have hdrop : (u ++ q :: t).drop (u.length + 1) = t := by
    rw [List.append_cons]
    exact List.drop_left' List.length_append
  rw [quoted, upTo?_split first]
  dsimp only
  rw [hdrop]

theorem admits_quoted (quote : isQuote q = true) (hnext : Roomy w b L ms g next) :
    Admits w L ms g (q :: x) (quoted q (x ++ b) next) (quoted q (x ++ (w ++ b)) next) := by
  have hs : QuotedForm q (x ++ b) next (quoted q (x ++ b) next) := quoted_form q
  generalize quoted q (x ++ b) next = s at hs
  cases hs with
  | unclosed => exact admits_fail
  | @closed body tail split first =>
    intro ok place
    have hbare : ∀ a ∈ [q], isSpace a = false :=
      List.forall_mem_singleton.2 (not_isSpace_of_isQuote quote)
    obtain ⟨x', hx, hbody⟩ := place.gap hbare
    obtain rfl : x = x' := (List.cons.inj hx).2
    obtain ⟨z, rfl, hclose⟩ := hbody.token rfl rfl
    obtain ⟨y, rfl, hplace⟩ := hclose.gap hbare
    obtain rfl : y ++ b = tail := by
      rw [List.append_assoc] at split
      exact (List.cons.inj (List.append_cancel_left split)).2
    have hquoted : quoted q (body ++ ([q] ++ y) ++ (w ++ b)) next = _ :=
      (congrArg (quoted q · next) (List.append_assoc _ _ _)).trans (quoted_of_split first)
    rw [hquoted]
    exact .skip rfl (.emit rfl (by simp) (.skip rfl (hnext y ok hplace)))

/-- Without a unit the text goes on as if there were no number in front of it. -/
theorem unit_of_none (letters : rest.takeWhile Char.isAlpha = []) (percent : rest.head? ≠ some '%') :
    unit rest next = next rest := by
  rw [unit_of_ne percent, if_pos letters]

theorem head?_ne_percent (munch : rest.Munch Char.isAlpha u tail) (ne : u ≠ []) :
    rest.head? ≠ some '%' := by
  intro hhead
  obtain ⟨a, u, rfl⟩ := List.exists_cons_of_ne_nil ne
  rw [munch.split] at hhead
  obtain rfl : a = '%' := Option.some.inj hhead
  cases munch.inside _ List.mem_cons_self

theorem unit_of_munch {n : NumberUnit} (munch : rest.Munch Char.isAlpha u tail) (ne : u ≠ [])
    (known : NumberUnit.ofSuffix? u = some n) : unit rest next = .emit (.unit n) u (next tail) := by
  rw [unit_of_ne (head?_ne_percent munch ne), munch.takeWhile_eq.1, munch.takeWhile_eq.2, if_neg ne,
    known]

/-- Letters that are no unit spoil the number. -/
theorem unit_of_unknown (munch : rest.Munch Char.isAlpha u tail) (ne : u ≠ [])
    (unknown : NumberUnit.ofSuffix? u = none) :
    unit rest next = .fail u ⟨.invalidNumberFormat, .lexeme⟩ := by
  rw [unit_of_ne (head?_ne_percent munch ne), munch.takeWhile_eq.1, if_neg ne, unknown]

theorem roomy_unit (hw : w.Blank) (hnext : Roomy w b L ms g next) :
    Roomy w b L ms g fun r => unit r next := by
  intro x
  have hs : UnitForm (x ++ b) next (unit (x ++ b) next) := unit_form
  dsimp only
  generalize unit (x ++ b) next = s at hs
  cases hs with
  | @percent tail ahead =>
    refine admits_token rfl rfl (List.cons_ne_nil _ _) fun y hx => ?_
    subst hx
    obtain rfl : y ++ b = tail := (List.cons.inj ahead).2
    exact ⟨_, rfl, hnext y⟩
  | none munch ahead =>
    have hrun : Munch Char.isAlpha ([] ++ x ++ b) [] (x ++ b) := munch
    obtain ⟨-, munch'⟩ := hrun.respace hw fun _ => not_isAlpha_of_isSpace
    have hunit : unit (x ++ (w ++ b)) next = next (x ++ (w ++ b)) :=
      unit_of_none munch'.takeWhile_eq.1 (hw.head?_ne (by decide) ahead)
    rw [hunit]
    exact hnext x
  | @known letters tail n munch ne known =>
    refine admits_token rfl rfl ne fun y hx => ?_
    subst hx
    obtain ⟨rfl, munch'⟩ := munch.respace hw fun _ => not_isAlpha_of_isSpace
    exact ⟨_, unit_of_munch munch' ne known, hnext y⟩
  | unknown => exact admits_fail

theorem wholePart_eq_respace (hw : w.Blank) (ne : x ≠ []) (hx : x = wholePart (x ++ b) ++ y) :
    wholePart (x ++ (w ++ b)) = wholePart (x ++ b) := by
  rw [wholePart, wholePart, sign_append ne, sign_append ne, (wholePart_respace hw ne hx).1]

theorem admits_number_of_point (hw : w.Blank) (ne : x ≠ []) (hnext : Roomy w b L ms g next)
    (point : (unsigned (x ++ b)).dropWhile Char.isDigit = '.' :: t) :
    Admits w L ms g x (number (x ++ b) next)
      (if numberAhead (x ++ (w ++ b)) then number (x ++ (w ++ b)) next else s') := by
  have munch := Text.munch Char.isDigit t
  rw [number_of_point point]
  generalize t.takeWhile Char.isDigit = fraction at munch
  generalize t.dropWhile Char.isDigit = behind at munch
  split
  case isTrue => exact admits_fail
  case isFalse hgood =>
    obtain ⟨hfraction, honly⟩ := not_or.1 hgood
    refine admits_token rfl rfl (by simp) fun y hx => ?_
    have hx' : x = wholePart (x ++ b) ++ ('.' :: (fraction ++ y)) := by simpa using hx
    obtain ⟨-, hdrop, hdrop'⟩ := wholePart_respace hw ne hx'
    obtain rfl : t = fraction ++ y ++ b := (List.cons.inj (point.symm.trans hdrop)).2
    obtain ⟨rfl, munch'⟩ := munch.respace hw fun _ => not_isDigit_of_isSpace
    have point' : (unsigned (x ++ (w ++ b))).dropWhile Char.isDigit =
        '.' :: (fraction ++ y ++ (w ++ b)) := by
      rw [hdrop', List.cons_append, List.append_assoc]
    refine ⟨_, ?_, roomy_unit hw hnext y⟩
    rw [if_pos (numberAhead_of_fraction point' (by rwa [munch'.takeWhile_eq.1])),
      number_of_point point', munch'.takeWhile_eq.1, munch'.takeWhile_eq.2,
      wholePart_eq_respace hw ne hx', if_neg]
    rw [not_or]
    exact ⟨hfraction, by simpa using fractionAhead_respace hw (by simpa using honly)⟩

theorem admits_number_of_digits (hw : w.Blank) (ne : x ≠ []) (hnext : Roomy w b L ms g next)
    (digits : (unsigned (x ++ b)).takeWhile Char.isDigit ≠ [])
    (point : ((unsigned (x ++ b)).dropWhile Char.isDigit).head? ≠ some '.') :
    Admits w L ms g x (number (x ++ b) next)
      (if numberAhead (x ++ (w ++ b)) then number (x ++ (w ++ b)) next else s') := by
  rw [number_of_ne point]
  have hne : wholePart (x ++ b) ≠ [] := List.append_ne_nil_of_right_ne_nil _ digits
  refine admits_token rfl rfl hne fun y hx => ?_
  obtain ⟨htake, hdrop, hdrop'⟩ := wholePart_respace hw ne hx
  rw [hdrop] at point ⊢
  refine ⟨_, ?_, roomy_unit hw hnext y⟩
  rw [if_pos (numberAhead_of_digits (by rwa [htake])), number_of_ne, wholePart_eq_respace hw ne hx,
    hdrop']
  rw [hdrop']
  exact hw.head?_ne (by decide) point

/-- Where a number is ahead, it is still there and the same with spaces put in behind it. -/
theorem admits_numberAhead (hw : w.Blank) (ne : x ≠ []) (hnext : Roomy w b L ms g next)
    (hs : numberAhead (x ++ b) = false → Admits w L ms g x s s') :
    Admits w L ms g x (if numberAhead (x ++ b) then number (x ++ b) next else s)
      (if numberAhead (x ++ (w ++ b)) then number (x ++ (w ++ b)) next else s') := by
  by_cases ahead : numberAhead (x ++ b) = true
  · rw [if_pos ahead]
    by_cases hpoint : ((unsigned (x ++ b)).dropWhile Char.isDigit).head? = some '.'
    · obtain ⟨t, ht⟩ := List.head?_eq_some_iff.1 hpoint
      exact admits_number_of_point hw ne hnext ht
    · exact admits_number_of_digits hw ne hnext (digits_ne_nil ahead hpoint) hpoint
  · rw [Bool.not_eq_true] at ahead
    rw [ahead, numberAhead_respace hw ne ahead]
    exact hs ahead

/-- A number that begins with a digit. -/
theorem admits_number (hw : w.Blank) (digit : a.isDigit = true) (hnext : Roomy w b L ms g next) :
    Admits w L ms g (a :: x) (number (a :: (x ++ b)) next) (number (a :: (x ++ (w ++ b))) next) := by
  have hahead (t : Text) : numberAhead (a :: x ++ t) = true := numberAhead_of_isDigit digit (x ++ t)
  have hnone : numberAhead (a :: x ++ b) = false → Admits w L ms g (a :: x) .resume .resume := by
    rw [hahead b]
    exact nofun
  have hnumber := admits_numberAhead hw (List.cons_ne_nil a x) hnext hnone
  rwa [if_pos (hahead b), if_pos (hahead (w ++ b))] at hnumber

theorem hexColor_of_munch (munch : rest.Munch isNameChar u tail) (size : u.length = 3 ∨ u.length = 6)
    (hex : ∀ c ∈ u, isHexDigit c = true) :
    hexColor rest next = .emit .hexColor ('#' :: u) (next tail) := by
  rw [hexColor, munch.takeWhile_eq.1, munch.takeWhile_eq.2]
  exact if_pos ⟨size, List.all_eq_true.2 hex⟩

theorem admits_hexColor (hw : w.Blank) (hnext : Roomy w b L ms g next) :
    Admits w L ms g ('#' :: x) (hexColor (x ++ b) next) (hexColor (x ++ (w ++ b)) next) := by
  have hs : HexColorForm (x ++ b) next (hexColor (x ++ b) next) := hexColor_form
  generalize hexColor (x ++ b) next = s at hs
  cases hs with
  | @color digits tail munch size hex =>
    refine admits_token rfl rfl (List.cons_ne_nil '#' digits) fun y hx => ?_
    obtain rfl : x = digits ++ y := (List.cons.inj hx).2
    obtain ⟨rfl, munch'⟩ := munch.respace hw fun _ => not_isNameChar_of_isSpace
    exact ⟨_, hexColor_of_munch munch' size hex, hnext y⟩
  | malformed => exact admits_fail

theorem constant_of_word {inCall : Bool} (word : Word inCall rest u tail) (ne : u ≠ []) :
    constant inCall rest next = .emit .constant u (next tail) := by
  have hdrop : rest.drop u.length = tail := by rw [word.split, List.drop_left]
  rw [constant, word.word_eq, if_neg ne, hdrop]

theorem admits_constant (hw : w.Blank) (inCall : Bool) (plain : x.Unparted b)
    (hnext : Roomy w b L ms g next) :
    Admits w L ms g x (constant inCall (x ++ b) next) (constant inCall (x ++ (w ++ b)) next) := by
  have hs : ConstantForm inCall (x ++ b) next (constant inCall (x ++ b) next) := constant_form inCall
  generalize constant inCall (x ++ b) next = s at hs
  cases hs with
  | none => exact admits_fail
  | word hword ne =>
    refine admits_token rfl rfl ne fun y hx => ?_
    subst hx
    obtain ⟨rfl, hword'⟩ := hword.respace hw plain
    exact ⟨_, constant_of_word hword' ne, hnext y⟩

theorem admits_openInterpolation (y : Text) :
    Admits w L ms g (['#', '{'] ++ y) openInterpolation openInterpolation := by
  intro ok place
  obtain ⟨y', hy, hplace⟩ := Loose.token_of_ne (x := ['#', '{'] ++ y) place (by simp)
  obtain rfl := List.append_cancel_left hy
  exact .enter (.emit rfl (by simp) (.goto (hplace.imp_right fun h => ⟨h.1, trivial⟩)))

/-- Where an interpolation is ahead, the place is not between its hash and its brace. -/
theorem admits_interpolationAhead (hw : w.Blank) (ne : x ≠ [])
    (hs : interpolationAhead (x ++ b) = false → Admits w L ms g x s s') :
    Admits w L ms g x (if interpolationAhead (x ++ b) then openInterpolation else s)
      (if interpolationAhead (x ++ (w ++ b)) then openInterpolation else s') := by
  by_cases ahead : interpolationAhead (x ++ b) = true
  · rw [if_pos ahead]
    intro ok place
    obtain ⟨y, rfl, -⟩ := Loose.token_of_ne (k := .interpolationStart) place ne
    exact admits_openInterpolation y ok place
  · rw [Bool.not_eq_true] at ahead
    rw [ahead, interpolationAhead_respace hw ne ahead]
    exact hs ahead

variable {v : View}

theorem admits_component (after : State) (hw : w.Blank) (hafter : after.Yields g) (ne : x ≠ [])
    (plain : x.Unparted b) :
    Admits w L ms g x (component v after (x ++ b)) (component v after (x ++ (w ++ b))) := by
  have hgoto : Roomy w b L ms g fun _ => .goto after := roomy_goto after
  have hahead (s s' : Script) (hs : interpolationAhead (x ++ b) = false → Admits w L ms g x s s') :=
    admits_interpolationAhead hw ne hs
  have hnumber (s s' : Script) (hs : numberAhead (x ++ b) = false → Admits w L ms g x s s') :=
    admits_numberAhead hw ne hgoto hs
  have hconstant := admits_constant hw v.inCall plain hgoto
  obtain ⟨a, x, rfl⟩ := List.exists_cons_of_ne_nil ne
  simp only [List.cons_append] at hahead hnumber hconstant ⊢
  unfold component
  dsimp only
  refine .ite (fun _ => admits_sigil hw rfl rfl hgoto) fun _ => hahead _ _ fun _ =>
    .ite ?color fun _ => .ite (fun quote => admits_quoted quote hgoto) fun _ => .ite ?comma fun _ =>
    .ite ?call fun _ => .ite (fun _ => hconstant) fun _ => .ite (fun _ => admits_fail) fun _ =>
    hnumber _ _ fun _ => hconstant
  case color =>
    rintro rfl
    exact admits_hexColor hw hgoto
  case comma =>
    exact fun _ => admits_char fun _ hplace => .goto (hplace.imp_right fun h => ⟨h.1, hafter⟩)
  case call =>
    exact fun _ => .enter (admits_char fun _ hplace =>
      .goto (hplace.imp_right fun h => ⟨h.1, trivial⟩))

theorem admits_resume : Admits w L ms g x .resume .resume := fun _ place => .resume (.inl place)

theorem spaced_value {c : Config} (hw : w.Blank) (plain : x.Unparted b) (hfits : State.Fits c .value ms)
    (v : View) (ok : (value { v with rest := x ++ b }).Settles)
    (place : Loose x ((value { v with rest := x ++ b }).pieces ++ L) ∨ x = []) :
    Spaced w L ms g x (value { v with rest := x ++ b })
      (value { v with rest := x ++ (w ++ b) }) := by
  unfold value at ok place ⊢
  refine spaced_skipSpaces hw ?_ ok place
  intro y hy ne
  have hresume {k : Kind} {a : Char} {y : Text} :
      Admits w L ms g (a :: y) (.emit k [a] <| .leave .resume) (.emit k [a] <| .leave .resume) :=
    admits_char fun _ hplace =>
      .leave (.resume (hplace.imp_right fun h => ⟨h.1, hfits.yields_behind_value⟩))
  have hcomponent : Admits w L ms g y (component v .value (y ++ b))
      (component v .value (y ++ (w ++ b))) := admits_component .value hw trivial ne (plain.suffix hy)
  obtain ⟨a, y, rfl⟩ := List.exists_cons_of_ne_nil ne
  simp only [List.cons_append] at hcomponent ⊢
  exact .ite (fun _ => admits_fail) fun _ => .ite (fun _ => hresume) fun _ =>
    .ite (fun _ => admits_fail) fun _ => .ite (fun _ => .leave admits_resume) fun _ =>
    .ite (fun _ => hresume) fun _ => hcomponent

theorem admits_closeInterpolation (v : View) (y : Text) :
    Admits w L ms g ('}' :: y) (closeInterpolation v) (closeInterpolation v) := by
  rw [closeInterpolation]
  refine admits_char fun ok hplace => ?_
  refine Admits.leave (.ite (fun _ => .note admits_resume) fun _ => admits_resume) ok ?_
  exact hplace.resolve_right fun h => absurd h.2 (by decide)

theorem spaced_interpolation (hw : w.Blank) (plain : x.Unparted b) (v : View)
    (ok : (interpolation { v with rest := x ++ b }).Settles)
    (place : Loose x ((interpolation { v with rest := x ++ b }).pieces ++ L) ∨ x = []) :
    Spaced w L ms g x (interpolation { v with rest := x ++ b })
      (interpolation { v with rest := x ++ (w ++ b) }) := by
  unfold interpolation at ok place ⊢
  dsimp only at ok place ⊢
  cases hbody : v.config.interpolation with
  | skipped =>
    rw [hbody] at ok place
    dsimp only at ok place ⊢
    cases hx : x.upTo? ['}'] with
    | some body =>
      obtain ⟨-, hsplit⟩ := exists_of_upTo?_eq_some hx
      rw [upTo?_append hx] at ok place
      rw [upTo?_append hx, upTo?_append hx]
      dsimp only at ok place ⊢
      generalize x.drop (body.length + 1) = y at hsplit
      subst hsplit
      have hplace := place.resolve_right (by simp)
      exact .skip rfl (admits_closeInterpolation _ y ok (hplace.behind_gap (by simp)))
    | none =>
      have hspaces : (w ++ b).upTo? ['}'] = (b.upTo? ['}']).map (w ++ ·) :=
        upTo?_append_of_none (upTo?_of_not_mem (hw.not_mem (by decide))) b
      rw [upTo?_append_of_none hx] at ok
      rw [upTo?_append_of_none hx, upTo?_append_of_none hx, hspaces]
      cases hb : b.upTo? ['}'] with
      | none =>
        rw [hb] at ok
        exact ok.elim
      | some body => exact .absorbed
  | tokens =>
    rw [hbody] at ok place
    dsimp only at ok place ⊢
    refine spaced_skipSpaces hw ?_ ok place
    intro y hy ne
    have hcomponent : Admits w L ms g y (component v .interpolation (y ++ b))
        (component v .interpolation (y ++ (w ++ b))) :=
      admits_component .interpolation hw trivial ne (plain.suffix hy)
    obtain ⟨a, y, rfl⟩ := List.exists_cons_of_ne_nil ne
    simp only [List.cons_append] at hcomponent ⊢
    refine .ite ?_ fun _ => hcomponent
    rintro rfl
    exact admits_closeInterpolation _ y

end Script

end StyleLex

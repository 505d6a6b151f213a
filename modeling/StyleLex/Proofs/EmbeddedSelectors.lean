import Mathlib.Data.List.Basic
import StyleLex.Proofs.EmbeddedValues

/-!
# Selectors inside blocks

The selector of a rule is read in the same way in every block, whatever the block behind it holds.
-/
namespace StyleLex

variable {c : Config} {outer ms : List Mode} {st : State} {t u w y rest source before : Text}
  {v : View} {s : Script}

/-- The tokens of a selector are those in front of its block. -/
def selectorSpelling (c : Config) (t : Text) : List (Kind × Text) :=
  (spelling c (t ++ ['{', '}'])).takeWhile (·.1 ≠ .braceStart)

/-- A text that a rule can have for its selector, up to the brace behind it. -/
structure SelectorText (c : Config) (t : Text) : Prop where
  ok : ∃ ts, tokenize c (t ++ ['{', '}']) = .ok ts
  plain : ∀ a ∈ t, a ∉ [';', '{', '}', '"', '\'']
  start : ∃ a u, t = a :: u ∧ opensSelector a = true

theorem endsPlain_nil : EndsPlain [] := nofun

theorem EndsPlain.append (ht : EndsPlain t) (hu : EndsPlain u) : EndsPlain (t ++ u) := by
  intro hlast
  rw [List.getLast?_append, Option.or_eq_some_iff] at hlast
  rcases hlast with hlast | ⟨-, hlast⟩
  · exact hu hlast
  · exact ht hlast

theorem endsPlain_spaces (h : ∀ b ∈ u, isSpace b = true) : EndsPlain u := by
  intro hlast
  exact ne_hash_of_isSpace (h _ (List.mem_of_getLast? hlast)) rfl

/-- The block that a selector opens is found, whatever it holds. -/
theorem RuleShape.block_of_plain (h : ∀ a ∈ u, a ∉ [';', '{', '}', '"', '\'']) (hend : EndsPlain u)
    (y : Text) : ofText (u ++ '{' :: y) = .block := by
  induction u with
  | nil => rw [List.nil_append, ofText, if_pos rfl]
  | cons a u ih =>
    have ha := h a List.mem_cons_self
    simp only [List.mem_cons, List.not_mem_nil, or_false, not_or] at ha
    obtain ⟨semicolon, open_, close, double, single⟩ := ha
    have hquote : isQuote a = false := by simp [isQuote, double, single]
    rw [List.cons_append, ofText_plain open_ close semicolon hquote]
    · refine ih (fun b hb => h b (List.mem_cons_of_mem a hb)) ?_
      cases u with
      | nil => exact endsPlain_nil
      | cons b u => exact hend
    · rintro rfl hhead
      cases u with
      | nil => exact hend rfl
      | cons b u =>
        obtain rfl : b = '{' := Option.some.inj hhead
        exact h '{' (List.mem_cons_of_mem _ List.mem_cons_self) (by decide)

/-- What is left of a selector and its empty block holds both braces, the last one, or nothing. -/
theorem split_of_braces (h : u ++ ['{', '}'] = t ++ rest) :
    rest = [] ∨ rest = ['}'] ∨ ∃ w, u = t ++ w ∧ rest = w ++ ['{', '}'] := by
  rcases List.append_eq_append_iff.1 h with ⟨w, ht, hw⟩ | ⟨w, hu, hrest⟩
  · match w, ht, hw with
    | [], ht, hw => exact .inr (.inr ⟨[], by rw [ht, List.append_nil, List.append_nil], hw.symm⟩)
    | [_], _, hw => exact .inr (.inl (List.cons.inj hw).2.symm)
    | [_, _], _, hw => exact .inl (List.cons.inj (List.cons.inj hw).2).2.symm
    | _ :: _ :: _ :: _, _, hw => cases hw
  · exact .inr (.inr ⟨w, hu, hrest⟩)

namespace Script

/-- A closing brace cannot stand in a selector. -/
theorem fails_of_brace (h : ReadsSelector outer ms st) (hrest : v.rest = ['}']) :
    ∃ t f, ofState st v = .fail t f ∨ ofState st v = .skip [] (.fail t f) := by
  obtain ⟨config, top, around, compound, _⟩ := v
  dsimp only at hrest
  subst hrest
  cases h with
  | selector =>
    refine ⟨[], .unexpected ['}'], .inr ?_⟩
    have hspace : isSpace '}' = false := rfl
    have hname : isNameChar '}' = false := rfl
    have hopens : opensSimple '}' = false := rfl
    have hahead : interpolationAhead ['}'] = false := rfl
    simp [ofState, selector, combinator?, compoundPart, hspace, hname, hopens, hahead]
  | group => exact ⟨_, _, .inr rfl⟩
  | arguments => exact ⟨_, _, .inl rfl⟩

/-- The closing brace of an interpolation leads back into the middle of a statement. -/
theorem InterpolationForm.closes (hs : InterpolationForm v s) (hrest : v.rest = ['}'])
    (hfits : State.Fits c .interpolation ms) :
    s.Ends (fun _ => True) (fun _ st u => u = ['}'] ∧ st ≠ .statement ∧ st ≠ .done) ms [] := by
  have hclose {s : Script} (hs : CloseForm v s) :
      s.Ends (fun _ => True) (fun _ st u => u = ['}'] ∧ st ≠ .statement ∧ st ≠ .done) ms [] := by
    have hresume : State.ofMode (topMode ms.tail) ≠ .statement ∧
        State.ofMode (topMode ms.tail) ≠ .done := by
      cases hfits with
      | selectorInterpolation => exact ⟨nofun, nofun⟩
      | interpolation inner => cases inner <;> exact ⟨nofun, nofun⟩
    cases hs <;> exact ⟨trivial, rfl, hresume⟩
  cases hs with
  | unclosedSkipped => trivial
  | @skipped body _ _ _ split first close =>
    obtain rfl : body = [] := by
      rw [hrest] at split
      cases body with
      | nil => rfl
      | cons a body => exact absurd (List.head_eq_of_cons_eq split ▸ List.mem_cons_self) first
    have hclosed := hclose close
    exact hclosed
  | unclosed => trivial
  | @close blank _ _ _ munch close =>
    rw [hrest] at munch
    obtain rfl : [] = blank := munch.takeWhile_eq.1
    have hclosed := hclose close
    exact hclosed
  | component _ munch brace =>
    rw [hrest] at munch
    exact absurd (List.head_eq_of_cons_eq munch.takeWhile_eq.2).symm brace

end Script

namespace Machine

variable {m m' p : Machine}

theorem error_of_brace (h : ReadsSelector outer m.openModes m.state)
    (hrest : m.cursor.rest = ['}']) : m.step.error? ≠ none := by
  obtain ⟨t, f, hs | hs⟩ := Script.fails_of_brace h (v := m.view) hrest
  · rw [step, script, hs]
    exact Option.some_ne_none _
  · rw [step, script, hs]
    exact Option.some_ne_none _

theorem error_of_closing (hm : m.Coherent) (hst : m.state = .interpolation)
    (hrest : m.cursor.rest = ['}']) : m.run.error? ≠ none := by
  intro hok
  obtain ⟨he, hok'⟩ := error?_step_of_run hok
  have hfits := hm.fits
  rw [hst] at hfits
  have hscript : m.script = .interpolation m.view := by rw [script, hst, Script.ofState]
  have hends := (Script.interpolation_form m.view).closes hrest hfits
  rw [← hscript] at hends
  obtain ⟨⟨htexts, hstatement, hdone⟩, -⟩ := ends_perform hends he
  have hsplit := hm.rest_step (ne_of_eq_of_ne hst (by decide)) he
  rw [List.nil_append] at htexts
  rw [hrest, htexts] at hsplit
  exact error_of_rest_nil hstatement hdone (List.cons.inj hsplit).2.symm
    (error?_step_of_run hok').1

/-- While a selector is read without an error, the braces behind it are still to come. -/
theorem braces_ahead (h : ReadsSelector outer m.openModes m.state) (hok : m.run.error? = none)
    (hsplit : u ++ ['{', '}'] = t ++ m.cursor.rest) :
    ∃ w, u = t ++ w ∧ m.cursor.rest = w ++ ['{', '}'] := by
  obtain ⟨he, -⟩ := error?_step_of_run hok
  rcases split_of_braces hsplit with hnil | hbrace | hahead
  · exact absurd he (error_of_rest_nil h.inside.1 h.inside.2 hnil)
  · exact absurd he (error_of_brace h hbrace)
  · exact hahead

/-- A selector is read inside of blocks, and in front of any block, as it is read alone. -/
theorem Embedded.reaches_block (h : Embedded outer ['}'] y m m') (houter : Blocks outer)
    (hm : m.Coherent) (hselector : ReadsSelector [] m.openModes m.state)
    (hrest : m.cursor.rest = u ++ ['{', '}']) (hu : '{' ∉ u) (hok : m.run.error? = none) :
    EndsPlain u ∧ ∃ p p', Meet outer ['}'] y (.braceStart, ['{']) m m' p p' ∧
      p.At m.config .statement [.block] ['}'] := by
  induction m using run_induction generalizing m' u with
  | done m hdone => exact absurd hdone hselector.inside.2
  | error m hdone he =>
    rw [run_of_error he] at hok
    exact absurd hok he
  | step m hdone he ih =>
    obtain ⟨-, hok'⟩ := error?_step_of_run hok
    have hne : m.cursor.rest ≠ ['}'] := fun heq => error_of_brace hselector heq he
    have hclose : '{' ∉ ['}'] := by decide
    have hconfig : m.step.machine.config = m.config := config_perform m.script m
    -- As long as the brace that closes the block is still to come, the scripts agree.
    have hscript (hstalls : ¬m.step.machine.Stalls 1) : m'.script = m.script := by
      rcases h.agree hm hselector.inside.1 hne with heq | hangs
      · exact heq.symm
      · exact absurd (stalls_perform hangs he) hstalls
    rcases hm.selector_step hselector he with ⟨hselector', hplain, hkinds⟩ |
      ⟨blank, t, munch, hspelled, hbehind, hst, hmodes, hcompound⟩ | ⟨blank, t, munch, hbehind, hst⟩
    · have hsplit := hm.rest_step hdone he
      rw [hrest] at hsplit
      obtain ⟨w, rfl, hbehind⟩ := braces_ahead hselector' hok' hsplit
      have hlength : 1 < m.step.machine.cursor.rest.length := by
        rw [hbehind, List.length_append]
        exact Nat.lt_add_left w.length Nat.one_lt_two
      have hstalls : ¬m.step.machine.Stalls 1 := by
        rintro (hlt | ⟨heq, -⟩) <;> omega
      obtain ⟨he', hnext⟩ := h.step houter hm hdone he (hscript hstalls) hlength.le
      rw [List.mem_append, not_or] at hu
      obtain ⟨hplain', p, p', hmeet, hp⟩ := ih hnext (hm.step he) hselector' hbehind hu.2 hok'
      rw [hconfig] at hp
      exact ⟨hplain.append hplain', p, p',
        h.meet_behind hdone he he' (hscript hstalls) hkinds hmeet, hp⟩
    · have hsplit := munch.split
      rw [hrest] at hsplit
      obtain ⟨rfl, -, rfl⟩ := (List.append_cons_inj_of_notMem hu hclose).1 hsplit
      have hstalls : ¬m.step.machine.Stalls 1 := by
        rintro (hlt | ⟨-, hstatement, -⟩)
        · rw [hbehind] at hlt
          exact absurd hlt (by decide)
        · exact hstatement hst
      obtain ⟨he', hnext⟩ := h.step houter hm hdone he (hscript hstalls) (by rw [hbehind])
      exact ⟨endsPlain_spaces munch.inside, _, _,
        h.meet hdone he he' (hscript hstalls) hspelled hnext,
        hconfig, hst, hmodes, hcompound, hbehind⟩
    · have hsplit := munch.split
      rw [hrest, show blank ++ '#' :: '{' :: t = (blank ++ ['#']) ++ '{' :: t by simp] at hsplit
      obtain ⟨-, -, rfl⟩ := (List.append_cons_inj_of_notMem hu hclose).1 hsplit
      exact absurd hok' (error_of_closing (hm.step he) hst hbehind)

/-- A machine that reads a selector alone shows how any other machine reads it. -/
theorem At.reads_block (h : m.At c .selector [.selector] (u ++ ['{', '}']))
    (hs : m.Stands source before) (hok : m.run.error? = none) (hu : '{' ∉ u)
    (h' : m'.At c .selector (.selector :: outer) (u ++ '{' :: y)) (houter : Blocks outer) :
    EndsPlain u ∧ ∃ ps p, m'.Reaches ps p ∧ p.At c .statement (.block :: outer) y ∧
      Piece.spelled ps = m.spelling.takeWhile (·.1 ≠ .braceStart) ++ [(.braceStart, ['{'])] := by
  have hm := h.coherent (.selector .nil)
  have hembedded : Embedded outer ['}'] y m m' := by
    have hsplit (z : Text) : u ++ '{' :: z = (u ++ ['{']) ++ z := List.append_cons u '{' z
    rw [hsplit] at h h'
    exact h.embedded h' (.inr ⟨u, '{', rfl, by decide, .inl rfl⟩)
  have hselector : ReadsSelector [] m.openModes m.state := by
    rw [h.modes, h.state]
    exact .selector
  obtain ⟨hplain, p, p', ⟨⟨ps, ks, hreaches, hreaches', hspelled, hks⟩, hinside⟩, hp⟩ :=
    hembedded.reaches_block houter hm hselector h.rest hu hok
  obtain ⟨w, hw, hrest', -⟩ := hinside.text
  obtain rfl : [] = w := List.append_cancel_right (hp.rest.symm.trans hw)
  have hp' : p'.At c .statement (.block :: outer) y := by
    refine ⟨hreaches'.config.trans h'.config, hinside.inside.state.trans hp.state, ?_,
      hinside.inside.compound.trans hp.compound, hrest'⟩
    rw [hinside.inside.modes, hp.modes]
    rfl
  refine ⟨hplain, ps, p', hreaches', hp', ?_⟩
  rw [hreaches.spelling hm hs, hspelled, List.append_assoc]
  exact congrArg (· ++ _) (takeWhile_kind hks ['{'] p.spelling).symm

end Machine

/-- Some machine reads the selector alone. -/
theorem SelectorText.exists_reader (ht : SelectorText c t) :
    ∃ (m : Machine) (before : Text), m.At c .selector [.selector] (t ++ ['{', '}']) ∧
      m.Stands (t ++ ['{', '}']) before ∧ m.run.error? = none ∧
      spelling c (t ++ ['{', '}']) = m.spelling := by
  obtain ⟨a, u, rfl, opens⟩ := ht.start
  obtain ⟨ps, m, hreaches, hm, hspelled⟩ :=
    (Machine.at_start c (a :: u ++ ['{', '}'])).opens_selector opens nofun
  obtain ⟨⟨before, hstands⟩, hok, hspelling⟩ := hreaches.reader ht.ok
  rw [hspelled] at hspelling
  exact ⟨m, before, hm, hstands, hok, hspelling⟩

theorem SelectorText.not_mem (ht : SelectorText c t) : '{' ∉ t :=
  fun hmem => ht.plain _ hmem (by decide)

/-- A selector text is read as the selector of any rule, inside of any blocks and in front of any
text. -/
theorem SelectorText.reads (ht : SelectorText c t) {m : Machine}
    (h : m.At c .statement outer (t ++ '{' :: y)) (houter : Blocks outer) :
    ∃ ps p, m.Reaches ps p ∧ p.At c .statement (.block :: outer) y ∧
      Piece.spelled ps = selectorSpelling c t ++ [(.braceStart, ['{'])] := by
  obtain ⟨reader, _, hreader, hstands, hok, hspelling⟩ := ht.exists_reader
  obtain ⟨hplain, -⟩ := hreader.reads_block hstands hok ht.not_mem hreader .nil
  obtain ⟨a, u, rfl, opens⟩ := ht.start
  obtain ⟨ps, p, hreaches, hp, hspelled⟩ :=
    h.opens_selector opens fun _ => RuleShape.block_of_plain ht.plain hplain y
  obtain ⟨-, qs, p', hreaches', hp', hspelled'⟩ :=
    hreader.reads_block hstands hok ht.not_mem hp houter
  refine ⟨ps ++ qs, p', hreaches.trans hreaches', hp', ?_⟩
  rw [Piece.spelled_append, hspelled, hspelled', List.nil_append, selectorSpelling, hspelling]

end StyleLex

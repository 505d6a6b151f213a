import StyleLex.Proofs.DeclaredValues
import StyleLex.Proofs.EmbeddedMachines

/-!
# Seams behind statements

A text that is read without an error is read in the same way with more text behind it, up to the last
statement in it.
-/
namespace StyleLex

variable {outer : List Mode} {y source before : Text}

theorem Script.statement_of_blank {v : View} (h : v.rest.dropWhile isSpace = []) :
    statement v = .skip (v.rest.takeWhile isSpace)
      (if v.top = .topLevel then .goto .done else .fail [] (.unclosed v.top [])) := by
  rw [statement, skipSpaces, h]

namespace Machine

variable {m m' : Machine}

/-- Spaces outside of all blocks end a run. -/
theorem run_of_blank (hst : m.state = .statement) (hmodes : m.openModes = [])
    (hblank : m.cursor.rest.dropWhile isSpace = []) : m.run.tokens = [] ∧ m.run.error? = none := by
  have htop : m.view.top = .topLevel := by
    rw [← show topMode m.openModes = m.view.top from m.topMode_openModes, hmodes]
    rfl
  have hscript : m.script = .skip (m.cursor.rest.takeWhile isSpace) (.goto .done) := by
    rw [script, hst, Script.ofState, Script.statement_of_blank hblank, if_pos htop]
    rfl
  have hstep : m.step = ⟨[], none, (m.skip (m.cursor.rest.takeWhile isSpace)).goto .done⟩ := by
    rw [step, hscript, perform, perform]
  rw [run_eq, hstep, run_of_done rfl]
  exact ⟨rfl, rfl⟩

/-- The text of a machine that reads it without an error need not end in the middle of a statement. -/
theorem Embedded.script_eq_of_ok (h : Embedded outer [] y m m') (hm : m.Coherent)
    (hst : m.state ≠ .statement) (hdone : m.state ≠ .done) (hok : m.run.error? = none) :
    m'.script = m.script := by
  obtain ⟨he, hok'⟩ := error?_step_of_run hok
  have hne : m.cursor.rest ≠ [] := fun hnil => error_of_rest_nil hst hdone hnil he
  rcases h.agree hm hst hne with heq | hangs
  · exact heq.symm
  · exact absurd (stalls_perform hangs he) (not_stalls_of_ok hok')

/-- The statement in front of a declaration finds the end of the declaration. -/
theorem Embedded.script_eq_of_statement (h : Embedded [] [] y m m') (hm : m.Coherent)
    (hs : m.Stands source before) (hst : m.state = .statement) (hok : m.run.error? = none)
    (hbraces : m.BracesOutside) (hblank : m.cursor.rest.dropWhile isSpace ≠ []) :
    m'.script = m.script := by
  obtain ⟨he, hok'⟩ := error?_step_of_run hok
  obtain ⟨w, hrest, hrest', hw⟩ := h.text
  rw [List.append_nil] at hrest
  subst hrest
  have hseam : Text.Seam [] m.cursor.rest := by
    refine hw.resolve_left fun hnil => ?_
    rw [hnil] at hblank
    exact hblank rfl
  have hscript : m.script = .statement { m.view with rest := m.cursor.rest ++ [] } := by
    rw [script, hst, List.append_nil]
    rfl
  have hscript' : m'.script = .statement { m.view with rest := m.cursor.rest ++ y } := by
    rw [h.inside.script_eq hm (.inr rfl), hst, hrest']
    rfl
  have hdeclaration : m.script = .skip (m.cursor.rest.takeWhile isSpace) (.goto .property) →
      RuleShape.ofText (m.cursor.rest.dropWhile isSpace ++ y) = .declaration := by
    intro hproperty
    have hstep : m.step = ⟨[], none, (m.skip (m.cursor.rest.takeWhile isSpace)).goto .property⟩ := by
      rw [Machine.step, hproperty]
      rfl
    have hstate : m.step.machine.state = .property := by rw [hstep]; rfl
    have running : m.state ≠ .done := ne_of_eq_of_ne hst (by decide)
    have hdeclares := (hm.step he).declares hstate ((reaches_step running he).stands hm hs) hok'
      (hm.bracesOutside_step hs running he hbraces)
    have hrest : m.step.machine.cursor.rest = m.cursor.rest.dropWhile isSpace := by
      rw [hstep]
      exact Script.drop_takeWhile isSpace m.cursor.rest
    rw [hrest] at hdeclares
    exact hdeclares y
  rw [hscript] at hdeclaration
  have hagree := Script.agree_statement (y := y) m.view hseam hblank
    (fun hblock => by
      rw [List.append_nil] at hblock
      exact RuleShape.block_append hblock y) hdeclaration
  rw [← hscript, ← hscript'] at hagree
  rcases hagree with heq | hangs
  · exact heq.symm
  · rw [List.append_nil] at hangs
    exact absurd (stalls_perform hangs he) (not_stalls_of_ok hok')

/-- Only a statement behind which there are no more than spaces ends a run: in front of more text any
other script would be the same. -/
theorem Embedded.step_ne_done (h : Embedded outer [] y m m') (hm : m.Coherent)
    (hstands : m.Stands source before) (running : m.state ≠ .done) (he : m.step.error? = none)
    (hscript : ∀ p, Embedded [] [] [' '] m p → p.script = m.script) :
    m.step.machine.state ≠ .done := by
  intro hdone
  obtain ⟨w, hrest, -, hw⟩ := h.text
  rw [List.append_nil] at hrest
  subst hrest
  let p : Machine := { m with cursor := { m.cursor with rest := m.cursor.rest ++ [' '] } }
  have hp : Embedded [] [] [' '] m p :=
    ⟨⟨rfl, (List.append_nil _).symm, rfl, rfl⟩, m.cursor.rest, (List.append_nil _).symm, rfl, hw⟩
  have hcoherent : p.Coherent := ⟨hm.fits, hm.compound⟩
  have hcursor := hstands.cursor
  have hstandsLonger : p.Stands (source ++ [' ']) before := by
    refine ⟨⟨?_, hcursor.start, hcursor.startLine, hcursor.pos, hcursor.line⟩, hstands.lexeme⟩
    rw [hcursor.split, List.append_assoc, List.append_assoc]
    rfl
  obtain ⟨he', hnext⟩ := hp.step .nil hm running he (hscript p hp) (Nat.zero_le _)
  have hend := (stands_perform hstandsLonger (hcoherent.reads running) he').2
    (hnext.inside.state.trans hdone)
  obtain ⟨w', -, hrest', -⟩ := hnext.text
  exact List.append_ne_nil_of_right_ne_nil w' (List.cons_ne_nil ' ' []) (hrest'.symm.trans hend)

/-- At the end of the text no block may be open. -/
theorem openModes_of_blank (hm : m.Coherent) (hst : m.state = .statement)
    (hblank : m.cursor.rest.dropWhile isSpace = []) (he : m.step.error? = none) :
    m.openModes = [] := by
  have houter : Blocks m.openModes := by
    have hfits := hm.fits
    rw [hst] at hfits
    generalize m.openModes = ms at hfits ⊢
    cases hfits with
    | statement outer => exact outer
  refine houter.eq_nil (m.topMode_openModes.trans ?_)
  by_contra h
  have htop : ¬m.view.top = .topLevel := h
  have hscript : m.script = Script.statement m.view := by rw [script, hst, Script.ofState]
  rw [step, hscript, Script.statement_of_blank hblank, if_neg htop] at he
  cases he

/-- What a machine reads without an error, another one reads too with more text behind it, up to the
spaces at the end. -/
theorem Embedded.reaches_end (h : Embedded [] [] y m m') (hm : m.Coherent)
    (hstands : m.Stands source before) (running : m.state ≠ .done) (hok : m.run.error? = none)
    (hbraces : m.BracesOutside) :
    ∃ ps p p', m.Reaches ps p ∧ m'.Reaches ps p' ∧ Embedded [] [] y p p' ∧ p.state = .statement ∧
      p.openModes = [] ∧ p.cursor.rest.dropWhile isSpace = [] := by
  induction m using run_induction generalizing m' before with
  | done m hdone => exact absurd hdone running
  | error m hdone he =>
    rw [run_of_error he] at hok
    exact absurd hok he
  | step m hdone he ih =>
    obtain ⟨-, hok'⟩ := error?_step_of_run hok
    by_cases hend : m.state = .statement ∧ m.cursor.rest.dropWhile isSpace = []
    · exact ⟨[], m, m', .refl m, .refl m', h, hend.1, openModes_of_blank hm hend.1 hend.2 he, hend.2⟩
    · have hscript (y : Text) (p : Machine) (hp : Embedded [] [] y m p) : p.script = m.script := by
        by_cases hst : m.state = .statement
        · exact hp.script_eq_of_statement hm hstands hst hok hbraces fun hblank =>
            hend ⟨hst, hblank⟩
        · exact hp.script_eq_of_ok hm hst hdone hok
      obtain ⟨he', hnext⟩ := h.step .nil hm hdone he (hscript y m' h) (Nat.zero_le _)
      have hnotDone := h.step_ne_done hm hstands hdone he (hscript [' '])
      have hstands' := (stands_perform hstands (hm.reads hdone) he).1
      obtain ⟨ps, p, p', hreaches, hreaches', hp⟩ :=
        ih hnext (hm.step he) hstands' hnotDone hok' (hm.bracesOutside_step hstands hdone he hbraces)
      refine ⟨m.script.pieces ++ ps, p, p', .step hdone he hreaches, ?_, hp⟩
      rw [← hscript y m' h]
      exact .step (h.inside.state ▸ hdone) he' hreaches'

end Machine

end StyleLex

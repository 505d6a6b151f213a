import StyleLex.Proofs.ConsumerAgreement
import StyleLex.Proofs.Reconfigured
import StyleLex.Proofs.ScriptOutcomes

/-!
# Runs that do without the last semicolon

A run that needs every semicolon does the same as one that does not, up to the first brace in front of
which a semicolon is missing. There the first one fails, and the other one comes to the brace.
-/
namespace StyleLex

variable {source before t : Text} {c : Config} {A B : List Item}

/-- The items at a brace in front of a statement: the brace of its block, or one that closes nothing. -/
def Item.AtBrace (before : Text) (i : Item) : Prop :=
  i = .token (.make .braceEnd ['}'] before.byteSize (1 + before.newlines)) ∨
    i = .error (.unbalancedCloseBrace before.byteSize (1 + before.newlines))

/-- The items `A` are the first of `B`, up to a brace in `source`. There a semicolon is missing for `A`,
and the next item of `B` is one at the brace. -/
def PartAtBrace (source : Text) (A B : List Item) : Prop :=
  ∃ (ts : List Token) (before behind : Text) (i : Item) (is : List Item),
    source = before ++ '}' :: behind ∧
    A = ts.map .token ++ [.error (.missingSemicolon before.byteSize (1 + before.newlines))] ∧
    B = ts.map .token ++ i :: is ∧ i.AtBrace before

theorem PartAtBrace.append (h : PartAtBrace source A B) (us : List Token) :
    PartAtBrace source (us.map .token ++ A) (us.map .token ++ B) := by
  obtain ⟨ts, before, behind, i, is, hsource, rfl, rfl, hi⟩ := h
  refine ⟨us ++ ts, before, behind, i, is, hsource, ?_, ?_, hi⟩
  · rw [List.map_append, List.append_assoc]
  · rw [List.map_append, List.append_assoc]

namespace Script

variable {v : View}

/-- A value makes a difference in front of a brace only, and not in a call. -/
theorem value_lenient (hstrict : v.config.requireSemicolon = true)
    (hlenient : c.requireSemicolon = false) :
    value (v.reconfigure c) = value v ∨
      ∃ blank t, v.rest.Munch isSpace blank ('}' :: t) ∧ v.inCall = false ∧
        value v = .skip blank (.fail [] ⟨.missingSemicolon, .scan⟩) ∧
        value (v.reconfigure c) = .skip blank (.leave .resume) := by
  have hmunch := Text.munch isSpace v.rest
  have hrest : (v.reconfigure c).rest = v.rest := rfl
  have hcall : (v.reconfigure c).inCall = v.inCall := rfl
  have hconfig : (v.reconfigure c).config = c := rfl
  rw [value, value, skipSpaces, skipSpaces, hrest]
  generalize v.rest.takeWhile isSpace = blank at hmunch ⊢
  generalize v.rest.dropWhile isSpace = rest at hmunch ⊢
  cases rest with
  | nil => exact .inl rfl
  | cons a t =>
    by_cases hbrace : a = '}' ∧ v.inCall = false
    · obtain ⟨rfl, hout⟩ := hbrace
      refine .inr ⟨blank, t, hmunch, hout, ?_, ?_⟩
      · simp [hout, hstrict]
      · simp [hcall, hconfig, hout, hlenient]
    · refine .inl ?_
      by_cases ha : a = '}'
      · have hin : v.inCall = true := by simpa [ha] using hbrace
        simp [ha, hcall, hin]
      · simp only [ha, hcall, false_and, if_false]
        rfl

end Script

namespace Machine

variable {m : Machine}

theorem items_run_eq (m : Machine) : ∃ is, m.run.items = m.step.items ++ is := by
  by_cases he : m.step.error? = none
  · refine ⟨m.step.machine.run.items, ?_⟩
    rw [run_eq, Run.items_followedBy he, Run.items, Run.items, he, Option.toList_none, List.map_nil,
      List.append_nil]
  · exact ⟨[], by rw [run_of_error he, List.append_nil]⟩

/-- A statement in front of a brace closes its block, if it is in one. -/
theorem Stands.items_at_brace (h : m.Stands source before) (outer : Blocks m.openModes)
    (hstate : m.state = .statement) (ahead : m.cursor.rest = '}' :: t) :
    ∃ i, m.step.items = [i] ∧ i.AtBrace before := by
  have hscript : m.script = .skip [] (if m.modes.top = .block then
      .emit .braceEnd ['}'] <| .leave .resume else .fail [] ⟨.unbalancedCloseBrace, .scan⟩) := by
    rw [script, hstate]
    exact Script.statement_of_brace ahead
  have hplace := (h.skip (t := []) (List.nil_append _).symm).place
  rw [List.append_nil] at hplace
  by_cases htop : m.modes.top = .block
  · have htoken := (h.skip (t := []) (List.nil_append _).symm).token (t := ['}']) .braceEnd
    rw [List.append_nil] at htoken
    refine ⟨_, ?_, .inl rfl⟩
    rw [Machine.step, hscript, if_pos htop, ← htoken]
    rfl
  · have hbottom : m.modes.top = .topLevel := by
      rw [← topMode_openModes] at htop ⊢
      generalize m.openModes = ms at outer htop
      cases outer with
      | nil => rfl
      | cons => exact absurd rfl htop
    refine ⟨_, ?_, .inr rfl⟩
    rw [Machine.step, hscript, if_neg htop, LexError.unbalancedCloseBrace, ← hplace.1, ← hplace.2,
      ← hbottom]
    rfl

/-- In front of a brace, a value without its semicolon is at fault if it needs one, and else it leaves
the brace to the statement around it. -/
theorem Coherent.partAtBrace (hm : m.Coherent) (h : m.Stands source before) {blank : Text}
    (hstate : m.state = .value) (outside : m.view.inCall = false)
    (ahead : m.cursor.rest = blank ++ '}' :: t)
    (hstrict : m.script = .skip blank (.fail [] ⟨.missingSemicolon, .scan⟩))
    (hlenient : (m.reconfigure c).script = .skip blank (.leave .resume)) :
    PartAtBrace source m.run.items (m.reconfigure c).run.items := by
  have hfits := hm.fits
  rw [hstate] at hfits
  obtain ⟨ms, hms, outer⟩ := hfits.not_inCall hm.view_shows outside
  have hskip := h.skip ahead
  have htop : m.modes.top = .value := by rw [← topMode_openModes, hms]; rfl
  -- The lenient machine comes to the statement around the value.
  let m' := ((m.reconfigure c).skip blank).leave.resume
  have hstep : (m.reconfigure c).step = ⟨[], none, m'⟩ := by rw [Machine.step, hlenient]; rfl
  obtain ⟨hmodes, hstatement⟩ := leave_resume (m := (m.reconfigure c).skip blank) hms outer
  obtain ⟨i, hitems, hbrace⟩ := Stands.items_at_brace (m := m') ⟨hskip.cursor, hskip.lexeme⟩
    (hmodes ▸ outer) hstatement (rest_skip_of_eq ahead)
  obtain ⟨is, hrun⟩ := items_run_eq m'
  have herror : m.step.error? ≠ none := by rw [Machine.step, hstrict]; exact Option.some_ne_none _
  refine ⟨[], before ++ blank, t, i, is, ?_, ?_, ?_, hbrace⟩
  · rw [List.append_assoc, ← ahead]
    exact h.split
  · rw [run_of_error herror, Machine.step, hstrict, LexError.missingSemicolon, ← hskip.place.1,
      ← hskip.place.2, ← htop]
    rfl
  · rw [run_eq, hstep, Run.nothing_followedBy, hrun, hitems]
    rfl

/-- The configuration makes a difference to a value in front of a brace only. -/
theorem script_lenient (hstrict : m.config.requireSemicolon = true)
    (hlenient : c.requireSemicolon = false) (hbody : c.interpolation = m.config.interpolation) :
    (m.reconfigure c).script = m.script ∨
      ∃ blank t, m.state = .value ∧ m.cursor.rest = blank ++ '}' :: t ∧ m.view.inCall = false ∧
        m.script = .skip blank (.fail [] ⟨.missingSemicolon, .scan⟩) ∧
        (m.reconfigure c).script = .skip blank (.leave .resume) := by
  by_cases hvalue : m.state = .value
  · have hscript : m.script = .value m.view := by rw [script, hvalue, Script.ofState]
    have hscript' : (m.reconfigure c).script = .value (m.view.reconfigure c) := by
      rw [script, show (m.reconfigure c).state = .value from hvalue]
      rfl
    rw [hscript, hscript']
    rcases Script.value_lenient (v := m.view) hstrict hlenient with
      heq | ⟨blank, t, munch, hout, hforms⟩
    · exact .inl heq
    · exact .inr ⟨blank, t, hvalue, munch.split, hout, hforms⟩
  · exact .inl (script_reconfigure (State.alike_of_ne_value hvalue hbody))

/-- A machine that needs every semicolon and one that does not hand over the same items, unless the
first one stops at a brace. -/
theorem Coherent.items_lenient (hm : m.Coherent) (h : m.Stands source before)
    (hstrict : m.config.requireSemicolon = true) (hlenient : c.requireSemicolon = false)
    (hbody : c.interpolation = m.config.interpolation) :
    (m.reconfigure c).run.items = m.run.items ∨
      PartAtBrace source m.run.items (m.reconfigure c).run.items := by
  induction m using run_induction generalizing before with
  | done m hdone =>
    rw [run_of_done hdone, run_of_done (m := m.reconfigure c) hdone]
    exact .inl rfl
  | error m hdone he =>
    rcases script_lenient hstrict hlenient hbody with
      hscript | ⟨blank, t, hstate, ahead, hout, hmissing, hleave⟩
    · have hstep := step_reconfigure_of_script hscript
      have he' : (m.reconfigure c).step.error? ≠ none := by
        rw [hstep]
        exact he
      rw [run_of_error he, run_of_error he', hstep]
      exact .inl rfl
    · exact .inr (hm.partAtBrace h hstate hout ahead hmissing hleave)
  | step m hdone he ih =>
    rcases script_lenient hstrict hlenient hbody with
      hscript | ⟨blank, t, hstate, ahead, hout, hmissing, hleave⟩
    · have hstep := step_reconfigure_of_script hscript
      have hstands := (stands_perform h (hm.reads hdone) he).1
      have hconfig : m.step.machine.config = m.config := config_perform _ m
      have hbehind := ih (hm.step he) hstands (hconfig ▸ hstrict) (hconfig ▸ hbody)
      rw [run_eq m, run_eq (m.reconfigure c), hstep, Run.items_followedBy he,
        Run.items_followedBy (r := m.step.reconfigure c) he]
      exact hbehind.imp (congrArg _) (PartAtBrace.append · _)
    · exact .inr (hm.partAtBrace h hstate hout ahead hmissing hleave)

end Machine

theorem Run.eq_of_items {r : Run} {ts : List Token} (h : r.items = ts.map .token) :
    r.tokens = ts ∧ r.error? = none := by
  obtain ⟨us, e?, m⟩ := r
  cases e? with
  | none =>
    rw [items, Option.toList_none, List.map_nil, List.append_nil] at h
    exact ⟨(List.map_inj_right fun _ _ => Item.token.inj).1 h, rfl⟩
  | some e =>
    have hmem : Item.error e ∈ ts.map .token := by
      rw [← h, items]
      exact List.mem_append_right _ List.mem_cons_self
    obtain ⟨t, -, ht⟩ := List.mem_map.1 hmem
    cases ht

/-- What a pull answers if every value needs its semicolon, and if the last one of a block does not. The
answers are the same, or the strict ones end with the error that a semicolon is missing in front of a
brace, and the lenient ones have an item at that brace in its place. So a text that is accepted strictly
has the same tokens in both cases. -/
theorem lenient_answers (body : InterpolationBody) (source : Text) :
    (∃ strict lenient : List Item,
      (∀ n, answer Pull.next n (.start ⟨true, body⟩ source) = strict[n]?) ∧
      (∀ n, answer Pull.next n (.start ⟨false, body⟩ source) = lenient[n]?) ∧
      (lenient = strict ∨ PartAtBrace source strict lenient)) ∧
    ∀ ts, tokenize ⟨true, body⟩ source = .ok ts → tokenize ⟨false, body⟩ source = .ok ts := by
  have hitems : (Machine.start ⟨false, body⟩ source).run.items =
      (Machine.start ⟨true, body⟩ source).run.items ∨
      PartAtBrace source (Machine.start ⟨true, body⟩ source).run.items
        (Machine.start ⟨false, body⟩ source).run.items :=
    (Machine.coherent_start ⟨true, body⟩ source).items_lenient (c := ⟨false, body⟩)
      (Machine.stands_start _ source) rfl rfl rfl
  have hanswer (c : Config) (n : Nat) :
      answer Pull.next n (.start c source) = (Machine.start c source).run.items[n]? :=
    answer_of_holds (fun _ _ h => Pull.next_of_holds h) (Pull.holds_start c source) n
  refine ⟨⟨_, _, hanswer _, hanswer _, hitems⟩, ?_⟩
  intro ts hok
  obtain ⟨rfl, he⟩ := run_of_tokenize hok
  have hstrict : (Machine.start ⟨true, body⟩ source).run.items =
      (Machine.start ⟨true, body⟩ source).run.tokens.map .token := by
    rw [Run.items, he, Option.toList_none, List.map_nil, List.append_nil]
  rcases hitems with hsame | ⟨us, before, behind, i, is, -, herror, -⟩
  · obtain ⟨htokens, he'⟩ := Run.eq_of_items (hsame.trans hstrict)
    rw [← htokens]
    exact tokenize_of_run he'
  · have hmem : Item.error (.missingSemicolon before.byteSize (1 + before.newlines)) ∈
        (Machine.start ⟨true, body⟩ source).run.tokens.map .token := by
      rw [← hstrict, herror]
      exact List.mem_append_right _ List.mem_cons_self
    obtain ⟨t, -, ht⟩ := List.mem_map.1 hmem
    cases ht

end StyleLex

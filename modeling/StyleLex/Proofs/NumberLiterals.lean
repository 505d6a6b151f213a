import StyleLex.Proofs.ValueCompleteness

/-!
# Numbers are accepted exactly

A number is read up to its unit. Letters that are no unit, a point without digits behind it and a second
fraction are refused, at the unit or at the number.
-/
namespace StyleLex

open Script

variable {c : Config} {source before u y : Text} {v : View} {f : Fault}

/-- Only the small spelling of a unit is looked up. -/
theorem NumberUnit.ofSuffix?_eq_none (h : ∀ n : NumberUnit, n.suffix.toList ≠ u.map Char.toLower) :
    ofSuffix? u = none := by
  rw [ofSuffix?, List.find?_eq_none]
  intro n _
  simpa using h n

namespace Written.Numeral

variable (x : Numeral)

theorem starts_print : ∃ a t, x.print ++ y = a :: t ∧ ∀ inCall, Starts inCall a := by
  obtain ⟨a, t, hprint, ha⟩ := x.exists_print
  rw [hprint]
  exact ⟨a, t ++ y, rfl, fun _ => starts_of_not_isOther (not_isOther_of_number ha)⟩

/-- A value that begins with a numeral begins with a number. -/
theorem value_print (ahead : v.rest = x.print ++ y) (digit : y.Stops Char.isDigit) :
    value v = .skip [] (Script.number (x.print ++ y) fun _ => .goto .value) := by
  obtain ⟨a, t, hprint, starts⟩ := x.starts_print (y := y)
  have munch : v.rest.Munch isSpace [] (a :: t) :=
    ⟨ahead.trans hprint, nofun, Text.stops_cons (starts v.inCall).space t⟩
  rw [value_of_starts munch (starts v.inCall), ← hprint, x.component_numeral v .value digit]

/-- Other letters than those of a unit are refused behind the number. -/
theorem value_unknown {letters : SomeChars Char.isAlpha} (ahead : v.rest = x.print ++ (letters.text ++ y))
    (unknown : NumberUnit.ofSuffix? letters.text = none) (stop : y.Stops Char.isAlpha) :
    value v = .skip [] (.emit x.kind x.print
      (.fail letters.text ⟨.invalidNumberFormat, .lexeme⟩)) := by
  have hdigit : Text.Stops Char.isDigit (letters.text ++ y) :=
    letters.stops (apart_symm fun _ => isAlpha_of_isDigit) y
  have hpoint : (letters.text ++ y).head? ≠ some '.' := by
    obtain ⟨a, t, htext, ha⟩ := letters.exists_cons
    rw [htext]
    intro hhead
    obtain rfl : a = '.' := Option.some.inj hhead
    cases ha
  rw [x.value_print ahead hdigit, x.number_print hdigit hpoint,
    unit_of_unknown (letters.munch stop) letters.ne unknown]

/-- The whole number is refused if no digit stands behind its point, or another fraction behind those. -/
theorem value_malformed {t fraction behind : Text} (ahead : v.rest = x.print ++ y)
    (digit : y.Stops Char.isDigit) (point : x.fraction ++ y = '.' :: t)
    (munch : t.Munch Char.isDigit fraction behind)
    (bad : fraction = [] ∨ fractionAhead behind = true) :
    ∃ scanned, value v = .skip [] (.fail scanned ⟨.invalidNumberFormat, .lexeme⟩) := by
  obtain ⟨htake, hdrop⟩ := munch.takeWhile_eq
  rw [x.value_print ahead digit, number_of_point ((x.dropWhile_print digit).trans point), htake, hdrop,
    if_pos bad]
  exact ⟨_, rfl⟩

end Written.Numeral

/-- What stands in front of the value of a variable. -/
def Written.assigned (name : Name) : Text := '$' :: (name.text ++ [':'])

/-- What the value of a variable sees. -/
def View.assigned (c : Config) (rest : Text) : View := ⟨c, .value, .topLevel, .detached, rest⟩

namespace Machine

variable {m p : Machine}

/-- An error in a lexeme is reported where the machine stands, whatever of it was scanned. -/
theorem Stands.locate (h : m.Stands source before) (scanned : Text) (cause : Cause) :
    (m.stop scanned).locate ⟨cause, .lexeme⟩ =
      ⟨cause, before.byteSize, 1 + before.newlines, m.modes.top⟩ := by
  rw [← h.cursor.start, ← h.cursor.startLine]
  rfl

/-- The value of a variable is reached behind the colon. -/
theorem exists_value (c : Config) (name : Name) (y : Text) :
    ∃ ps p, (start c (Written.assigned name ++ y)).Reaches ps p ∧ p.At c .value [.value] y ∧
      p.Stands (Written.assigned name ++ y) (Written.assigned name) := by
  have hsource : Written.assigned name ++ y = '$' :: (name.text ++ ':' :: y) := by
    simp [Written.assigned]
  have hstart := at_start c (Written.assigned name ++ y)
  rw [hsource] at hstart
  obtain ⟨ps, p, hreaches, hp, -⟩ := hstart.reads_variable name.ne name.inside
  rw [← hsource] at hreaches
  have hcoherent := coherent_start c (Written.assigned name ++ y)
  have hstands := hreaches.stands hcoherent (stands_start c _)
  have hrest := hreaches.rest_eq hcoherent
  rw [hp.rest] at hrest
  rw [← List.append_cancel_right hrest] at hstands
  exact ⟨ps, p, hreaches, hp, hstands⟩

theorem At.script_value (h : p.At c .value [.value] y) :
    p.script = value (.assigned c y) := h.script_eq

theorem Stands.skip_nil (h : p.Stands source before) : (p.skip []).Stands source before := by
  have hskip := h.skip (List.nil_append p.cursor.rest).symm
  rwa [List.append_nil] at hskip

/-- A value that is refused at once is refused where it begins. -/
theorem At.error?_of_fail {scanned : Text} {cause : Cause} (h : p.At c .value [.value] y)
    (hs : p.Stands source before)
    (refused : value (.assigned c y) = .skip [] (.fail scanned ⟨cause, .lexeme⟩)) :
    p.run.error? = some ⟨cause, before.byteSize, 1 + before.newlines, .value⟩ := by
  have htop : p.modes.top = .value := by rw [← topMode_openModes, h.modes]; rfl
  have hstep : p.step.error? = some ⟨cause, before.byteSize, 1 + before.newlines, .value⟩ := by
    rw [step, h.script_value, refused, ← htop]
    exact congrArg some (hs.skip_nil.locate scanned cause)
  rw [run_of_error (by rw [hstep]; exact Option.some_ne_none _), hstep]

/-- One that is refused behind its first token is refused where that ends. -/
theorem At.error?_of_emit {k : Kind} {t tail scanned : Text} {cause : Cause}
    (h : p.At c .value [.value] (t ++ tail)) (hs : p.Stands source before)
    (refused : value (.assigned c (t ++ tail)) =
      .skip [] (.emit k t (.fail scanned ⟨cause, .lexeme⟩))) :
    p.run.error? =
      some ⟨cause, (before ++ t).byteSize, 1 + (before ++ t).newlines, .value⟩ := by
  have htop : p.modes.top = .value := by rw [← topMode_openModes, h.modes]; rfl
  have hahead : (p.skip []).cursor.rest = t ++ tail := h.rest
  have hstands : ((p.skip []).take t).2.Stands source (before ++ t) := hs.skip_nil.take hahead
  have hstep : p.step.error? =
      some ⟨cause, (before ++ t).byteSize, 1 + (before ++ t).newlines, .value⟩ := by
    rw [step, h.script_value, refused, ← htop]
    exact congrArg some (hstands.locate scanned cause)
  rw [run_of_error (by rw [hstep]; exact Option.some_ne_none _), hstep]

end Machine

/-- What a value makes of its run is the answer for the whole text. -/
theorem tokenize_assigned {name : Name} {e : LexError}
    (h : ∀ p : Machine, p.At c .value [.value] y →
      p.Stands (Written.assigned name ++ y) (Written.assigned name) → p.run.error? = some e) :
    tokenize c (Written.assigned name ++ y) = .error e := by
  obtain ⟨ps, p, hreaches, hp, hstands⟩ := Machine.exists_value c name y
  rw [tokenize_eq, hreaches.error?_run, h p hp hstands]
  rfl

/-- A number, with a unit or without, is accepted as it is written. Behind a number other letters than
those of a unit are refused where they begin. A number is refused as a whole if no digit stands behind
its point, or if a second fraction does. -/
theorem number_literals (c : Config) (name : Name) (x : Written.Numeral) :
    let front := Written.assigned name
    let invalid (before : Text) : Except LexError (List Token) :=
      .error ⟨.invalidNumberFormat, before.byteSize, 1 + before.newlines, .value⟩
    (∀ unit? : Option Written.UnitName, ∃ ts,
      tokenize c (front ++ (x.print ++ (unit?.elim [] Written.UnitName.text ++ [';']))) = .ok ts ∧
        ts.map (fun t => (t.kind, t.text)) =
          [(.variableName, '$' :: name.text), (.colon, [':']), (x.kind, x.print)] ++
            (unit?.elim [] (fun u => [(.unit u.unit, u.text)]) ++ [(.semicolon, [';'])])) ∧
      (∀ (u : SomeChars Char.isAlpha) (y : Text),
        (∀ n : NumberUnit, n.suffix.toList ≠ u.text.map Char.toLower) → y.Stops Char.isAlpha →
        tokenize c (front ++ (x.print ++ (u.text ++ y))) = invalid (front ++ x.print)) ∧
      (x.fraction? = none → ∀ y : Text, y.Stops Char.isDigit →
        tokenize c (front ++ (x.print ++ '.' :: y)) = invalid front) ∧
      (x.fraction? ≠ none → ∀ (d : Char) (y : Text), d.isDigit = true →
        tokenize c (front ++ (x.print ++ '.' :: d :: y)) = invalid front) := by
  intro front invalid
  refine ⟨?accepted, ?unknown, ?pointless, ?fractions⟩
  case accepted =>
    intro unit?
    have hvalue := Written.Reading.value.expects_literal (c := c) (g := .detached) (.number x unit?)
      (.nil _) (Text.ended_cons rfl (by decide) []) (Written.expects_semicolon (.nil _))
    have hexpects := Written.expects_assignment name hvalue
    have hsource : front ++ (x.print ++ (unit?.elim [] Written.UnitName.text ++ [';'])) =
        '$' :: (name.text ++ ':' :: ((x.print ++ unit?.elim [] Written.UnitName.text) ++ [';'])) := by
      simp [front, Written.assigned]
    rw [hsource]
    exact tokenize_of_expects hexpects
  case unknown =>
    intro u y unknown stop
    have hvalue := x.value_unknown (v := .assigned c (x.print ++ (u.text ++ y))) rfl
      (NumberUnit.ofSuffix?_eq_none unknown) stop
    exact tokenize_assigned fun p hp hs => hp.error?_of_emit hs hvalue
  case pointless =>
    intro whole y stop
    have hpoint : x.fraction ++ '.' :: y = '.' :: y := by
      rw [Written.Numeral.fraction, whole]
      rfl
    obtain ⟨scanned, hvalue⟩ := x.value_malformed (v := .assigned c (x.print ++ '.' :: y)) rfl
      (Text.stops_cons rfl y) hpoint ⟨rfl, List.forall_mem_nil _, stop⟩ (.inl rfl)
    exact tokenize_assigned fun p hp hs => hp.error?_of_fail hs hvalue
  case fractions =>
    intro fraction d y hd
    obtain ⟨digits, hdigits⟩ := Option.ne_none_iff_exists'.1 fraction
    have hstops : Text.Stops Char.isDigit ('.' :: d :: y) := Text.stops_cons rfl _
    have hpoint : x.fraction ++ '.' :: d :: y = '.' :: (digits.text ++ '.' :: d :: y) := by
      rw [Written.Numeral.fraction, hdigits]
      rfl
    obtain ⟨scanned, hvalue⟩ := x.value_malformed (v := .assigned c (x.print ++ '.' :: d :: y)) rfl
      hstops hpoint (digits.munch hstops) (.inr hd)
    exact tokenize_assigned fun p hp hs => hp.error?_of_fail hs hvalue

/-- The unit is refused at its place, and the other numbers at theirs. -/
theorem number_literals_refused :
    tokenize .standard ['$', 'x', ':', '1', 'f', 'o', 'o', ';'] =
        .error ⟨.invalidNumberFormat, 4, 1, .value⟩ ∧
      tokenize .standard ['$', 'x', ':', '1', '.', ';'] =
        .error ⟨.invalidNumberFormat, 3, 1, .value⟩ ∧
      tokenize .standard ['$', 'x', ':', '-', '.', '5', '.', '5', ';'] =
        .error ⟨.invalidNumberFormat, 3, 1, .value⟩ := by
  let name : Name := ⟨⟨['x'], List.all_iff_forall_prop.1 rfl⟩, by decide⟩
  let one : Written.Numeral := ⟨false, ⟨['1'], List.all_iff_forall_prop.1 rfl⟩, none, .inl (by decide)⟩
  let half : Written.Numeral :=
    ⟨true, .nil _, some ⟨⟨['5'], List.all_iff_forall_prop.1 rfl⟩, by decide⟩,
      .inr (Option.some_ne_none _)⟩
  let letters : SomeChars Char.isAlpha := ⟨⟨['f', 'o', 'o'], List.all_iff_forall_prop.1 rfl⟩, by decide⟩
  refine ⟨?_, ?_, ?_⟩
  · exact (number_literals .standard name one).2.1 letters [';'] (fun n => by cases n <;> decide)
      (Text.stops_cons rfl [])
  · exact (number_literals .standard name one).2.2.1 rfl [';'] (Text.stops_cons rfl [])
  · exact (number_literals .standard name half).2.2.2 (Option.some_ne_none _) '5' [';'] rfl

end StyleLex

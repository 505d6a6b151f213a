import StyleLex.Proofs.ExactScans

/-!
# What can be unread

The last character that was read alone can be unread, until one of some operations seals it. So what was
done with a cursor tells whether it goes back, and where to.
-/
namespace StyleLex

variable {source t tail : Text} {a : Char} {c : Cursor} {b front : ByteCursor}
  {s s' : Checkpoint ByteCursor} {o : Cursor.Operation} {answer : ByteCursor.Answer}

namespace ByteCursor

/-- An operation that was run, the cursor in front of it, and its answer. -/
structure Step where
  operation : Cursor.Operation
  before : ByteCursor
  answer : Answer

namespace Step

/-- The operation has read characters one by one. The last of them is `a`, and `front` is the cursor in
front of it. -/
inductive Reads : Step → Char → ByteCursor → Prop where
  | next (b : ByteCursor) (a : Char) : Reads ⟨.next, b, .char (some a)⟩ a b
  | accept (set : Text) {b : ByteCursor} {a : Char} (ahead : b.startsWith? [a] = some true) :
      Reads ⟨.accept set, b, .verdict true⟩ a b
  | eatWhile (p : Char → Bool) {b : ByteCursor} {t : Text} {a : Char}
      (ahead : b.startsWith? (t ++ [a]) = some true) :
      Reads ⟨.eatWhile p, b, .size (Text.byteSize (t ++ [a]))⟩ a (b.readAll t)

/-- What was read before the operation cannot be unread after it. -/
inductive Seals : Step → Prop where
  | backup (b : ByteCursor) : Seals ⟨.backup, b, .verdict true⟩
  | next (b : ByteCursor) : Seals ⟨.next, b, .char none⟩
  | eatText (t : Text) (b : ByteCursor) : Seals ⟨.eatText t, b, .verdict true⟩
  | til (d : Text) (b : ByteCursor) (p : Nat) : Seals ⟨.til d, b, .position (some p)⟩
  | ignore (b : ByteCursor) (answer : Answer) : Seals ⟨.ignore, b, answer⟩
  | ignoreSpaces (b : ByteCursor) (answer : Answer) : Seals ⟨.ignoreSpaces, b, answer⟩
  | takeLexeme (b : ByteCursor) (answer : Answer) : Seals ⟨.takeLexeme, b, answer⟩

/-- The histories of a cursor and of the copy of it behind an operation. -/
def record (step : Step) (h : Checkpoint (List Step)) : Checkpoint (List Step) :=
  match step.operation with
  | .save => h.save
  | .restore => h.restore
  | _ => ⟨step :: h.current, h.saved⟩

end Step

theorem Step.record_of_ne {step : Step} (hsave : step.operation ≠ .save)
    (hrestore : step.operation ≠ .restore) (h : Checkpoint (List Step)) :
    step.record h = ⟨step :: h.current, h.saved⟩ := by
  rw [record]
  split
  case h_1 heq => exact absurd heq hsave
  case h_2 heq => exact absurd heq hrestore
  case h_3 => rfl

/-- What was done to come to a cursor and to the copy of it, the last operation first. -/
def histories? : List Cursor.Operation → Checkpoint ByteCursor → Checkpoint (List Step) →
    Option (Checkpoint (List Step))
  | [], _, h => some h
  | o :: os, s, h => (run? s o).bind fun r => histories? os r.2 (Step.record ⟨o, s.current, r.1⟩ h)

/-- The last character that was read is `a`, where the cursor was `front`, and nothing has sealed it. -/
def Unsealed (h : List Step) (a : Char) (front : ByteCursor) : Prop :=
  ∃ later step earlier, h = later ++ step :: earlier ∧ step.Reads a front ∧
    ∀ s ∈ later, ¬ s.Seals ∧ ∀ a front, ¬ s.Reads a front

variable {step : Step} {past : List Step}

theorem not_unsealed_nil : ¬ Unsealed [] a front := by
  rintro ⟨later, step, earlier, heq, -⟩
  simp at heq

theorem unsealed_cons : Unsealed (step :: past) a front ↔ step.Reads a front ∨
    (¬ step.Seals ∧ ∀ a front, ¬ step.Reads a front) ∧ Unsealed past a front := by
  constructor
  · rintro ⟨later, s, earlier, heq, hreads, hlater⟩
    cases later with
    | nil =>
      obtain ⟨rfl, -⟩ := List.cons.inj heq
      exact .inl hreads
    | cons s' later =>
      obtain ⟨rfl, rfl⟩ := List.cons.inj heq
      exact .inr ⟨hlater _ List.mem_cons_self, later, s, earlier, rfl, hreads,
        fun s hs => hlater s (List.mem_cons_of_mem _ hs)⟩
  · rintro (hreads | ⟨hstep, later, s, earlier, rfl, hreads, hlater⟩)
    · exact ⟨[], step, past, rfl, hreads, by simp⟩
    · exact ⟨step :: later, s, earlier, rfl, hreads, List.forall_mem_cons.2 ⟨hstep, hlater⟩⟩

theorem Step.Seals.not_reads (h : step.Seals) : ¬ step.Reads a front := by
  intro hreads
  cases h <;> cases hreads

/-- The cursor has just read `a` where it was `front`. -/
def Behind (source : Text) (b : ByteCursor) (a : Char) (front : ByteCursor) : Prop :=
  ∃ c tail, Cursor.Matches source c front ∧ c.rest = a :: tail ∧ b = front.pass a

theorem readAll_concat (t : Text) (a : Char) (b : ByteCursor) :
    b.readAll (t ++ [a]) = (b.readAll t).pass a := by
  rw [readAll, List.foldl_append]
  rfl

theorem startsWith?_iff (h : Cursor.Matches source c b) :
    b.startsWith? (t ++ [a]) = some true ↔ ∃ tail, c.rest = t ++ a :: tail := by
  have hprefix : c.startsWith (t ++ [a]) = true ↔ t ++ [a] <+: c.rest :=
    List.isPrefixOf_iff_prefix
  rw [h.startsWith?, Option.some.injEq, hprefix]
  constructor
  · rintro ⟨tail, hrest⟩
    exact ⟨tail, by simp [← hrest]⟩
  · rintro ⟨tail, hrest⟩
    exact ⟨tail, by simp [hrest]⟩

/-- Behind an operation that has read characters the cursor is behind the last of them. -/
theorem Step.Reads.behind (hreads : Step.Reads ⟨o, s.current, answer⟩ a front)
    (h : Cursor.Matches source c s.current) (run : run? s o = some (answer, s')) :
    Behind source s'.current a front := by
  cases hreads with
  | next =>
    obtain ⟨_, b', hr, ⟨⟩, rfl⟩ := exists_of_edit run
    cases hrest : c.rest with
    | nil =>
      rw [next?, h.peek?, Cursor.peek, hrest] at hr
      cases hr
    | cons e tail =>
      rw [h.next?_of_cons hrest] at hr
      obtain ⟨⟨⟩, rfl⟩ := Prod.mk.inj (Option.some.inj hr)
      exact ⟨c, tail, h, hrest, rfl⟩
  | accept set ahead =>
    obtain ⟨_, b', hr, ⟨⟩, rfl⟩ := exists_of_edit run
    obtain ⟨tail, hrest⟩ := (startsWith?_iff (t := []) h).1 ahead
    rw [accept?, h.peek?, h.next?_of_cons hrest] at hr
    simp only [Option.bind_eq_bind, Option.bind_some] at hr
    split at hr
    · obtain ⟨-, rfl⟩ := Prod.mk.inj (Option.some.inj hr)
      exact ⟨c, tail, h, hrest, rfl⟩
    · cases hr
  | @eatWhile p _ t _ ahead =>
    obtain ⟨x, b', hr, hx, rfl⟩ := exists_of_edit run
    obtain ⟨tail, hrest⟩ := (startsWith?_iff h).1 ahead
    rw [h.eatWhile?_eq p] at hr
    obtain ⟨rfl, rfl⟩ := Prod.mk.inj (Option.some.inj hr)
    -- The text that is told by its size is the run that was read.
    have hrun : c.rest.takeWhile p = t ++ [a] := by
      refine Text.append_of_byteSize_eq (v := c.rest.dropWhile p) (b := tail) ?_ (Answer.size.inj hx)
      rw [List.takeWhile_append_dropWhile, hrest, List.append_assoc, List.singleton_append]
    have hfront := h.readAll hrest
    refine ⟨_, tail, hfront, ?_, ?_⟩
    · simp [hrest]
    · rw [hrun, readAll_concat]

end ByteCursor

namespace Cursor

variable {β : Type} {r : Option (β × ByteCursor)} {r' : β × Cursor} {x : β}

theorem Agrees.of_eq (h : Agrees source r r') (hr : r = some (x, b)) :
    r'.1 = x ∧ r'.2.Matches source b := by
  obtain ⟨b', hb, h'⟩ := h
  obtain ⟨rfl, rfl⟩ := Prod.mk.inj (Option.some.inj (hb.symm.trans hr))
  exact ⟨rfl, h'⟩

theorem unread_next (h : c.next.1 = none) : c.next.2.unread = false := by
  rw [next] at h ⊢
  split at h
  · rfl
  · cases h

theorem unread_backup (h : c.backup.1 = true) : c.backup.2.unread = false := by
  rw [backup] at h ⊢
  split at h
  · rfl
  · cases h

theorem unread_eatText (h : (c.eatText t).1 = true) : (c.eatText t).2.unread = false := by
  rw [eatText] at h ⊢
  by_cases hstarts : c.startsWith t = true
  · rw [if_pos hstarts]
  · rw [if_neg hstarts] at h
    cases h

theorem unread_til {d : Text} {p : Nat} (h : (c.til d).1 = some p) : (c.til d).2.unread = false := by
  rw [til] at h ⊢
  split at h
  · cases h
  · rfl

end Cursor

namespace ByteCursor

/-- Behind an operation that seals, nothing can be unread. -/
theorem Step.Seals.unread (hseals : Step.Seals ⟨o, s.current, answer⟩)
    (h : Cursor.Matches source c s.current) (run : run? s o = some (answer, s')) :
    ∃ c', Cursor.Matches source c' s'.current ∧ c'.unread = false := by
  cases hseals with
  | backup =>
    obtain ⟨_, b', hr, ⟨⟩, rfl⟩ := exists_of_edit run
    obtain ⟨hx, h'⟩ := h.backup?.of_eq hr
    exact ⟨_, h', Cursor.unread_backup hx⟩
  | next =>
    obtain ⟨_, b', hr, ⟨⟩, rfl⟩ := exists_of_edit run
    obtain ⟨hx, h'⟩ := h.next?.of_eq hr
    exact ⟨_, h', Cursor.unread_next hx⟩
  | eatText t =>
    obtain ⟨_, b', hr, ⟨⟩, rfl⟩ := exists_of_edit run
    obtain ⟨hx, h'⟩ := (h.eatText? t).of_eq hr
    exact ⟨_, h', Cursor.unread_eatText hx⟩
  | til d _ p =>
    obtain ⟨_, b', hr, ⟨⟩, rfl⟩ := exists_of_edit run
    obtain ⟨hx, h'⟩ := (h.til? d).of_eq hr
    exact ⟨_, h', Cursor.unread_til hx⟩
  | ignoreSpaces =>
    obtain ⟨_, b', hr, -, rfl⟩ := exists_of_edit run
    obtain ⟨-, h'⟩ := (h.ignoreWhile? isSpace).of_eq hr
    exact ⟨_, h', rfl⟩
  | ignore =>
    obtain ⟨-, rfl⟩ := Prod.mk.inj (Option.some.inj run)
    exact ⟨_, h.ignore, rfl⟩
  | takeLexeme =>
    obtain ⟨_, -, heq⟩ := Option.map_eq_some_iff.1 run
    obtain ⟨-, rfl⟩ := Prod.mk.inj heq
    exact ⟨_, h.ignore, rfl⟩

theorem saved_of_run? (run : run? s o = some (answer, s')) (hsave : o ≠ .save)
    (hrestore : o ≠ .restore) : s'.saved = s.saved := by
  cases o with
  | next | backup | accept _ | eatText _ | eatWhile _ | til _ | ignoreSpaces =>
    obtain ⟨_, _, -, -, rfl⟩ := exists_of_edit run
    rfl
  | peek | peekSecond | startsWith _ | takeLexeme | rest | lexeme =>
    obtain ⟨_, -, heq⟩ := Option.map_eq_some_iff.1 run
    obtain ⟨-, rfl⟩ := Prod.mk.inj heq
    rfl
  | ignore =>
    obtain ⟨-, rfl⟩ := Prod.mk.inj (Option.some.inj run)
    rfl
  | save => exact absurd rfl hsave
  | restore => exact absurd rfl hrestore

/-- An operation that neither reads single characters nor seals leaves all as it is. -/
theorem eq_of_idle (h : Cursor.Matches source c s.current) (run : run? s o = some (answer, s'))
    (hsave : o ≠ .save) (hrestore : o ≠ .restore) (hseals : ¬ Step.Seals ⟨o, s.current, answer⟩)
    (hreads : ∀ a front, ¬ Step.Reads ⟨o, s.current, answer⟩ a front) : s' = s := by
  cases o with
  | peek | peekSecond | startsWith _ | rest | lexeme =>
    obtain ⟨_, -, heq⟩ := Option.map_eq_some_iff.1 run
    obtain ⟨-, rfl⟩ := Prod.mk.inj heq
    rfl
  | save => exact absurd rfl hsave
  | restore => exact absurd rfl hrestore
  | ignore => exact absurd (.ignore _ _) hseals
  | ignoreSpaces => exact absurd (.ignoreSpaces _ _) hseals
  | takeLexeme => exact absurd (.takeLexeme _ _) hseals
  | next =>
    obtain ⟨found, _, -, rfl, -⟩ := exists_of_edit run
    cases found with
    | none => exact absurd (.next _) hseals
    | some a => exact absurd (.next _ a) (hreads a _)
  | backup =>
    obtain ⟨verdict, _, -, rfl, -⟩ := exists_of_edit run
    cases verdict with
    | true => exact absurd (.backup _) hseals
    | false => exact Fails.backup.run?_eq run
  | eatText t =>
    obtain ⟨verdict, _, -, rfl, -⟩ := exists_of_edit run
    cases verdict with
    | true => exact absurd (.eatText t _) hseals
    | false => exact (Fails.eatText t).run?_eq run
  | til d =>
    obtain ⟨found, _, -, rfl, -⟩ := exists_of_edit run
    cases found with
    | some p => exact absurd (.til d _ p) hseals
    | none => exact (Fails.til d).run?_eq run
  | accept set =>
    obtain ⟨verdict, b', hr, rfl, -⟩ := exists_of_edit run
    cases verdict with
    | true =>
      obtain ⟨verdict, b'', hr', -, haccepted⟩ := h.scans_accept set
      obtain ⟨rfl, -⟩ := Prod.mk.inj (Option.some.inj (hr.symm.trans hr'))
      obtain ⟨a, u, hrest, -⟩ := haccepted rfl
      exact absurd (.accept set ((startsWith?_iff (t := []) h).2 ⟨u, hrest⟩)) (hreads a _)
    | false => exact (Fails.accept set).run?_eq run
  | eatWhile p =>
    obtain ⟨n, b', hr, rfl, -⟩ := exists_of_edit run
    rw [h.eatWhile?_eq p] at hr
    obtain ⟨rfl, -⟩ := Prod.mk.inj (Option.some.inj hr)
    rcases List.eq_nil_or_concat (c.rest.takeWhile p) with hnil | ⟨t, a, hrun⟩
    · have hsize : (c.eatWhile p).1 = 0 := by simp [Cursor.eatWhile, hnil]
      rw [hsize] at run
      exact (Fails.eatWhile p).run?_eq run
    · rw [List.concat_eq_append] at hrun
      have hsize : (c.eatWhile p).1 = Text.byteSize (t ++ [a]) := by rw [← hrun]; rfl
      have hahead : c.rest = t ++ a :: c.rest.dropWhile p := by
        rw [← List.singleton_append, ← List.append_assoc, ← hrun, List.takeWhile_append_dropWhile]
      rw [hsize] at hreads
      exact absurd (.eatWhile p ((startsWith?_iff h).2 ⟨_, hahead⟩)) (hreads a _)

/-- The history of a cursor tells what can be unread. -/
inductive Recalls (source : Text) (b : ByteCursor) (past : List Step) : Prop where
  | sealed {c : Cursor} (stands : c.Matches source b) (unread : c.unread = false)
      (nothing : ∀ a front, ¬ Unsealed past a front)
  | read {a : Char} {front : ByteCursor} (last : Unsealed past a front)
      (behind : ∀ a front, Unsealed past a front → Behind source b a front)

theorem Recalls.matches (h : Recalls source b past) : ∃ c, Cursor.Matches source c b := by
  cases h with
  | sealed stands => exact ⟨_, stands⟩
  | read last behind =>
    obtain ⟨c, tail, hfront, hrest, rfl⟩ := behind _ _ last
    exact ⟨c.next.2, hfront.pass hrest⟩

theorem Recalls.step (h : Recalls source s.current past) (run : run? s o = some (answer, s'))
    (hsave : o ≠ .save) (hrestore : o ≠ .restore) :
    Recalls source s'.current (⟨o, s.current, answer⟩ :: past) := by
  obtain ⟨c, hc⟩ := h.matches
  by_cases hseals : Step.Seals ⟨o, s.current, answer⟩
  · obtain ⟨c', hc', hunread⟩ := hseals.unread hc run
    refine .sealed hc' hunread fun a front hlast => ?_
    rcases unsealed_cons.1 hlast with hreads | ⟨⟨hnot, -⟩, -⟩
    · exact hseals.not_reads hreads
    · exact hnot hseals
  by_cases hreads : ∃ a front, Step.Reads ⟨o, s.current, answer⟩ a front
  · obtain ⟨a, front, ha⟩ := hreads
    refine .read (unsealed_cons.2 (.inl ha)) fun a' front' hlast => ?_
    rcases unsealed_cons.1 hlast with hreads | ⟨⟨-, hnot⟩, -⟩
    · exact hreads.behind hc run
    · exact absurd ha (hnot a front)
  · -- The cursor stays as it is, and so does what the history tells.
    simp only [not_exists] at hreads
    have hcons {a : Char} {front : ByteCursor} :
        Unsealed (⟨o, s.current, answer⟩ :: past) a front ↔ Unsealed past a front := by
      rw [unsealed_cons, or_iff_right (hreads a front), and_iff_right ⟨hseals, hreads⟩]
    obtain rfl := eq_of_idle hc run hsave hrestore hseals hreads
    cases h with
    | sealed stands unread nothing =>
      exact .sealed stands unread fun a front => mt hcons.1 (nothing a front)
    | read last behind => exact .read (hcons.2 last) fun a front => behind a front ∘ hcons.1

/-- The history of a cursor and that of the copy of it tell what can be unread. -/
structure RecallsBoth (source : Text) (s : Checkpoint ByteCursor) (h : Checkpoint (List Step)) :
    Prop where
  current : Recalls source s.current h.current
  saved : Recalls source s.saved h.saved

theorem recalls_ofText (source : Text) : Recalls source (.ofText source) [] :=
  .sealed (Cursor.matches_ofText source) rfl fun _ _ => not_unsealed_nil

theorem RecallsBoth.run {h : Checkpoint (List Step)} (hs : RecallsBoth source s h)
    (o : Cursor.Operation) : ∃ answer s', run? s o = some (answer, s') ∧
      RecallsBoth source s' (Step.record ⟨o, s.current, answer⟩ h) := by
  obtain ⟨c, hc⟩ := hs.current.matches
  obtain ⟨c', hc'⟩ := hs.saved.matches
  have hboth : Cursor.MatchesBoth source ⟨c, c'⟩ s := ⟨hc, hc'⟩
  obtain ⟨s', hrun, -⟩ := hboth.run o
  refine ⟨_, s', hrun, ?_⟩
  by_cases hsave : o = .save
  · subst hsave
    obtain ⟨-, rfl⟩ := Prod.mk.inj (Option.some.inj hrun)
    exact ⟨hs.current, hs.current⟩
  by_cases hrestore : o = .restore
  · subst hrestore
    obtain ⟨-, rfl⟩ := Prod.mk.inj (Option.some.inj hrun)
    exact ⟨hs.saved, hs.saved⟩
  have hcurrent := hs.current.step hrun hsave hrestore
  have hsaved := saved_of_run? hrun hsave hrestore
  rw [Step.record_of_ne hsave hrestore]
  refine ⟨hcurrent, ?_⟩
  rw [hsaved]
  exact hs.saved

theorem RecallsBoth.after {h : Checkpoint (List Step)} (hs : RecallsBoth source s h)
    (os : List Cursor.Operation) : ∃ s' h', after? os s = some s' ∧ histories? os s h = some h' ∧
      RecallsBoth source s' h' := by
  induction os generalizing s h with
  | nil => exact ⟨s, h, rfl, rfl, hs⟩
  | cons o os ih =>
    obtain ⟨answer, q, hrun, hq⟩ := hs.run o
    obtain ⟨s', h', hafter, hhistories, hs'⟩ := ih hq
    refine ⟨s', h', ?_, ?_, hs'⟩
    · rw [after?, hrun, Option.bind_some, hafter]
    · rw [histories?, hrun, Option.bind_some, hhistories]

/-- Behind a character the cursor goes back to where it was in front of it. -/
theorem Behind.backup? (h : Behind source b a front) : b.backup? =
    some (true, { b with pos := front.pos, line := front.line, lastWidth := 0 }) := by
  obtain ⟨c, tail, hfront, hrest, rfl⟩ := h
  have hb := hfront.pass hrest
  have hpending : c.next.2.pending = a :: c.pending := by
    rw [Cursor.next, hrest]
    rfl
  have hpos : c.next.2.pos - a.utf8Size = front.pos := by
    rw [← hb.pos, pass, Nat.add_sub_cancel]
  have hline : c.next.2.line - Text.newlines [a] = front.line := by
    rw [← hb.line, pass, Text.newlines_cons]
    by_cases ha : a = '\n' <;> simp [ha]
  rw [hb.backup?_eq_of_last hpending rfl, hpos, hline]

/-- The character that was unread is read again. -/
theorem Behind.next? (h : Behind source b a front) :
    ({ b with pos := front.pos, line := front.line, lastWidth := 0 } : ByteCursor).next? =
      some (some a, b) := by
  obtain ⟨c, tail, hfront, hrest, rfl⟩ := h
  have hpeek : ({ front.pass a with pos := front.pos, line := front.line, lastWidth := 0 } :
      ByteCursor).peek? = some (some a) := by
    rw [← List.head?_cons (a := a) (l := tail), List.head?_eq_getElem?, ← hrest]
    exact hfront.peek?
  rw [ByteCursor.next?, hpeek]
  rfl

/-- Whatever was done with a cursor, it goes back if and only if a character was read alone and nothing
was done since that seals it. Then it stands in front of that character again, and reads it again. It
does not go back twice. -/
theorem backup_by_history (source : Text) (os : List Cursor.Operation) :
    ∃ s h, after? os (.new (.ofText source)) = some s ∧
      histories? os (.new (.ofText source)) (.new []) = some h ∧
      ∃ verdict b, s.current.backup? = some (verdict, b) ∧
        (verdict = true ↔ ∃ a front, Unsealed h.current a front) ∧
        (verdict = false → b = s.current) ∧
        (∀ a front, Unsealed h.current a front → front.pos + a.utf8Size = s.current.pos ∧
          b = { s.current with pos := front.pos, line := front.line, lastWidth := 0 } ∧
          b.next? = some (some a, s.current)) ∧
        b.backup? = some (false, b) := by
  have hstart : RecallsBoth source (.new (.ofText source)) (.new []) :=
    ⟨recalls_ofText source, recalls_ofText source⟩
  obtain ⟨s, h, hafter, hhistories, hs⟩ := hstart.after os
  refine ⟨s, h, hafter, hhistories, ?_⟩
  cases hs.current with
  | @sealed c stands unread nothing =>
    obtain ⟨b, hb, -⟩ := stands.backup?
    have hno : c.backup.1 = false := by rw [Cursor.backup, unread]
    rw [hno] at hb
    obtain rfl := eq_of_backup? hb
    exact ⟨false, _, hb, by simp [nothing], fun _ => rfl,
      fun a front hlast => absurd hlast (nothing a front), hb⟩
  | @read a front last behind =>
    refine ⟨true, _, (behind a front last).backup?, by simpa using ⟨a, front, last⟩, by simp, ?_, ?_⟩
    · intro a' front' hlast
      have hbehind := behind a' front' hlast
      have hsame := hbehind.backup?.symm.trans (behind a front last).backup?
      obtain ⟨-, heq⟩ := Prod.mk.inj (Option.some.inj hsame)
      rw [← heq]
      refine ⟨?_, rfl, hbehind.next?⟩
      obtain ⟨_, _, _, _, hpass⟩ := hbehind
      rw [hpass]
      rfl
    · rw [backup?, if_pos rfl]

-- The size of a character that was dropped is still remembered, but only the copy can go back.
example : (trace? [.next, .save, .ignore, .backup, .restore, .backup, .backup]
      (.new (.ofText ['é']))).map (·.map fun r => (r.1, r.2.pos)) =
    some [(.char (some 'é'), 2), (.nothing, 2), (.nothing, 2), (.verdict false, 2), (.nothing, 2),
      (.verdict true, 0), (.verdict false, 0)] := rfl

end ByteCursor

end StyleLex

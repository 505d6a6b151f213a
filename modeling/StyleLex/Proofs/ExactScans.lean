import StyleLex.Proofs.CursorSoundness

/-!
# What a cursor finds ahead

A search stops in front of the first occurrence, a run is the longest one, and a text or a character is
read if it is ahead. An operation that finds nothing leaves the cursor as it is, what may be unread
included.
-/
namespace StyleLex

variable {source t tail d : Text} {c : Cursor} {b b' : ByteCursor} {s s' : Checkpoint ByteCursor}
  {o : Cursor.Operation} {answer : ByteCursor.Answer}

namespace ByteCursor

/-- The cursors behind a sequence of operations, if all have a result. -/
def after? : List Cursor.Operation → Checkpoint ByteCursor → Option (Checkpoint ByteCursor)
  | [], s => some s
  | o :: os, s => (run? s o).bind fun r => after? os r.2

/-- The cursor has moved over `t`, and `tail` is ahead. The pending lexeme begins where it did. -/
structure Moved (b : ByteCursor) (t tail : Text) (b' : ByteCursor) : Prop where
  rest : b'.rest? = some tail.utf8
  pos : b'.pos = b.pos + t.byteSize
  line : b'.line = b.line + t.newlines
  start : b'.start = b.start
  startLine : b'.startLine = b.startLine

/-- What the operations that look for something do in front of `ahead`. -/
structure Scans (b : ByteCursor) (ahead : Text) : Prop where
  til (d : Text) : ∃ found b', b.til? d = some (found, b') ∧
    (found.isSome = true ↔ d <:+: ahead) ∧
    ∀ p, found = some p → ∃ t u, Text.First d ahead t u ∧ b.Moved t u b' ∧
      p = b.pos + t.byteSize ∧ p = b'.pos
  eatWhile (p : Char → Bool) : ∃ t u b', b.eatWhile? p = some (t.byteSize, b') ∧
    ahead = t ++ u ∧ (∀ a ∈ t, p a = true) ∧ (∀ w, w <+: ahead → (∀ a ∈ w, p a = true) → w <+: t) ∧
    b.Moved t u b'
  eatText (t : Text) : ∃ verdict b', b.eatText? t = some (verdict, b') ∧
    (verdict = true ↔ t <+: ahead) ∧
    (verdict = true → ∃ u, ahead = t ++ u ∧ b.Moved t u b')
  accept (set : Text) : ∃ verdict b', b.accept? set = some (verdict, b') ∧
    (verdict = true ↔ ∃ a ∈ set, [a] <+: ahead) ∧
    (verdict = true → ∃ a u, ahead = a :: u ∧ b.Moved [a] u b')

/-- The operation with this answer has found nothing. -/
inductive Fails : Cursor.Operation → Answer → Prop where
  | til (d : Text) : Fails (.til d) (.position none)
  | eatText (t : Text) : Fails (.eatText t) (.verdict false)
  | accept (set : Text) : Fails (.accept set) (.verdict false)
  | backup : Fails .backup (.verdict false)
  | eatWhile (p : Char → Bool) : Fails (.eatWhile p) (.size 0)

theorem eq_of_backup? (h : b.backup? = some (false, b')) : b' = b := by
  rw [backup?] at h
  split at h
  case isTrue => simpa [eq_comm] using h
  case isFalse =>
    simp only [Option.bind_eq_bind, Option.bind_eq_some_iff] at h
    obtain ⟨pos, -, h⟩ := h
    split at h
    case isTrue => simpa [eq_comm] using h
    case isFalse => simp [Option.bind_eq_some_iff] at h

theorem readWhile?_stays_or (p : Char → Bool) (h : b.readWhile? p = some b') :
    b' = b ∨ b.pos < b'.pos := by
  fun_induction readWhile? p b with
  | case1 => cases h
  | case2 => exact .inl (Option.some.inj h).symm
  | case3 b a _ _ ih =>
    have hpass : b.pos < (b.pass a).pos := Nat.lt_add_of_pos_right a.utf8Size_pos
    rcases ih h with rfl | hlt
    · exact .inr hpass
    · exact .inr (hpass.trans hlt)
  | case4 => exact .inl (Option.some.inj h).symm

theorem eq_of_eatWhile? {p : Char → Bool} (h : b.eatWhile? p = some (0, b')) : b' = b := by
  simp only [eatWhile?, Option.bind_eq_bind, Option.bind_eq_some_iff] at h
  obtain ⟨c, hread, size, hsize, h⟩ := h
  obtain ⟨rfl, rfl⟩ := Prod.mk.inj (Option.some.inj h)
  rcases readWhile?_stays_or p hread with rfl | hlt
  · rfl
  · rw [sub?, if_pos hlt.le] at hsize
    have hzero := Option.some.inj hsize
    omega

theorem eq_of_til? (h : b.til? d = some (none, b')) : b' = b := by
  simp only [til?, Option.bind_eq_bind, Option.bind_eq_some_iff] at h
  obtain ⟨ahead, -, h⟩ := h
  split at h
  · simpa [eq_comm] using h
  · simp [Option.bind_eq_some_iff] at h

theorem eq_of_eatText? (h : b.eatText? t = some (false, b')) : b' = b := by
  simp only [eatText?, Option.bind_eq_bind, Option.bind_eq_some_iff] at h
  obtain ⟨starts, -, h⟩ := h
  split at h
  · simp at h
  · simpa [eq_comm] using h

theorem eq_of_accept? {set : Text} (h : b.accept? set = some (false, b')) : b' = b := by
  simp only [accept?, Option.bind_eq_bind, Option.bind_eq_some_iff] at h
  obtain ⟨found, -, h⟩ := h
  split at h
  · simp [Option.bind_eq_some_iff] at h
  · simpa [eq_comm] using h

theorem exists_of_edit {β : Type} {f : β → Answer} {r : Option (β × ByteCursor)}
    (h : edit f s r = some (answer, s')) :
    ∃ x b, r = some (x, b) ∧ f x = answer ∧ s' = ⟨b, s.saved⟩ := by
  obtain ⟨⟨x, b⟩, hr, heq⟩ := Option.map_eq_some_iff.1 h
  obtain ⟨hanswer, hs⟩ := Prod.mk.inj heq
  exact ⟨x, b, hr, hanswer, hs.symm⟩

/-- An operation that has found nothing leaves all as it is. -/
theorem Fails.run?_eq (h : Fails o answer) (run : run? s o = some (answer, s')) : s' = s := by
  cases h with
  | til d =>
    obtain ⟨_, b, hr, ⟨⟩, rfl⟩ := exists_of_edit run
    rw [eq_of_til? hr]
  | eatText t =>
    obtain ⟨_, b, hr, ⟨⟩, rfl⟩ := exists_of_edit run
    rw [eq_of_eatText? hr]
  | accept set =>
    obtain ⟨_, b, hr, ⟨⟩, rfl⟩ := exists_of_edit run
    rw [eq_of_accept? hr]
  | backup =>
    obtain ⟨_, b, hr, ⟨⟩, rfl⟩ := exists_of_edit run
    rw [eq_of_backup? hr]
  | eatWhile p =>
    obtain ⟨_, b, hr, ⟨⟩, rfl⟩ := exists_of_edit run
    rw [eq_of_eatWhile? hr]

/-- An operation that has found nothing adds its answer to those of later operations. -/
theorem Fails.trace?_cons (h : Fails o answer) (run : run? s o = some (answer, s'))
    (later : List Cursor.Operation) :
    trace? (o :: later) s = (trace? later s).map ((answer, s.current) :: ·) := by
  obtain rfl := h.run?_eq run
  rw [trace?, run, Option.bind_some]

end ByteCursor

namespace Cursor

/-- A cursor over bytes moves as the cursor over text does. -/
theorem Matches.moved (h : c.Matches source b) {unread : Bool}
    (h' : ({ c.advance t with unread } : Cursor).Matches source b') (ahead : c.rest = t ++ tail) :
    b.Moved t tail b' where
  rest := by
    rw [h'.rest?, rest_advance, ahead, List.drop_left]
  pos := by rw [h'.pos, h.pos, Cursor.advance]
  line := by rw [h'.line, h.line, Cursor.advance]
  start := by rw [h'.start, h.start, Cursor.advance]
  startLine := by rw [h'.startLine, h.startLine, Cursor.advance]

namespace Matches

theorem scans_til (h : c.Matches source b) (d : Text) : ∃ found b', b.til? d = some (found, b') ∧
    (found.isSome = true ↔ d <:+: c.rest) ∧
    ∀ p, found = some p → ∃ t u, Text.First d c.rest t u ∧ b.Moved t u b' ∧
      p = b.pos + t.byteSize ∧ p = b'.pos := by
  obtain ⟨b', hb, h'⟩ := h.til? d
  refine ⟨(c.til d).1, b', hb, ?_⟩
  rw [Cursor.til] at h' ⊢
  cases hfound : c.rest.upTo? d with
  | none => simpa using Text.not_isInfix_of_upTo?_eq_none hfound
  | some t =>
    rw [hfound] at h'
    obtain ⟨u, hfirst⟩ := Text.exists_first hfound
    have hmoved := h.moved h' hfirst.split
    refine ⟨by simpa using hfirst.isInfix, ?_⟩
    rintro p ⟨⟩
    refine ⟨t, u, hfirst, hmoved, ?_, ?_⟩
    · rw [h.pos]
    · rw [hmoved.pos, h.pos]

theorem scans_eatWhile (h : c.Matches source b) (p : Char → Bool) : ∃ t u b',
    b.eatWhile? p = some (t.byteSize, b') ∧ c.rest = t ++ u ∧ (∀ a ∈ t, p a = true) ∧
      (∀ w, w <+: c.rest → (∀ a ∈ w, p a = true) → w <+: t) ∧ b.Moved t u b' := by
  obtain ⟨b', hb, h'⟩ := h.eatWhile? p
  have hmunch := Text.munch p c.rest
  exact ⟨_, _, b', hb, hmunch.split, hmunch.inside, fun w => hmunch.longest,
    h.moved h' hmunch.split⟩

theorem scans_eatText (h : c.Matches source b) (t : Text) : ∃ verdict b',
    b.eatText? t = some (verdict, b') ∧ (verdict = true ↔ t <+: c.rest) ∧
      (verdict = true → ∃ u, c.rest = t ++ u ∧ b.Moved t u b') := by
  obtain ⟨b', hb, h'⟩ := h.eatText? t
  refine ⟨(c.eatText t).1, b', hb, ?_⟩
  have hstarts : c.startsWith t = true ↔ t <+: c.rest := List.isPrefixOf_iff_prefix
  rw [Cursor.eatText] at h' ⊢
  by_cases hahead : t <+: c.rest
  · rw [if_pos (hstarts.2 hahead)] at h' ⊢
    obtain ⟨u, hu⟩ := hahead
    exact ⟨iff_of_true rfl ⟨u, hu⟩, fun _ => ⟨u, hu.symm, h.moved h' hu.symm⟩⟩
  · rw [if_neg (mt hstarts.1 hahead)]
    exact ⟨iff_of_false Bool.false_ne_true hahead, fun hv => absurd hv Bool.false_ne_true⟩

theorem scans_accept (h : c.Matches source b) (set : Text) : ∃ verdict b',
    b.accept? set = some (verdict, b') ∧ (verdict = true ↔ ∃ a ∈ set, [a] <+: c.rest) ∧
      (verdict = true → ∃ a u, c.rest = a :: u ∧ b.Moved [a] u b') := by
  obtain ⟨b', hb, h'⟩ := h.accept? set
  refine ⟨(c.accept set).1, b', hb, ?_⟩
  rw [Cursor.accept] at h' ⊢
  cases hrest : c.rest with
  | nil => simp [peek, hrest]
  | cons a u =>
    have hpeek : c.peek.any set.contains = true ↔ a ∈ set := by simp [peek, hrest]
    have hmember : (∃ e ∈ set, [e] <+: a :: u) ↔ a ∈ set := by simp
    by_cases ha : a ∈ set
    · have hnext : c.next.2 = { c.advance [a] with unread := true } := by rw [Cursor.next, hrest]
      rw [if_pos (hpeek.2 ha), hnext] at h'
      rw [if_pos (hpeek.2 ha)]
      exact ⟨iff_of_true rfl (hmember.2 ha), fun _ => ⟨a, u, rfl, h.moved h' hrest⟩⟩
    · rw [if_neg (mt hpeek.1 ha)]
      exact ⟨iff_of_false Bool.false_ne_true (mt hmember.1 ha),
        fun hv => absurd hv Bool.false_ne_true⟩

theorem scans (h : c.Matches source b) : b.Scans c.rest :=
  ⟨h.scans_til, h.scans_eatWhile, h.scans_eatText, h.scans_accept⟩

end Matches

theorem MatchesBoth.after {r : Checkpoint Cursor} (h : MatchesBoth source r s)
    (os : List Operation) :
    ∃ r' s', ByteCursor.after? os s = some s' ∧ MatchesBoth source r' s' := by
  induction os generalizing r s with
  | nil => exact ⟨r, s, rfl, h⟩
  | cons o os ih =>
    obtain ⟨q, hrun, hq⟩ := h.run o
    obtain ⟨r', s', hafter, h'⟩ := ih hq
    refine ⟨r', s', ?_, h'⟩
    rw [ByteCursor.after?, hrun, Option.bind_some, hafter]

end Cursor

/-- Whatever was done with a cursor, it finds what is ahead exactly, and an operation that finds nothing
changes no answer that is given after it. -/
theorem ByteCursor.scans_exact (source : Text) (os : List Cursor.Operation) :
    ∃ s ahead, after? os (.new (.ofText source)) = some s ∧
      s.current.rest? = some (Text.utf8 ahead) ∧ s.current.Scans ahead ∧
      ∀ o, ∃ answer s', run? s o = some (answer, s') ∧ (Fails o answer → s' = s ∧
        ∀ later, trace? (o :: later) s = (trace? later s).map ((answer, s.current) :: ·)) := by
  obtain ⟨r, s, hafter, hmatches⟩ := (Cursor.matchesBoth_start source).after os
  refine ⟨s, r.current.rest, hafter, hmatches.current.rest?, hmatches.current.scans, fun o => ?_⟩
  obtain ⟨s', hrun, -⟩ := hmatches.run o
  exact ⟨_, s', hrun, fun hfails => ⟨hfails.run?_eq hrun, hfails.trace?_cons hrun⟩⟩

end StyleLex

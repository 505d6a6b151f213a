import StyleLex.Proofs.CursorSoundness

/-!
# Lexemes never overlap

Only `restore` leads back in front of the pending lexeme. Without it the start of that lexeme never goes
back, and what is taken are slices of the source one behind the other, whatever is unread between them.
-/
namespace StyleLex

variable {source before t : Text} {m n : Nat} {l : Lexeme} {ls : List Lexeme}

/-- The lexeme is a part of `source` and tells its place. -/
def Lexeme.SliceOf (source : Text) (l : Lexeme) : Prop :=
  ∃ before behind, source = before ++ (l.text ++ behind) ∧
    l.offset = before.byteSize ∧ l.line = 1 + before.newlines

/-- Parts of `source` that stand one behind the other, none of them in front of `start`. -/
structure InOrder (source : Text) (start : Nat) (ls : List Lexeme) : Prop where
  slices : ∀ l ∈ ls, l.SliceOf source
  behind : ∀ l ∈ ls, start ≤ l.offset
  disjoint : ls.Pairwise fun l l' => l.stop ≤ l'.offset

namespace InOrder

theorem nil : InOrder source n [] := ⟨by simp, by simp, .nil⟩

theorem mono (h : InOrder source n ls) (hle : m ≤ n) : InOrder source m ls :=
  ⟨h.slices, fun l hl => hle.trans (h.behind l hl), h.disjoint⟩

theorem cons (hl : l.SliceOf source) (h : InOrder source l.stop ls) :
    InOrder source l.offset (l :: ls) where
  slices := List.forall_mem_cons.2 ⟨hl, h.slices⟩
  behind := List.forall_mem_cons.2
    ⟨le_rfl, fun l' hl' => (Nat.le_add_right _ _).trans (h.behind l' hl')⟩
  disjoint := List.pairwise_cons.2 ⟨h.behind, h.disjoint⟩

end InOrder

namespace Cursor

variable {c : Cursor} {s : Checkpoint Cursor} {o : Operation} {os : List Operation} {a : Answer}

def Answer.lexeme? : Answer → Option Lexeme
  | .lexeme taken => some taken
  | _ => none

namespace Operation

/-- The lexemes that a sequence of operations takes. -/
def lexemes (os : List Operation) (s : Checkpoint Cursor) : List Lexeme :=
  (trace os s).filterMap (·.1.lexeme?)

/-- Where the pending lexeme starts after each operation. -/
def starts (os : List Operation) (s : Checkpoint Cursor) : List Nat :=
  (trace os s).map (·.2.start)

@[simp] theorem lexemes_nil (s : Checkpoint Cursor) : lexemes [] s = [] := rfl

@[simp] theorem starts_nil (s : Checkpoint Cursor) : starts [] s = [] := rfl

@[simp] theorem lexemes_cons (o : Operation) (os : List Operation) (s : Checkpoint Cursor) :
    lexemes (o :: os) s = (o.run s).1.lexeme?.toList ++ lexemes os (o.run s).2 := by
  rw [lexemes, trace, List.filterMap_cons]
  cases (o.run s).1.lexeme? <;> rfl

@[simp] theorem starts_cons (o : Operation) (os : List Operation) (s : Checkpoint Cursor) :
    starts (o :: os) s = (o.run s).2.current.start :: starts os (o.run s).2 := rfl

end Operation

/-- What becomes of the text `t` behind `before` when the pending lexeme starts behind it: it is taken
or dropped, or there is none of it. -/
inductive Leaves (before : Text) : Operation → Option Lexeme → Text → Prop where
  | taken (t : Text) : Leaves before .takeLexeme (some ⟨t, before.byteSize, 1 + before.newlines⟩) t
  | ignored (t : Text) : Leaves before .ignore none t
  | ignoredSpaces (t : Text) : Leaves before .ignoreSpaces none t
  | stays {o : Operation} : Leaves before o none []

theorem Stands.stays (h : c.Stands source before) (o : Operation) :
    ∃ t, c.Stands source (before ++ t) ∧ Leaves before o none t :=
  ⟨[], by rwa [List.append_nil], .stays⟩

theorem Stands.run (h : s.current.Stands source before) (ho : .restore ≠ o) :
    ∃ t, (o.run s).2.current.Stands source (before ++ t) ∧ Leaves before o (o.run s).1.lexeme? t := by
  cases o with
  | next => exact h.next.stays _
  | backup => exact h.backup.stays _
  | accept set => exact (h.accept set).stays _
  | eatText t => exact (h.eatText t).stays _
  | eatWhile p => exact (h.eatWhile p).stays _
  | til d => exact (h.til d).stays _
  | peek | peekSecond | startsWith _ | rest | lexeme | save => exact h.stays _
  | ignoreSpaces => exact ⟨_, (h.eatWhile isSpace).ignore, .ignoredSpaces _⟩
  | ignore => exact ⟨_, h.ignore, .ignored _⟩
  | takeLexeme =>
    refine ⟨_, h.ignore, ?_⟩
    have htaken : (Operation.takeLexeme.run s).1.lexeme? =
        some ⟨s.current.lexeme, before.byteSize, 1 + before.newlines⟩ := by
      rw [← h.start, ← h.startLine]
      rfl
    rw [htaken]
    exact .taken _
  | restore => exact absurd rfl ho

section Trace

variable (h : s.current.Stands source before) (kept : .restore ∉ os)

include h kept

/-- The start of the pending lexeme never goes back. -/
theorem Stands.starts : (before.byteSize :: Operation.starts os s).Pairwise (· ≤ ·) := by
  induction os generalizing s before with
  | nil => exact List.pairwise_singleton _ _
  | cons o os ih =>
    obtain ⟨ho, hos⟩ := not_or.1 (mt List.mem_cons.2 kept)
    obtain ⟨t, hrun, -⟩ := h.run ho
    have hle : before.byteSize ≤ (o.run s).2.current.start := by
      rw [hrun.start, Text.byteSize_append]
      exact Nat.le_add_right _ _
    have htail := ih hrun hos
    rw [← hrun.start] at htail
    refine List.pairwise_cons.2 ⟨?_, htail⟩
    exact List.forall_mem_cons.2 ⟨hle, fun n hn => hle.trans ((List.pairwise_cons.1 htail).1 n hn)⟩

/-- What is taken stands behind all that was taken or dropped before. -/
theorem Stands.lexemes : InOrder source before.byteSize (Operation.lexemes os s) := by
  induction os generalizing s before with
  | nil => exact .nil
  | cons o os ih =>
    obtain ⟨ho, hos⟩ := not_or.1 (mt List.mem_cons.2 kept)
    obtain ⟨t, hrun, hleaves⟩ := h.run ho
    have htail := ih hrun hos
    rw [Text.byteSize_append] at htail
    rw [Operation.lexemes_cons]
    generalize (o.run s).1.lexeme? = taken at hleaves
    cases hleaves with
    | taken =>
      have hsplit := hrun.split
      rw [List.append_assoc] at hsplit
      exact InOrder.cons (l := ⟨t, before.byteSize, 1 + before.newlines⟩)
        ⟨before, _, hsplit, rfl, rfl⟩ htail
    | ignored | ignoredSpaces | stays => exact htail.mono (Nat.le_add_right _ _)

/-- Where nothing is dropped, what was taken is all the text in front of the pending lexeme. -/
theorem Stands.lexemes_eq (hi : .ignore ∉ os) (hs : .ignoreSpaces ∉ os) :
    ∃ behind, source = before ++ ((Operation.lexemes os s).flatMap (·.text) ++ behind) ∧
      (Operation.starts os s).getLastD before.byteSize =
        (before ++ (Operation.lexemes os s).flatMap (·.text)).byteSize := by
  induction os generalizing s before with
  | nil => exact ⟨s.current.lexeme ++ s.current.rest, by simpa using h.split, by simp⟩
  | cons o os ih =>
    obtain ⟨ho, hos⟩ := not_or.1 (mt List.mem_cons.2 kept)
    obtain ⟨hoi, hosi⟩ := not_or.1 (mt List.mem_cons.2 hi)
    obtain ⟨hospaces, hosspaces⟩ := not_or.1 (mt List.mem_cons.2 hs)
    obtain ⟨t, hrun, hleaves⟩ := h.run ho
    obtain ⟨behind, hsplit, hstart⟩ := ih hrun hos hosi hosspaces
    have htaken : t = (o.run s).1.lexeme?.toList.flatMap (·.text) := by
      generalize (o.run s).1.lexeme? = taken at hleaves
      cases hleaves with
      | taken => simp
      | ignored => exact absurd rfl hoi
      | ignoredSpaces => exact absurd rfl hospaces
      | stays => rfl
    refine ⟨behind, ?_, ?_⟩
    · rw [Operation.lexemes_cons, List.flatMap_append, ← htaken, List.append_assoc, ← List.append_assoc]
      exact hsplit
    · rw [Operation.starts_cons, List.getLastD_cons, hrun.start, hstart, Operation.lexemes_cons,
        List.flatMap_append, ← htaken, List.append_assoc]

end Trace

end Cursor

namespace ByteCursor

/-- A lexeme of a cursor over bytes. -/
structure Slice where
  text : Bytes
  offset : Nat
  line : Nat

def Slice.stop (l : Slice) : Nat := l.offset + l.text.length

def Slice.ofLexeme (l : Lexeme) : Slice := ⟨l.text.utf8, l.offset, l.line⟩

def Answer.slice? : Answer → Option Slice
  | .lexeme t offset line => some ⟨t, offset, line⟩
  | _ => none

/-- The lexemes among the answers. -/
def taken (steps : List (Answer × ByteCursor)) : List Slice := steps.filterMap (·.1.slice?)

/-- Where the pending lexeme starts after each operation. -/
def starts (steps : List (Answer × ByteCursor)) : List Nat := steps.map (·.2.start)

@[simp] theorem slice?_ofAnswer (a : Cursor.Answer) :
    (Answer.ofAnswer a).slice? = a.lexeme?.map .ofLexeme := by
  cases a <;> rfl

@[simp] theorem stop_ofLexeme (l : Lexeme) : (Slice.ofLexeme l).stop = l.stop := by
  simp [Slice.stop, Slice.ofLexeme, Lexeme.stop]

theorem flatMap_ofLexeme (ls : List Lexeme) :
    (ls.map Slice.ofLexeme).flatMap (·.text) = Text.utf8 (ls.flatMap (·.text)) := by
  induction ls with
  | nil => rfl
  | cons l ls ih =>
    rw [List.map_cons, List.flatMap_cons, ih, List.flatMap_cons, Text.utf8_append]
    rfl

/-- The cursor over bytes takes what the cursor over text takes, and starts its lexemes there. -/
theorem exists_steps (source : Text) (os : List Cursor.Operation) :
    ∃ steps, trace? os (.new (.ofText source)) = some steps ∧
      taken steps = (Cursor.Operation.lexemes os (.new (.ofText source))).map .ofLexeme ∧
      starts steps = Cursor.Operation.starts os (.new (.ofText source)) := by
  obtain ⟨steps, htrace, hsteps⟩ := (Cursor.matchesBoth_start source).trace os
  refine ⟨steps, htrace, ?_, ?_⟩
  · have htaken := congrArg (List.filterMap (·.1.slice?)) hsteps
    simp only [List.filterMap_map, Function.comp_def, slice?_ofAnswer] at htaken
    rw [taken, htaken, Cursor.Operation.lexemes, List.map_filterMap]
  · have hstarts := congrArg (List.map (·.2.start)) hsteps
    rw [List.map_map, List.map_map] at hstarts
    exact hstarts

theorem slice?_ofLexeme (h : l.SliceOf source) :
    source.utf8.slice? (Slice.ofLexeme l).offset (Slice.ofLexeme l).stop =
        some (Slice.ofLexeme l).text ∧
      (Slice.ofLexeme l).line = 1 + Bytes.newlines (source.utf8.take (Slice.ofLexeme l).offset) := by
  obtain ⟨before, behind, rfl, hoffset, hline⟩ := h
  have hstop : l.stop = (before ++ l.text).byteSize := by
    rw [Lexeme.stop, hoffset, Text.byteSize_append]
  have hplace := place_behind before (l.text ++ behind)
  refine ⟨?_, ?_⟩
  · have hslice := Bytes.slice?_utf8 before l.text behind
    rw [stop_ofLexeme, hstop, Slice.ofLexeme, hoffset]
    exact hslice
  · simpa only [Slice.ofLexeme, hoffset, hline] using hplace.line

/-- Whatever is done with a cursor that is never set back to a copy, the start of its pending lexeme
never goes back, and what it takes are slices of the source, each behind the one before. Where nothing
is dropped they make up all the text in front of that start. -/
theorem taken_in_order (source : Text) {os : List Cursor.Operation} (kept : .restore ∉ os) :
    ∃ steps, trace? os (.new (.ofText source)) = some steps ∧
      (starts steps).Pairwise (· ≤ ·) ∧
      (taken steps).Pairwise (fun l l' => l.stop ≤ l'.offset) ∧
      (∀ l ∈ taken steps, source.utf8.slice? l.offset l.stop = some l.text ∧
        l.line = 1 + Bytes.newlines (source.utf8.take l.offset)) ∧
      (.ignore ∉ os → .ignoreSpaces ∉ os →
        source.utf8.slice? 0 ((starts steps).getLastD 0) = some ((taken steps).flatMap (·.text))) := by
  obtain ⟨steps, htrace, htaken, hstarts⟩ := exists_steps source os
  have hstands : (Checkpoint.new (Cursor.ofText source)).current.Stands source [] :=
    Cursor.stands_ofText source
  have hlexemes := hstands.lexemes kept
  refine ⟨steps, htrace, ?_, ?_, ?_, ?_⟩
  · rw [hstarts]
    exact (List.pairwise_cons.1 (hstands.starts kept)).2
  · rw [htaken, List.pairwise_map]
    exact hlexemes.disjoint.imp fun hle => by rwa [stop_ofLexeme]
  · rw [htaken]
    exact List.forall_mem_map.2 fun l hl => slice?_ofLexeme (hlexemes.slices l hl)
  · intro hi hs
    obtain ⟨behind, hsplit, hstart⟩ := hstands.lexemes_eq kept hi hs
    have htexts : (taken steps).flatMap (·.text) = Text.utf8
        ((Cursor.Operation.lexemes os (.new (.ofText source))).flatMap (·.text)) := by
      rw [htaken, flatMap_ofLexeme]
    generalize (Cursor.Operation.lexemes os _).flatMap (·.text) = t at htexts hsplit hstart
    have hslice := Bytes.slice?_utf8 [] t behind
    rw [← hsplit, ← hstart, ← hstarts] at hslice
    rw [htexts]
    exact hslice

/-- The space behind the first lexeme is not given back to the second one. -/
theorem taken_in_order_backup :
    let os : List Cursor.Operation := [.next, .next, .takeLexeme, .backup, .next, .takeLexeme]
    .restore ∉ os ∧ ∃ steps, trace? os (.new (.ofText ['a', ' ', 'b'])) = some steps ∧
      taken steps = [⟨[97, 32], 0, 1⟩, ⟨[98], 2, 1⟩] ∧
      (taken steps).Pairwise (fun l l' => l.stop ≤ l'.offset) ∧
      (Text.utf8 ['a', ' ', 'b']).slice? 0 ((starts steps).getLastD 0) =
        some ((taken steps).flatMap (·.text)) := by
  intro os
  have kept : .restore ∉ os := by simp [os]
  obtain ⟨steps, htrace, -, hdisjoint, -, hwhole⟩ := taken_in_order ['a', ' ', 'b'] kept
  refine ⟨kept, steps, htrace, ?_, hdisjoint, hwhole (by simp [os]) (by simp [os])⟩
  obtain ⟨steps', htrace', htaken, -⟩ := exists_steps ['a', ' ', 'b'] os
  obtain rfl : steps' = steps := Option.some.inj (htrace'.symm.trans htrace)
  rw [htaken]
  rfl

end ByteCursor

end StyleLex

import StyleLex.Session
import Mathlib.Data.Nat.Count

/-!
# Scripts with handles left out

Of a script some handles are kept. The commands that open or ask another handle are left out, and the
kept handles are numbered anew.
-/
namespace StyleLex

/-- The number of a handle when only the kept ones are opened. -/
def renumber (keep : Nat → Bool) (id : Nat) : Nat := Nat.count (fun i => keep i = true) id

variable {keep : Nat → Bool} {id n : Nat}

theorem renumber_succ_of_keep (h : keep id = true) :
    renumber keep (id + 1) = renumber keep id + 1 := by
  rw [renumber, Nat.count_succ, if_pos h, renumber]

theorem renumber_succ_of_not_keep (h : ¬ keep id = true) :
    renumber keep (id + 1) = renumber keep id := by
  rw [renumber, Nat.count_succ, if_neg h, Nat.add_zero, renumber]

theorem renumber_inj {id' : Nat} (h : keep id = true) (h' : keep id' = true)
    (heq : renumber keep id = renumber keep id') : id = id' :=
  Nat.count_injective h h' heq

/-- Every new number is that of a kept handle. -/
theorem exists_of_lt_renumber (h : n < renumber keep id) :
    ∃ i, keep i = true ∧ renumber keep i = n := by
  induction id with
  | zero => cases h
  | succ id ih =>
    by_cases hkeep : keep id = true
    · rw [renumber_succ_of_keep hkeep] at h
      rcases Nat.lt_succ_iff_lt_or_eq.1 h with hlt | rfl
      · exact ih hlt
      · exact ⟨id, hkeep, rfl⟩
    · rw [renumber_succ_of_not_keep hkeep] at h
      exact ih h

/-- The second list has the kept entries of the first, under their new numbers. -/
structure Kept {α : Type} (keep : Nat → Bool) (l l' : List α) : Prop where
  length : l'.length = renumber keep l.length
  entry : ∀ id, keep id = true → l'[renumber keep id]? = l[id]?

namespace Kept

variable {α : Type} {l l' : List α} {a : α}

theorem nil (keep : Nat → Bool) : Kept keep ([] : List α) [] := ⟨rfl, fun _ _ => rfl⟩

theorem append (h : Kept keep l l') (hkeep : keep l.length = true) (a : α) :
    Kept keep (l ++ [a]) (l' ++ [a]) where
  length := by
    rw [List.length_append, List.length_append, List.length_singleton, h.length,
      renumber_succ_of_keep hkeep]
  entry := by
    intro id hid
    -- Below the end both lists are the old ones; at the end both have the new entry.
    obtain hlt | rfl | hgt := Nat.lt_trichotomy id l.length
    · have hlt' : renumber keep id < l'.length := by
        rw [h.length]
        exact Nat.count_strict_mono hid hlt
      rw [List.getElem?_append_left hlt, List.getElem?_append_left hlt', h.entry id hid]
    · rw [← h.length, List.getElem?_concat_length, List.getElem?_concat_length]
    · have hgt' : l'.length < renumber keep id := by
        rw [h.length]
        exact Nat.count_strict_mono hkeep hgt
      rw [List.getElem?_eq_none (by simp; omega), List.getElem?_eq_none (by simp; omega)]

theorem append_left (h : Kept keep l l') (hkeep : ¬ keep l.length = true) (a : α) :
    Kept keep (l ++ [a]) l' where
  length := by
    rw [List.length_append, List.length_singleton, h.length, renumber_succ_of_not_keep hkeep]
  entry := by
    intro id hid
    have hne : id ≠ l.length := fun heq => hkeep (heq ▸ hid)
    rw [h.entry id hid]
    obtain hlt | hgt := Nat.lt_or_gt_of_ne hne
    · rw [List.getElem?_append_left hlt]
    · rw [List.getElem?_eq_none (by omega), List.getElem?_eq_none (by simp; omega)]

theorem set (h : Kept keep l l') (hkeep : keep id = true) (a : α) :
    Kept keep (l.set id a) (l'.set (renumber keep id) a) where
  length := by simpa only [List.length_set] using h.length
  entry := by
    intro other hother
    by_cases heq : id = other
    · subst heq
      simp only [List.getElem?_set_self', h.entry id hkeep]
    · have hne : renumber keep id ≠ renumber keep other := fun hsame =>
        heq (renumber_inj hkeep hother hsame)
      simp only [List.getElem?_set_ne heq, List.getElem?_set_ne hne, h.entry other hother]

theorem set_left (h : Kept keep l l') (hkeep : ¬ keep id = true) (a : α) :
    Kept keep (l.set id a) l' where
  length := by simpa only [List.length_set] using h.length
  entry := by
    intro other hother
    have hne : id ≠ other := fun heq => hkeep (heq ▸ hother)
    simp only [List.getElem?_set_ne hne, h.entry other hother]

/-- Every entry of the second list is one of the first. -/
theorem exists_of_getElem? (h : Kept keep l l') (hentry : l'[n]? = some a) :
    ∃ id, keep id = true ∧ renumber keep id = n ∧ l[id]? = some a := by
  have hlt : n < renumber keep l.length := by
    rw [← h.length]
    exact (List.getElem?_eq_some_iff.1 hentry).1
  obtain ⟨id, hkeep, rfl⟩ := exists_of_lt_renumber hlt
  exact ⟨id, hkeep, rfl, (h.entry id hkeep).symm.trans hentry⟩

end Kept

namespace Command

def opens : Command → Bool
  | .tokens | .spawn | .spawnCopy => true
  | .tokenize | .source | .config | .ask .. => false

/-- How many handles are open behind the command, where `opened` are open already. -/
def openedBehind (opened : Nat) (c : Command) : Nat := if c.opens then opened + 1 else opened

/-- The handle that is opened or asked, where `opened` handles are open already. -/
def handle? (opened : Nat) : Command → Option Nat
  | .tokens | .spawn | .spawnCopy => some opened
  | .ask id _ => some id
  | .tokenize | .source | .config => none

/-- The command concerns no handle but kept ones. -/
def IsKept (keep : Nat → Bool) (opened : Nat) (c : Command) : Prop :=
  (c.handle? opened).all keep = true

instance (keep : Nat → Bool) (opened : Nat) (c : Command) : Decidable (c.IsKept keep opened) :=
  inferInstanceAs (Decidable (_ = true))

def renumber (keep : Nat → Bool) : Command → Command
  | .ask id q => .ask (StyleLex.renumber keep id) q
  | c => c

/-- Streams are opened from the lexer itself and not from a copy of it. -/
def withoutCopy : Command → Command
  | .spawnCopy => .spawn
  | c => c

/-- Of one entry for each command, those of the kept commands. -/
def select {β : Type} (keep : Nat → Bool) : Nat → List Command → List β → List β
  | opened, c :: cs, b :: bs =>
      let behind := select keep (c.openedBehind opened) cs bs
      if c.IsKept keep opened then b :: behind else behind
  | _, _, _ => []

/-- The kept commands of a script, with the new numbers of their handles. -/
def restrict (keep : Nat → Bool) (opened : Nat) (cs : List Command) : List Command :=
  (select keep opened cs cs).map (renumber keep)

theorem restrict_cons (keep : Nat → Bool) (opened : Nat) (c : Command) (cs : List Command) :
    restrict keep opened (c :: cs) =
      if c.IsKept keep opened then c.renumber keep :: restrict keep (c.openedBehind opened) cs
      else restrict keep (c.openedBehind opened) cs := by
  rw [restrict, select]
  split <;> rfl

end Command

namespace Reply

def renumber (keep : Nat → Bool) : Reply → Reply
  | .opened id => .opened (StyleLex.renumber keep id)
  | r => r

@[simp] theorem renumber_ofItem? (keep : Nat → Bool) (i? : Option Item) :
    (ofItem? i?).renumber keep = ofItem? i? := by cases i? <;> rfl

@[simp] theorem renumber_ofNumber? (keep : Nat → Bool) (n? : Option Nat) :
    (ofNumber? n?).renumber keep = ofNumber? n? := by cases n? <;> rfl

@[simp] theorem renumber_ofDropped (keep : Nat → Bool) (q : Query) :
    (ofDropped q).renumber keep = ofDropped q := by cases q <;> rfl

@[simp] theorem renumber_pull (σ : Type) (keep : Nat → Bool) (p : Pull) (q : Query) :
    (@Pull.ask σ p q).1.renumber keep = (@Pull.ask σ p q).1 := by
  cases q with
  | next => exact renumber_ofItem? keep _
  | _ => rfl

/-- A handle tells nothing of its number. -/
theorem renumber_ask (keep : Nat → Bool) (h : Handle Stream) (q : Query) :
    (h.ask q).1.renumber keep = (h.ask q).1 := by
  cases h with
  | dropped => exact renumber_ofDropped keep q
  | pull p => exact renumber_pull Stream keep p q
  | stream s =>
    cases q with
    | next => exact renumber_ofItem? keep _
    | offset => exact renumber_ofNumber? keep _
    | _ => rfl

end Reply

namespace Session

variable {s s' : Session}

/-- The second session has the kept handles of the first. -/
structure Mirrors (keep : Nat → Bool) (s s' : Session) : Prop where
  lexer : s'.lexer = s.lexer
  handles : Kept keep s.handles s'.handles

theorem Mirrors.addHandle (hm : Mirrors keep s s') (hkeep : keep s.handles.length = true)
    (h : Handle Stream) :
    (s'.addHandle h).1 = (s.addHandle h).1.renumber keep ∧
      Mirrors keep (s.addHandle h).2 (s'.addHandle h).2 :=
  ⟨congrArg Reply.opened hm.handles.length, hm.lexer, hm.handles.append hkeep h⟩

/-- A command that is kept is answered as in the whole script. -/
theorem Mirrors.run (hm : Mirrors keep s s') {c : Command} (hkeep : c.IsKept keep s.handles.length) :
    (s'.run (c.renumber keep)).1 = (s.run c).1.renumber keep ∧
      Mirrors keep (s.run c).2 (s'.run (c.renumber keep)).2 := by
  obtain ⟨lexer, handles⟩ := s'
  obtain rfl : lexer = s.lexer := hm.lexer
  cases c with
  | tokens | spawn | spawnCopy => exact hm.addHandle hkeep _
  | tokenize | source | config => exact ⟨rfl, hm⟩
  | ask id q =>
    have hentry := hm.handles.entry id hkeep
    cases handle : s.handles[id]? with
    | none =>
      rw [handle] at hentry
      simp only [Session.run, Command.renumber, Session.ask, hentry, handle]
      exact ⟨rfl, hm⟩
    | some h =>
      rw [handle] at hentry
      simp only [Session.run, Command.renumber, Session.ask, hentry, handle]
      exact ⟨(Reply.renumber_ask keep h q).symm, rfl, hm.handles.set hkeep _⟩

/-- A command that is left out changes no kept handle. -/
theorem Mirrors.run_left (hm : Mirrors keep s s') {c : Command}
    (hkeep : ¬ c.IsKept keep s.handles.length) : Mirrors keep (s.run c).2 s' := by
  cases c with
  | tokens | spawn | spawnCopy => exact ⟨hm.lexer, hm.handles.append_left hkeep _⟩
  | tokenize | source | config => exact absurd rfl hkeep
  | ask id q =>
    rw [Session.run, Session.ask]
    cases s.handles[id]? with
    | none => exact hm
    | some h => exact ⟨hm.lexer, hm.handles.set_left hkeep _⟩

theorem length_handles_run (s : Session) (c : Command) :
    (s.run c).2.handles.length = c.openedBehind s.handles.length := by
  cases c with
  | tokens | spawn | spawnCopy => exact List.length_append
  | tokenize | source | config => rfl
  | ask id q => cases handle : s.handles[id]? <;> simp [run, ask, handle, Command.openedBehind, Command.opens]

theorem Mirrors.trace (hm : Mirrors keep s s') (cs : List Command) :
    trace (Command.restrict keep s.handles.length cs) s' =
      (Command.select keep s.handles.length cs (trace cs s)).map (Reply.renumber keep) := by
  induction cs generalizing s s' with
  | nil => rfl
  | cons c cs ih =>
    rw [Command.restrict_cons, Session.trace, Command.select, ← length_handles_run]
    by_cases hkeep : c.IsKept keep s.handles.length
    · obtain ⟨hreply, hm'⟩ := hm.run hkeep
      rw [if_pos hkeep, if_pos hkeep, List.map_cons, Session.trace, hreply, ih hm']
    · rw [if_neg hkeep, if_neg hkeep]
      exact ih (hm.run_left hkeep)

/-- The settled answers of the kept handles are those in a script of their own. -/
theorem trace_restrict (keep : Nat → Bool) (cs : List Command) (l : Lexer) :
    trace (Command.restrict keep 0 cs) (start l) =
      (Command.select keep 0 cs (trace cs (start l))).map (Reply.renumber keep) :=
  (Mirrors.mk (s := start l) rfl (.nil keep)).trace cs

theorem lexer_run (s : Session) (c : Command) : (s.run c).2.lexer = s.lexer := by
  cases c with
  | ask id q => cases hopen : s.handles[id]? <;> simp [run, ask, hopen]
  | _ => rfl

theorem trace_tokenize {cs : List Command} (h : cs[n]? = some .tokenize) (s : Session) :
    (trace cs s)[n]? = some (.tokenized s.lexer.tokenize) := by
  induction cs generalizing n s with
  | nil => simp at h
  | cons c cs ih =>
    cases n with
    | zero =>
      obtain rfl : c = .tokenize := by simpa using h
      rfl
    | succ n =>
      rw [trace, List.getElem?_cons_succ, ih (by simpa using h), lexer_run]

end Session

end StyleLex

import StyleLex.Proofs.KeptHandles
import StyleLex.Proofs.SettledReplies

/-!
# Handles do not interfere

A session of a script from which some handles are left out mirrors a session of the whole script. Each
step of the one is answered by steps of the other, and so the kept handles are answered alike, whatever
the threads behind all the handles do.
-/
namespace StyleLex

variable {keep : Nat → Bool} {l : Lexer} {c : Command} {h : Handle Handoff} {reply : Reply}
  {id : Nat} {q : Query}

namespace Command

theorem withoutCopy_withoutCopy (c : Command) : c.withoutCopy.withoutCopy = c.withoutCopy := by
  cases c <;> rfl

/-- A renumbered query is one of the same kind. -/
theorem of_renumber_eq_ask {n : Nat} (h : c.renumber keep = .ask n q) :
    ∃ id, c = .ask id q ∧ StyleLex.renumber keep id = n := by
  cases c with
  | ask id q' =>
    obtain ⟨hid, rfl⟩ := Command.ask.inj h
    exact ⟨id, rfl, hid⟩
  | tokens | spawn | spawnCopy | tokenize | source | config => cases h

end Command

namespace Lexer

@[simp] theorem opened?_renumber (l : Lexer) (keep : Nat → Bool) (c : Command) :
    l.opened? (c.renumber keep) = l.opened? c := by cases c <;> rfl

@[simp] theorem told?_renumber (l : Lexer) (keep : Nat → Bool) (c : Command) :
    l.told? (c.renumber keep) = l.told? c := by cases c <;> rfl

@[simp] theorem opened?_withoutCopy (l : Lexer) (c : Command) :
    l.opened? c.withoutCopy = l.opened? c := by cases c <;> rfl

@[simp] theorem told?_withoutCopy (l : Lexer) (c : Command) :
    l.told? c.withoutCopy = l.told? c := by cases c <;> rfl

/-- A command that opens a handle concerns the next one. -/
theorem isKept_of_opened? {n : Nat} (opened : l.opened? c = some h) :
    c.IsKept keep n ↔ keep n = true := by
  cases c with
  | tokens | spawn | spawnCopy => exact Iff.rfl
  | tokenize | source | config | ask => simp [opened?] at opened

theorem openedBehind_of_opened? (opened : l.opened? c = some h) (n : Nat) :
    c.openedBehind n = n + 1 := by
  cases c with
  | tokens | spawn | spawnCopy => rfl
  | tokenize | source | config | ask => simp [opened?] at opened

/-- A command that is answered at once concerns no handle. -/
theorem isKept_of_told? (told : l.told? c = some reply) (keep : Nat → Bool) (n : Nat) :
    c.IsKept keep n := by
  cases c with
  | tokenize | source | config => exact rfl
  | tokens | spawn | spawnCopy | ask => simp [told?] at told

theorem openedBehind_of_told? (told : l.told? c = some reply) (n : Nat) : c.openedBehind n = n := by
  cases c with
  | tokenize | source | config => rfl
  | tokens | spawn | spawnCopy | ask => simp [told?] at told

theorem renumber_of_told? (told : l.told? c = some reply) (keep : Nat → Bool) :
    reply.renumber keep = reply := by
  cases c with
  | tokenize | source | config =>
    obtain rfl := Option.some.inj told
    rfl
  | tokens | spawn | spawnCopy | ask => simp [told?] at told

end Lexer

theorem Answer.Correct.renumber {a : Answer} {run : Run} {as : List Answer}
    (hcorrect : a.Correct run as) (hoffset : a.request = .offset → ∃ n, a.reply = .number n)
    (keep : Nat → Bool) : a.reply.renumber keep = a.reply := by
  obtain ⟨r, reply⟩ := a
  cases r with
  | next =>
    rw [hcorrect]
    split
    · rfl
    · exact Reply.renumber_ofItem? keep _
  | rest =>
    rw [hcorrect]
    split <;> rfl
  | close | isClosed =>
    rw [hcorrect]
    rfl
  | offset =>
    obtain ⟨n, rfl⟩ := hoffset rfl
    rfl

namespace Handle

theorem Live.renumber_lastReply {h : Handoff} (hl : (Handle.stream h).Live) (keep : Nat → Bool) :
    h.lastReply.renumber keep = h.lastReply := by
  obtain ⟨⟨run, requests, hk⟩, ht⟩ := hl
  have hanswered := hk.answered
  rcases List.eq_nil_or_concat h.answers with hnil | ⟨as, a, hlast⟩
  · rw [Handoff.lastReply, hnil]
    rfl
  · rw [List.concat_eq_append] at hlast
    rw [hlast] at hanswered
    rw [Handoff.lastReply, hlast, List.getLast?_concat]
    exact hanswered.of_concat.2.renumber (ht.answers a (by simp [hlast])) keep

/-- A handle tells nothing of its number. -/
theorem Live.renumber_answer {h' : Handle Handoff} (hl : h.Live) (ha : h.Answers q reply h')
    (keep : Nat → Bool) : reply.renumber keep = reply := by
  cases ha with
  | dropped => exact Reply.renumber_ofDropped keep q
  | @pull p _ _ told =>
    have hrenumber := Reply.renumber_pull Handoff keep p q
    rwa [told] at hrenumber
  | stream idle told =>
    cases q with
    | depth | drop =>
      obtain ⟨rfl, -⟩ := Prod.mk.inj told
      rfl
    | _ =>
      obtain ⟨rfl, -⟩ := Prod.mk.inj told
      exact hl.renumber_lastReply keep

end Handle

namespace ThreadedSession

variable {s s' t t' : ThreadedSession} {reply? : Option Reply} {rs : List Reply}

/-- The second session has the kept handles of the first, and the kept commands ahead. -/
structure Mirrors (keep : Nat → Bool) (s s' : ThreadedSession) : Prop where
  lexer : s'.lexer = s.lexer
  handles : Kept keep s.handles s'.handles
  commands : s'.commands = Command.restrict keep s.handles.length s.commands
  calling : s'.calling = true ↔
    s.calling = true ∧ ∃ c, s.commands.head? = some c ∧ c.IsKept keep s.handles.length

theorem mirrors_start (keep : Nat → Bool) (l : Lexer) (cs : List Command) :
    Mirrors keep (start l cs) (start l (Command.restrict keep 0 cs)) where
  lexer := rfl
  handles := .nil keep
  commands := rfl
  calling := by simp [start]

/-- Of the answers to the commands ahead, those to kept ones. -/
def kept (keep : Nat → Bool) (s : ThreadedSession) (rs : List Reply) : List Reply :=
  (Command.select keep s.handles.length s.commands rs).map (Reply.renumber keep)

@[simp] theorem kept_nil (keep : Nat → Bool) (s : ThreadedSession) : s.kept keep [] = [] := by
  rw [kept]
  cases s.commands <;> rfl

theorem kept_cons (ahead : s.commands.head? = some c) (rs : List Reply) :
    s.kept keep (reply :: rs) =
      (if c.IsKept keep s.handles.length then [reply.renumber keep] else []) ++
        (Command.select keep (c.openedBehind s.handles.length) s.commands.tail rs).map
          (Reply.renumber keep) := by
  obtain ⟨cs, hcs⟩ := List.head?_eq_some_iff.1 ahead
  rw [kept, hcs, Command.select]
  split <;> rfl

theorem kept_singleton (ahead : s.commands.head? = some c) (reply : Reply) :
    s.kept keep [reply] =
      if c.IsKept keep s.handles.length then [reply.renumber keep] else [] := by
  obtain ⟨cs, hcs⟩ := List.head?_eq_some_iff.1 ahead
  rw [kept_cons ahead, hcs]
  cases cs <;> exact List.append_nil _

/-- An answer takes the session to the next command, and a step without an answer does not. -/
theorem Step.commands (hs : Step s reply? t) :
    (reply? = none ∧ t.commands = s.commands ∧ t.handles.length = s.handles.length) ∨
      ∃ reply c, reply? = some reply ∧ s.commands.head? = some c ∧ t.commands = s.commands.tail ∧
        t.handles.length = c.openedBehind s.handles.length := by
  cases hs with
  | «open» ready ahead opened =>
    refine .inr ⟨_, _, rfl, ahead, rfl, ?_⟩
    rw [Lexer.openedBehind_of_opened? opened, List.length_append]
    rfl
  | tell ready ahead told =>
    exact .inr ⟨_, _, rfl, ahead, rfl, (Lexer.openedBehind_of_told? told _).symm⟩
  | missing ready ahead missing => exact .inr ⟨_, _, rfl, ahead, rfl, rfl⟩
  | call ready ahead handle => exact .inl ⟨rfl, rfl, List.length_set⟩
  | work handle works => exact .inl ⟨rfl, rfl, List.length_set⟩
  | answer calling ahead handle answers => exact .inr ⟨_, _, rfl, ahead, rfl, List.length_set⟩

theorem Step.kept_append (hs : Step s reply? t) (keep : Nat → Bool) (rs : List Reply) :
    s.kept keep (reply?.toList ++ rs) = s.kept keep reply?.toList ++ t.kept keep rs := by
  rcases hs.commands with ⟨rfl, hcommands, hlength⟩ | ⟨reply, c, rfl, ahead, hcommands, hlength⟩
  · rw [Option.toList_none, kept_nil, List.nil_append, List.nil_append, kept, kept, hcommands, hlength]
  · rw [Option.toList_some, List.singleton_append, kept_cons ahead, kept_singleton ahead, kept,
      hcommands, hlength]

theorem Runs.kept_append (hr : Runs s rs t) (keep : Nat → Bool) (rs' : List Reply) :
    s.kept keep (rs ++ rs') = s.kept keep rs ++ t.kept keep rs' := by
  induction hr with
  | refl => rw [kept_nil, List.nil_append, List.nil_append]
  | step first _ ih =>
    rw [List.append_assoc, first.kept_append, ih, first.kept_append, List.append_assoc]

namespace Mirrors

/-- No kept command is in front where one that is left out is. -/
theorem not_kept (ahead : s.commands.head? = some c) (hkept : ¬ c.IsKept keep s.handles.length)
    {P : Prop} : ¬ (P ∧ ∃ c, s.commands.head? = some c ∧ c.IsKept keep s.handles.length) := by
  rintro ⟨-, c', ahead', hkept'⟩
  obtain rfl := Option.some.inj (ahead.symm.trans ahead')
  exact hkept hkept'

theorem not_calling (hm : Mirrors keep s s') (ahead : s.commands.head? = some c)
    (hkept : ¬ c.IsKept keep s.handles.length) : ¬ s'.calling = true := by
  rw [hm.calling]
  exact not_kept ahead hkept

/-- The kept command in front is in front of the other session too. -/
theorem ahead (hm : Mirrors keep s s') (ahead : s.commands.head? = some c)
    (hkept : c.IsKept keep s.handles.length) :
    s'.commands.head? = some (c.renumber keep) ∧ s'.calling = s.calling ∧
      s'.commands.tail =
        Command.restrict keep (c.openedBehind s.handles.length) s.commands.tail := by
  obtain ⟨cs, hcs⟩ := List.head?_eq_some_iff.1 ahead
  have hcommands := hm.commands
  rw [hcs, Command.restrict_cons, if_pos hkept] at hcommands
  refine ⟨by rw [hcommands, List.head?_cons], ?_, by rw [hcommands, hcs, List.tail_cons, List.tail_cons]⟩
  rw [Bool.eq_iff_iff, hm.calling]
  exact and_iff_left ⟨c, ahead, hkept⟩

/-- Both sessions go on behind a kept command. -/
theorem advance (hm : Mirrors keep s s') (ahead : s.commands.head? = some c)
    (hkept : c.IsKept keep s.handles.length) {handles handles' : List (Handle Handoff)}
    (hhandles : Kept keep handles handles')
    (hlength : handles.length = c.openedBehind s.handles.length) :
    Mirrors keep { s.advance with handles } { s'.advance with handles := handles' } where
  lexer := hm.lexer
  handles := hhandles
  commands := by
    rw [hlength]
    exact (hm.ahead ahead hkept).2.2
  calling := by simp [ThreadedSession.advance]

/-- The first session goes on behind a command that is left out. -/
theorem advance_left (hm : Mirrors keep s s') (ahead : s.commands.head? = some c)
    (hkept : ¬ c.IsKept keep s.handles.length) {handles : List (Handle Handoff)}
    (hhandles : Kept keep handles s'.handles)
    (hlength : handles.length = c.openedBehind s.handles.length) :
    Mirrors keep { s.advance with handles } s' where
  lexer := hm.lexer
  handles := hhandles
  commands := by
    obtain ⟨cs, hcs⟩ := List.head?_eq_some_iff.1 ahead
    rw [hm.commands, hcs, Command.restrict_cons, if_neg hkept, hlength, ThreadedSession.advance, hcs]
    rfl
  calling := by simp [ThreadedSession.advance, hm.not_calling ahead hkept]

theorem put (hm : Mirrors keep s s') (hkeep : keep id = true) (h : Handle Handoff) :
    Mirrors keep (s.put id h) (s'.put (renumber keep id) h) where
  lexer := hm.lexer
  handles := hm.handles.set hkeep h
  commands := by
    rw [length_put]
    exact hm.commands
  calling := by
    rw [length_put]
    exact hm.calling

theorem put_left (hm : Mirrors keep s s') (hkeep : ¬ keep id = true) (h : Handle Handoff) :
    Mirrors keep (s.put id h) s' where
  lexer := hm.lexer
  handles := hm.handles.set_left hkeep h
  commands := by
    rw [length_put]
    exact hm.commands
  calling := by
    rw [length_put]
    exact hm.calling

/-- Both sessions wait for the answer to a kept query. -/
theorem await (hm : Mirrors keep s s') (ahead : s.commands.head? = some (.ask id q))
    (hkeep : keep id = true) (h : Handle Handoff) :
    Mirrors keep (s.await id h) (s'.await (renumber keep id) h) where
  lexer := hm.lexer
  handles := hm.handles.set hkeep h
  commands := (hm.put hkeep h).commands
  calling := iff_of_true rfl ⟨rfl, _, ahead, hkeep⟩

/-- The first session waits for the answer to a query that is left out. -/
theorem await_left (hm : Mirrors keep s s') (ahead : s.commands.head? = some (.ask id q))
    (hkeep : ¬ keep id = true) (h : Handle Handoff) : Mirrors keep (s.await id h) s' where
  lexer := hm.lexer
  handles := hm.handles.set_left hkeep h
  commands := (hm.put_left hkeep h).commands
  calling := iff_of_false (hm.not_calling ahead hkeep) (not_kept (s := s.await id h) ahead hkeep)

/-- Whatever the first session does, the second one can follow, and gives the kept answers. -/
theorem step (hm : Mirrors keep s s') (hl : s.Live) (hs : Step s reply? t) :
    ∃ t', Runs s' (s.kept keep reply?.toList) t' ∧ Mirrors keep t t' := by
  cases hs with
  | @«open» c h ready ahead opened =>
    have hbehind := Lexer.openedBehind_of_opened? opened s.handles.length
    have hlength : (s.handles ++ [h]).length = c.openedBehind s.handles.length := by
      rw [hbehind, List.length_append, List.length_singleton]
    rw [Option.toList_some, kept_singleton ahead]
    by_cases hc : c.IsKept keep s.handles.length
    · have hkeep := (Lexer.isKept_of_opened? opened).1 hc
      obtain ⟨ahead', calling', -⟩ := hm.ahead ahead hc
      rw [← Lexer.opened?_renumber, ← hm.lexer] at opened
      have hopen := Step.open (calling'.trans ready) ahead' opened
      rw [if_pos hc, Reply.renumber, ← hm.handles.length]
      exact ⟨_, hopen.runs, hm.advance ahead hc (hm.handles.append hkeep h) hlength⟩
    · rw [if_neg hc]
      have hleft := hm.handles.append_left (mt (Lexer.isKept_of_opened? opened).2 hc) h
      exact ⟨s', .refl s', hm.advance_left ahead hc hleft hlength⟩
  | @tell c reply ready ahead told =>
    have hc := Lexer.isKept_of_told? told keep s.handles.length
    have hbehind := Lexer.openedBehind_of_told? told s.handles.length
    have hreply := Lexer.renumber_of_told? told keep
    obtain ⟨ahead', calling', -⟩ := hm.ahead ahead hc
    rw [← Lexer.told?_renumber, ← hm.lexer] at told
    have htell := Step.tell (calling'.trans ready) ahead' told
    rw [Option.toList_some, kept_singleton ahead, if_pos hc, hreply]
    exact ⟨_, htell.runs, hm.advance ahead hc hm.handles hbehind.symm⟩
  | @missing id q ready ahead missing =>
    rw [Option.toList_some, kept_singleton ahead]
    by_cases hc : (Command.ask id q).IsKept keep s.handles.length
    · obtain ⟨ahead', calling', -⟩ := hm.ahead ahead hc
      have hmissing := Step.missing (calling'.trans ready) ahead' ((hm.handles.entry id hc).trans missing)
      rw [if_pos hc]
      exact ⟨_, hmissing.runs, hm.advance ahead hc hm.handles rfl⟩
    · rw [if_neg hc]
      exact ⟨s', .refl s', hm.advance_left ahead hc hm.handles rfl⟩
  | @call id q h ready ahead handle =>
    rw [Option.toList_none, kept_nil]
    by_cases hc : (Command.ask id q).IsKept keep s.handles.length
    · obtain ⟨ahead', calling', -⟩ := hm.ahead ahead hc
      have hcall := Step.call (calling'.trans ready) ahead' ((hm.handles.entry id hc).trans handle)
      exact ⟨_, hcall.runs, hm.await ahead hc _⟩
    · exact ⟨s', .refl s', hm.await_left ahead hc _⟩
  | @work id h h' handle works =>
    rw [Option.toList_none, kept_nil]
    by_cases hkeep : keep id = true
    · have hwork := Step.work ((hm.handles.entry id hkeep).trans handle) works
      exact ⟨_, hwork.runs, hm.put hkeep h'⟩
    · exact ⟨s', .refl s', hm.put_left hkeep h'⟩
  | @answer id q h h' reply calling ahead handle answers =>
    rw [Option.toList_some, kept_singleton ahead]
    by_cases hc : (Command.ask id q).IsKept keep s.handles.length
    · obtain ⟨ahead', calling', -⟩ := hm.ahead ahead hc
      have hanswer := Step.answer (calling'.trans calling) ahead'
        ((hm.handles.entry id hc).trans handle) answers
      rw [if_pos hc, (hl.handle handle).renumber_answer answers]
      exact ⟨_, hanswer.runs, hm.advance ahead hc (hm.handles.set hc h') List.length_set⟩
    · rw [if_neg hc]
      exact ⟨s', .refl s', hm.advance_left ahead hc (hm.handles.set_left hc h') List.length_set⟩

theorem runs (hm : Mirrors keep s s') (hl : s.Live) (hr : Runs s rs t) :
    ∃ t', Runs s' (s.kept keep rs) t' ∧ Mirrors keep t t' := by
  induction hr generalizing s' with
  | refl =>
    rw [kept_nil]
    exact ⟨s', .refl s', hm⟩
  | step first _ ih =>
    obtain ⟨t₁, hfirst, hm₁⟩ := hm.step hl first
    obtain ⟨t', hbehind, hm'⟩ := ih hm₁ (hl.step first)
    rw [first.kept_append]
    exact ⟨t', hfirst.trans hbehind, hm'⟩

/-- A command that is left out can be answered while the second session stands still. -/
theorem skip (hm : Mirrors keep s s') (hl : s.Live) (ahead : s.commands.head? = some c)
    (hc : ¬ c.IsKept keep s.handles.length) :
    ∃ reply t, Runs s [reply] t ∧ t.commands = s.commands.tail ∧ Mirrors keep t s' := by
  cases c with
  | tokens | spawn | spawnCopy =>
    have hleft (h : Handle Handoff) := hm.advance_left ahead hc (hm.handles.append_left hc h)
      (List.length_append ..)
    exact ⟨_, _, (Step.open (hl.ready ahead nofun) ahead rfl).runs, rfl, hleft _⟩
  | tokenize | source | config => exact absurd rfl hc
  | ask id q =>
    cases handle : s.handles[id]? with
    | none =>
      have hready := hl.ready ahead (by
        rintro id' q' ⟨⟩
        exact List.getElem?_eq_none_iff.1 handle)
      exact ⟨_, _, (Step.missing hready ahead handle).runs, rfl, hm.advance_left ahead hc hm.handles rfl⟩
    | some h =>
      obtain ⟨reply, h', hruns⟩ := hl.exists_answer handle ahead
      exact ⟨reply, _, hruns, rfl,
        hm.advance_left ahead hc (hm.handles.set_left hc h') List.length_set⟩

/-- The first session comes to a kept command or to the end while the second one stands still. -/
theorem catchUp (hm : Mirrors keep s s') (hl : s.Live) :
    ∃ rs t, Runs s rs t ∧ s.kept keep rs = [] ∧ Mirrors keep t s' ∧
      ∀ c, t.commands.head? = some c → c.IsKept keep t.handles.length := by
  induction hcs : s.commands generalizing s with
  | nil => exact ⟨[], s, .refl s, kept_nil keep s, hm, by simp [hcs]⟩
  | cons c cs ih =>
    have ahead : s.commands.head? = some c := by rw [hcs, List.head?_cons]
    by_cases hc : c.IsKept keep s.handles.length
    · refine ⟨[], s, .refl s, kept_nil keep s, hm, fun c' ahead' => ?_⟩
      obtain rfl := Option.some.inj (ahead.symm.trans ahead')
      exact hc
    · obtain ⟨reply, s₁, hskip, hcommands, hm₁⟩ := hm.skip hl ahead hc
      obtain ⟨rs, t, hruns, hkept, hm', hahead⟩ :=
        ih hm₁ (hl.runs hskip) (by rw [hcommands, hcs, List.tail_cons])
      refine ⟨_, t, hskip.trans hruns, ?_, hm', hahead⟩
      rw [hskip.kept_append, kept_singleton ahead, if_neg hc, hkept, List.nil_append]

/-- In front of a session that has caught up is what the second session has in front. -/
theorem exists_ahead (hm : Mirrors keep s s')
    (hahead : ∀ c, s.commands.head? = some c → c.IsKept keep s.handles.length) {c' : Command}
    (ahead' : s'.commands.head? = some c') :
    ∃ c, s.commands.head? = some c ∧ c.IsKept keep s.handles.length ∧ c.renumber keep = c' ∧
      s'.calling = s.calling := by
  cases hcs : s.commands with
  | nil =>
    rw [hm.commands, hcs] at ahead'
    cases ahead'
  | cons c cs =>
    have ahead : s.commands.head? = some c := by rw [hcs, List.head?_cons]
    obtain ⟨hhead, hcalling, -⟩ := hm.ahead ahead (hahead c ahead)
    exact ⟨c, rfl, hahead c ahead, Option.some.inj (hhead.symm.trans ahead'), hcalling⟩

/-- A session that has caught up can do whatever the second one does. -/
theorem follow (hm : Mirrors keep s s') (hl : s.Live)
    (hahead : ∀ c, s.commands.head? = some c → c.IsKept keep s.handles.length)
    (hs : Step s' reply? t') : ∃ rs t, Runs s rs t ∧ s.kept keep rs = reply?.toList ∧ Mirrors keep t t' := by
  cases hs with
  | @«open» c' h ready ahead' opened =>
    obtain ⟨c, ahead, hc, rfl, hcalling⟩ := hm.exists_ahead hahead ahead'
    rw [Lexer.opened?_renumber, hm.lexer] at opened
    have hbehind := Lexer.openedBehind_of_opened? opened s.handles.length
    have hkeep := (Lexer.isKept_of_opened? opened).1 hc
    have hopen := Step.open (hcalling.symm.trans ready) ahead opened
    refine ⟨_, _, hopen.runs, ?_, hm.advance ahead hc (hm.handles.append hkeep h) ?_⟩
    · rw [Option.toList_some, kept_singleton ahead, if_pos hc, Reply.renumber, ← hm.handles.length]
      rfl
    · rw [hbehind, List.length_append, List.length_singleton]
  | @tell c' reply ready ahead' told =>
    obtain ⟨c, ahead, hc, rfl, hcalling⟩ := hm.exists_ahead hahead ahead'
    rw [Lexer.told?_renumber, hm.lexer] at told
    have hbehind := Lexer.openedBehind_of_told? told s.handles.length
    have hreply := Lexer.renumber_of_told? told keep
    have htell := Step.tell (hcalling.symm.trans ready) ahead told
    refine ⟨_, _, htell.runs, ?_, hm.advance ahead hc hm.handles hbehind.symm⟩
    rw [Option.toList_some, kept_singleton ahead, if_pos hc, hreply]
  | @missing n q ready ahead' missing =>
    obtain ⟨c, ahead, hc, hrenumber, hcalling⟩ := hm.exists_ahead hahead ahead'
    obtain ⟨id, rfl, rfl⟩ := Command.of_renumber_eq_ask hrenumber
    have hmissing := Step.missing (hcalling.symm.trans ready) ahead
      ((hm.handles.entry id hc).symm.trans missing)
    refine ⟨_, _, hmissing.runs, ?_, hm.advance ahead hc hm.handles rfl⟩
    rw [Option.toList_some, kept_singleton ahead, if_pos hc]
    rfl
  | @call n q h ready ahead' handle =>
    obtain ⟨c, ahead, hc, hrenumber, hcalling⟩ := hm.exists_ahead hahead ahead'
    obtain ⟨id, rfl, rfl⟩ := Command.of_renumber_eq_ask hrenumber
    have hcall := Step.call (hcalling.symm.trans ready) ahead
      ((hm.handles.entry id hc).symm.trans handle)
    exact ⟨_, _, hcall.runs, kept_nil keep s, hm.await ahead hc _⟩
  | @work n h h' handle works =>
    obtain ⟨id, hkeep, rfl, hhandle⟩ := hm.handles.exists_of_getElem? handle
    exact ⟨_, _, (Step.work hhandle works).runs, kept_nil keep s, hm.put hkeep h'⟩
  | @answer n q h h' reply calling ahead' handle answers =>
    obtain ⟨c, ahead, hc, hrenumber, hcalling⟩ := hm.exists_ahead hahead ahead'
    obtain ⟨id, rfl, rfl⟩ := Command.of_renumber_eq_ask hrenumber
    replace handle := (hm.handles.entry id hc).symm.trans handle
    have hanswer := Step.answer (hcalling.symm.trans calling) ahead handle answers
    refine ⟨_, _, hanswer.runs, ?_, hm.advance ahead hc (hm.handles.set hc h') List.length_set⟩
    rw [Option.toList_some, kept_singleton ahead, if_pos hc,
      (hl.handle handle).renumber_answer answers]

/-- Every run of the second session mirrors one of the first, which goes to its end with it. -/
theorem exists_runs (hm : Mirrors keep s s') (hl : s.Live) (hr : Runs s' rs t')
    (hend : t'.commands = []) : ∃ rs' t, Runs s rs' t ∧ s.kept keep rs' = rs ∧ t.commands = [] := by
  induction hr generalizing s with
  | refl s' =>
    obtain ⟨rs', t, hruns, hkept, hm', hahead⟩ := hm.catchUp hl
    refine ⟨rs', t, hruns, hkept, ?_⟩
    cases hcs : t.commands with
    | nil => rfl
    | cons c cs =>
      have ahead : t.commands.head? = some c := by rw [hcs, List.head?_cons]
      obtain ⟨hhead, -⟩ := hm'.ahead ahead (hahead c ahead)
      rw [hend] at hhead
      cases hhead
  | step first _ ih =>
    obtain ⟨rs₁, s₁, hcatch, hkept₁, hm₁, hahead⟩ := hm.catchUp hl
    obtain ⟨rs₂, s₂, hfollow, hkept₂, hm₂⟩ := hm₁.follow (hl.runs hcatch) hahead first
    obtain ⟨rs₃, t, hruns, hkept₃, hend'⟩ := ih hm₂ ((hl.runs hcatch).runs hfollow) hend
    refine ⟨_, t, hcatch.trans (hfollow.trans hruns), ?_, hend'⟩
    rw [hcatch.kept_append, hfollow.kept_append, hkept₁, hkept₂, hkept₃, List.nil_append]

end Mirrors

/-- The kept handles are answered in the ways in which they are answered in a script of their own. -/
theorem answered_restrict_iff (keep : Nat → Bool) (l : Lexer) (cs : List Command) (rs : List Reply) :
    Answered l (Command.restrict keep 0 cs) rs ↔
      ∃ rs', Answered l cs rs' ∧ rs = (Command.select keep 0 cs rs').map (Reply.renumber keep) := by
  have hm := mirrors_start keep l cs
  have hl := live_start l cs
  constructor
  · rintro ⟨t', hruns, hend⟩
    obtain ⟨rs', t, hruns', hkept, hend'⟩ := hm.exists_runs hl hruns hend
    exact ⟨rs', ⟨t, hruns', hend'⟩, hkept.symm⟩
  · rintro ⟨rs', ⟨t, hruns, hend⟩, rfl⟩
    obtain ⟨t', hruns', hm'⟩ := hm.runs hl hruns
    refine ⟨t', hruns', ?_⟩
    rw [hm'.commands, hend]
    rfl

/-- The sessions differ at most in whether they open a stream from the lexer or from a copy of it. -/
structure Copies (s s' : ThreadedSession) : Prop where
  lexer : s'.lexer = s.lexer
  handles : s'.handles = s.handles
  commands : s'.commands.map Command.withoutCopy = s.commands.map Command.withoutCopy
  calling : s'.calling = s.calling

namespace Copies

theorem symm (hc : Copies s s') : Copies s' s :=
  ⟨hc.lexer.symm, hc.handles.symm, hc.commands.symm, hc.calling.symm⟩

theorem advance (hc : Copies s s') {handles handles' : List (Handle Handoff)}
    (hhandles : handles' = handles) :
    Copies { s.advance with handles } { s'.advance with handles := handles' } where
  lexer := hc.lexer
  handles := hhandles
  commands := by
    rw [ThreadedSession.advance, ThreadedSession.advance, List.map_tail, List.map_tail, hc.commands]
  calling := rfl

theorem put (hc : Copies s s') (id : Nat) (h : Handle Handoff) : Copies (s.put id h) (s'.put id h) where
  lexer := hc.lexer
  handles := congrArg (·.set id h) hc.handles
  commands := hc.commands
  calling := hc.calling

theorem await (hc : Copies s s') (id : Nat) (h : Handle Handoff) :
    Copies (s.await id h) (s'.await id h) :=
  ⟨hc.lexer, (hc.put id h).handles, hc.commands, rfl⟩

theorem exists_ahead (hc : Copies s s') (ahead : s.commands.head? = some c) :
    ∃ c', s'.commands.head? = some c' ∧ c'.withoutCopy = c.withoutCopy := by
  have hhead := congrArg List.head? hc.commands
  rw [List.head?_map, List.head?_map, ahead] at hhead
  exact Option.map_eq_some_iff.1 hhead

theorem ahead_ask (hc : Copies s s') (ahead : s.commands.head? = some (.ask id q)) :
    s'.commands.head? = some (.ask id q) := by
  obtain ⟨c', ahead', hwithout⟩ := hc.exists_ahead ahead
  cases c' with
  | ask =>
    obtain ⟨rfl, rfl⟩ := Command.ask.inj hwithout
    exact ahead'
  | tokens | spawn | spawnCopy | tokenize | source | config => cases hwithout

theorem step (hc : Copies s s') (hs : Step s reply? t) : ∃ t', Step s' reply? t' ∧ Copies t t' := by
  cases hs with
  | @«open» c h ready ahead opened =>
    obtain ⟨c', ahead', hwithout⟩ := hc.exists_ahead ahead
    rw [← Lexer.opened?_withoutCopy, ← hwithout, Lexer.opened?_withoutCopy, ← hc.lexer] at opened
    have hopen := Step.open (hc.calling.trans ready) ahead' opened
    rw [hc.handles] at hopen
    exact ⟨_, hopen, hc.advance rfl⟩
  | @tell c reply ready ahead told =>
    obtain ⟨c', ahead', hwithout⟩ := hc.exists_ahead ahead
    rw [← Lexer.told?_withoutCopy, ← hwithout, Lexer.told?_withoutCopy, ← hc.lexer] at told
    exact ⟨_, .tell (hc.calling.trans ready) ahead' told, hc.advance hc.handles⟩
  | missing ready ahead missing =>
    rw [← hc.handles] at missing
    exact ⟨_, .missing (hc.calling.trans ready) (hc.ahead_ask ahead) missing, hc.advance hc.handles⟩
  | call ready ahead handle =>
    rw [← hc.handles] at handle
    exact ⟨_, .call (hc.calling.trans ready) (hc.ahead_ask ahead) handle, hc.await _ _⟩
  | work handle works =>
    rw [← hc.handles] at handle
    exact ⟨_, .work handle works, hc.put _ _⟩
  | answer calling ahead handle answers =>
    rw [← hc.handles] at handle
    exact ⟨_, .answer (hc.calling.trans calling) (hc.ahead_ask ahead) handle answers,
      hc.advance (hc.put _ _).handles⟩

theorem runs (hc : Copies s s') (hr : Runs s rs t) : ∃ t', Runs s' rs t' ∧ Copies t t' := by
  induction hr generalizing s' with
  | refl => exact ⟨s', .refl s', hc⟩
  | step first _ ih =>
    obtain ⟨t₁, hfirst, hc₁⟩ := hc.step first
    obtain ⟨t', hbehind, hc'⟩ := ih hc₁
    exact ⟨t', .step hfirst hbehind, hc'⟩

theorem answered {cs cs' : List Command} (hc : Copies (start l cs) (start l cs'))
    (ha : Answered l cs rs) : Answered l cs' rs := by
  obtain ⟨t, hruns, hend⟩ := ha
  obtain ⟨t', hruns', hc'⟩ := hc.runs hruns
  have hcommands := hc'.commands
  rw [hend] at hcommands
  exact ⟨t', hruns', List.map_eq_nil_iff.1 hcommands⟩

end Copies

/-- Streams from a copy are answered as streams from the lexer itself. -/
theorem answered_withoutCopy_iff (l : Lexer) (cs : List Command) (rs : List Reply) :
    Answered l (cs.map Command.withoutCopy) rs ↔ Answered l cs rs := by
  have hwithout : (cs.map Command.withoutCopy).map Command.withoutCopy = cs.map Command.withoutCopy := by
    rw [List.map_map]
    exact List.map_congr_left fun c _ => Command.withoutCopy_withoutCopy c
  have hc : Copies (start l cs) (start l (cs.map Command.withoutCopy)) := ⟨rfl, rfl, hwithout, rfl⟩
  exact ⟨hc.symm.answered, hc.answered⟩

theorem Answered.tokenized {cs : List Command} {n : Nat} (ha : Answered l cs rs)
    (hn : cs[n]? = some .tokenize) : rs[n]? = some (.tokenized (tokenize l.config l.source)) := by
  obtain ⟨t, hruns, hend⟩ := ha
  obtain ⟨settled, reply, hsettled, hreply, hagree⟩ :=
    ((alongside_start l cs).settled hruns hend).agree hn
  obtain rfl := Option.some.inj ((Session.trace_tokenize hn (.start l)).symm.trans hsettled)
  rcases hagree with rfl | ⟨⟨_, hask⟩, -⟩
  · exact hreply
  · cases hask

/-- Every run can be led to the end of the script. -/
theorem Runs.exists_answered {cs : List Command} (hr : Runs (start l cs) rs s) :
    ∃ rs', Answered l cs (rs ++ rs') := by
  obtain ⟨rs', t, hruns, hend⟩ := ((live_start l cs).runs hr).exists_end
  exact ⟨rs', t, hr.trans hruns, hend⟩

/-- A thread behind a stream takes a step. -/
theorem Runs.work {g g' : Handoff} (hr : Runs s rs t) (id : Nat)
    (handle : t.handles[id]? = some (.stream g)) (hs : Handoff.Step g g') :
    Runs s rs (t.put id (.stream g')) := by
  have hwork := hr.trans (Step.work handle (.stream hs)).runs
  rwa [Option.toList_none, List.append_nil] at hwork

/-- The kept handles are answered in just the ways in which they are answered in a script of their own,
whatever is done with the others and however the threads take turns. All answers but the offsets of
open streams are settled. `tokenize` answers as on a fresh lexer, and a copy serves as the lexer itself.
Every session can be led to its end, and none goes on for ever. -/
theorem handles_isolated (keep : Nat → Bool) (cs : List Command) (l : Lexer) :
    (∀ rs, Answered l (Command.restrict keep 0 cs) rs ↔
        ∃ rs', Answered l cs rs' ∧ rs = (Command.select keep 0 cs rs').map (Reply.renumber keep)) ∧
      (∀ rs, Answered l cs rs → Command.Settled cs (Session.trace cs (.start l)) rs) ∧
      Session.trace (Command.restrict keep 0 cs) (.start l) =
        (Command.select keep 0 cs (Session.trace cs (.start l))).map (Reply.renumber keep) ∧
      (∀ rs (n : Nat), Answered l cs rs → cs[n]? = some .tokenize →
        rs[n]? = some (.tokenized (tokenize l.config l.source))) ∧
      (∀ rs, Answered l (cs.map Command.withoutCopy) rs ↔ Answered l cs rs) ∧
      (∀ rs s, Runs (start l cs) rs s → ∃ rs', Answered l cs (rs ++ rs')) ∧
      WellFounded fun s' s : ThreadedSession => ∃ reply?, Step s reply? s' := by
  refine ⟨answered_restrict_iff keep l cs, ?_, Session.trace_restrict keep cs l,
    fun _ _ ha hn => ha.tokenized hn, answered_withoutCopy_iff l cs, fun _ _ hr => hr.exists_answered,
    wellFounded_step⟩
  rintro rs ⟨t, hruns, hend⟩
  exact (alongside_start l cs).settled hruns hend

/-- The stream of the copy tells how far it is while it is open, and the other one is dropped. -/
theorem handles_isolated_second_of_two :
    let l : Lexer := ⟨" a\x7b\x7d".toList, .standard⟩
    let cs : List Command := [.spawn, .spawnCopy, .ask 1 .offset, .ask 0 .drop, .tokenize]
    let rs : List Reply := [.opened 0, .opened 1, .number 1, .dropped, .tokenized l.tokenize]
    Answered l cs rs ∧
      Answered l [.spawnCopy, .ask 0 .offset, .tokenize] [.opened 0, .number 1, .tokenized l.tokenize] ∧
      Command.Settled cs (Session.trace cs (.start l)) rs ∧
      rs[4]? = some (.tokenized (tokenize .standard " a\x7b\x7d".toList)) ∧
      ∃ rs', Answered l cs (.opened 0 :: rs') := by
  intro l cs rs
  have hopen := (Step.open (s := start l cs) rfl rfl rfl).runs
  have hr := hopen.trans (Step.open rfl rfl rfl).runs
  -- The producer behind the copy's stream skips the space before the offset is asked for.
  replace hr := hr.work 1 rfl (.work rfl)
  replace hr := hr.trans (Step.call rfl rfl rfl).runs
  replace hr := hr.work 1 rfl (.ask rfl rfl)
  replace hr := hr.trans (Step.answer rfl rfl rfl (.stream ⟨rfl, rfl⟩ rfl)).runs
  -- The other producer is refused with its first token.
  replace hr := hr.trans (Step.call rfl rfl rfl).runs
  replace hr := hr.work 0 rfl (.ask rfl rfl)
  replace hr := hr.work 0 rfl (.work rfl)
  replace hr := hr.work 0 rfl (.work rfl)
  replace hr := hr.work 0 rfl (.refuse rfl rfl)
  replace hr := hr.work 0 rfl (.join rfl rfl)
  replace hr := hr.trans (Step.answer rfl rfl rfl (.stream ⟨rfl, rfl⟩ rfl)).runs
  replace hr := hr.trans (Step.tell rfl rfl rfl).runs
  have hanswered : Answered l cs rs := ⟨_, hr, rfl⟩
  obtain ⟨hrestrict, hsettled, -, htokenize, -, hend, -⟩ := handles_isolated (· == 1) cs l
  exact ⟨hanswered, (hrestrict _).2 ⟨rs, hanswered, rfl⟩, hsettled rs hanswered,
    htokenize rs 4 hanswered rfl, hend _ _ hopen⟩

end ThreadedSession

end StyleLex

import StyleLex.Proofs.ThreadedRuns

/-!
# Answers that are settled

Under every schedule a session with threads answers as the one whose producers work on demand. Only to
the offset of an open stream it gives a number that hangs on the schedule, where the other gives none.
-/
namespace StyleLex

/-- The run that every consumer of the lexer is handed. -/
def Lexer.run (l : Lexer) : Run := (Machine.start l.config l.source).run

variable {run : Run} {as bs : List Answer} {q : Query} {r? : Option Request} {reply : Reply}

namespace Answer

variable {a b : Answer}

theorem Answered.of_concat (h : Answered run (as ++ [a])) : Answered run as ∧ a.Correct run as := by
  generalize hall : as ++ [a] = all at h
  cases h with
  | nothing => simp at hall
  | snoc before correct =>
    obtain ⟨rfl, hlast⟩ := List.append_inj' hall rfl
    obtain rfl := List.singleton_inj.1 hlast
    exact ⟨before, correct⟩

/-- Behind the same items only the offset of an open stream can be answered in two ways. -/
theorem Correct.eq_or (ha : a.Correct run as) (hb : b.Correct run bs)
    (hrequest : a.request = b.request) (hclosed : as.any closes = bs.any closes)
    (hreceived : received as = received bs) :
    a = b ∨ a.request = .offset ∧ as.any closes = false := by
  obtain ⟨r, reply⟩ := a
  obtain ⟨r', reply'⟩ := b
  obtain rfl : r = r' := hrequest
  cases r with
  | next | rest => exact .inl (by rw [Answer.mk.injEq, ha, hb, hclosed, hreceived]; exact ⟨rfl, rfl⟩)
  | close => exact .inl (by rw [Answer.mk.injEq, ha, hb]; exact ⟨rfl, rfl⟩)
  | isClosed => exact .inl (by rw [Answer.mk.injEq, ha, hb, hclosed]; exact ⟨rfl, rfl⟩)
  | offset =>
    cases hany : as.any closes with
    | false => exact .inr ⟨rfl, rfl⟩
    | true =>
      refine .inl ?_
      rw [Answer.mk.injEq, ha hany, hb (hclosed ▸ hany), tokensReceived, tokensReceived, hreceived]
      exact ⟨rfl, rfl⟩

/-- The same calls receive the same items and close the stream alike. -/
theorem Answered.same (ha : Answered run as) (hb : Answered run bs)
    (hrequests : as.map Answer.request = bs.map Answer.request) :
    Answer.received as = Answer.received bs ∧ as.any closes = bs.any closes := by
  induction ha generalizing bs with
  | nothing =>
    obtain rfl := List.map_eq_nil_iff.1 hrequests.symm
    exact ⟨rfl, rfl⟩
  | @snoc as a before correct ih =>
    rw [List.map_append, List.map_singleton] at hrequests
    obtain ⟨bs, last, rfl, hbs, hlast⟩ := List.map_eq_append_iff.1 hrequests.symm
    obtain ⟨b, rfl, hb'⟩ := List.map_eq_singleton_iff.1 hlast
    obtain ⟨hbefore, hcorrect⟩ := hb.of_concat
    obtain ⟨hreceived, hclosed⟩ := ih hbefore hbs.symm
    rw [received_append, received_append, List.any_append, List.any_append, hreceived, hclosed]
    rcases correct.eq_or hcorrect hb'.symm hclosed hreceived with rfl | ⟨hoffset, -⟩
    · exact ⟨rfl, rfl⟩
    · obtain ⟨r, reply⟩ := a
      obtain ⟨r', reply'⟩ := b
      obtain rfl : r = .offset := hoffset
      obtain rfl : r' = .offset := hb'
      exact ⟨rfl, rfl⟩

end Answer

namespace Handoff

variable {requests : List Request} {h : Handoff}

theorem Keeps.requests_of_idle (hk : h.Keeps run requests) (idle : h.Idle) :
    h.answers.map Answer.request = requests := by
  have hrequests := hk.requests
  rw [idle.1, idle.2] at hrequests
  simpa [Calling.request?] using hrequests

end Handoff

/-- The answer is the settled one, unless it is a number where none is settled. -/
def Query.Agree (q : Query) (settled reply : Reply) : Prop :=
  reply = settled ∨ q = .offset ∧ settled = .nothing ∧ ∃ n, reply = .number n

namespace Handle

/-- A handle with threads, of which the call `r?` is under way, and the handle whose producer works on
demand have answered the same calls. -/
inductive Alongside (run : Run) (r? : Option Request) : Handle Handoff → Handle Stream → Prop where
  | pull (p : Pull) : Alongside run r? (.pull p) (.pull p)
  | stream {h : Handoff} {s : Stream} {as : List Answer}
      (handoff : h.Keeps run (as.map Answer.request ++ r?.toList)) (tells : h.TellsOffset)
      (stream : s.Keeps run as) : Alongside run r? (.stream h) (.stream s)
  | dropped : Alongside run r? .dropped .dropped

variable {h h' : Handle Handoff} {d : Handle Stream}

theorem Alongside.begin (ha : h.Alongside run none d) (q : Query) :
    (h.begin q).Alongside run q.request? d := by
  cases ha with
  | pull p => exact .pull p
  | dropped => exact .dropped
  | @stream h s as handoff tells stream =>
    rw [Option.toList_none, List.append_nil] at handoff
    rw [Handle.begin]
    cases hq : q.request? with
    | none => exact .stream (by simpa using handoff) tells stream
    | some r => exact .stream (handoff.call r) (tells.call r) stream

theorem Alongside.works (ha : h.Alongside run r? d) (hw : h.Works h') : h'.Alongside run r? d := by
  cases hw with
  | stream hs =>
    cases ha with
    | stream handoff tells stream => exact .stream (handoff.step hs) (tells.step hs) stream

/-- A stream answers a call as the one that works on demand. -/
theorem agree_of_idle {h : Handoff} {s : Stream} {r : Request}
    (handoff : h.Keeps run (as.map Answer.request ++ [r])) (tells : h.TellsOffset)
    (stream : s.Keeps run as) (idle : h.Idle) :
    ∃ settled s', s.ask r.query = (settled, .stream s') ∧ r.query.Agree settled h.lastReply ∧
      (Handle.stream h).Alongside run none (.stream s') := by
  obtain ⟨bs, last, hanswers, hbs, hlast⟩ := List.map_eq_append_iff.1 (handoff.requests_of_idle idle)
  obtain ⟨b, rfl, rfl⟩ := List.map_eq_singleton_iff.1 hlast
  have hanswered := handoff.answered
  rw [hanswers] at hanswered
  obtain ⟨hbefore, hcorrect⟩ := hanswered.of_concat
  obtain ⟨hreceived, hclosed⟩ := hbefore.same stream.answered hbs
  obtain ⟨settled, s', hask, hs'⟩ := stream.ask b.request
  refine ⟨settled, s', hask, ?_, .stream (by simpa using handoff) tells hs'⟩
  have hreply : h.lastReply = b.reply := by simp [Handoff.lastReply, hanswers]
  rw [hreply]
  rcases hcorrect.eq_or hs'.answered.of_concat.2 rfl hclosed hreceived with heq | ⟨hoffset, hopen⟩
  · exact .inl (congrArg Answer.reply heq)
  · obtain ⟨n, hn⟩ := tells.answers b (by simp [hanswers]) hoffset
    have hnot : s.closed = false := by rw [stream.closed, ← hclosed, hopen]
    have hnothing : settled = .nothing := by
      rw [hoffset] at hask
      obtain ⟨rfl, -⟩ := Prod.mk.inj hask
      rw [Stream.settledOffset?, hnot]
      rfl
    exact .inr ⟨congrArg Request.query hoffset, hnothing, n, hn⟩

theorem Alongside.answers (ha : h.Alongside run q.request? d) (hanswers : h.Answers q reply h') :
    q.Agree (d.ask q).1 reply ∧ h'.Alongside run none (d.ask q).2 := by
  cases hanswers with
  | @pull p _ _ told =>
    cases ha with
    | pull =>
      cases q with
      | _ =>
        obtain ⟨rfl, rfl⟩ := Prod.mk.inj told
        first
        | exact ⟨.inl rfl, .pull _⟩
        | exact ⟨.inl rfl, .dropped⟩
  | dropped =>
    cases ha with
    | dropped => exact ⟨.inl rfl, .dropped⟩
  | @stream h _ _ idle told =>
    cases ha with
    | @stream _ s as handoff tells stream =>
      have hcall {r : Request} (hr : q.request? = some r) (hq : r.query = q)
          (htell : h.tell q = (h.lastReply, .stream h)) :
          q.Agree (s.ask q).1 reply ∧ h'.Alongside run none (s.ask q).2 := by
        rw [hr] at handoff
        obtain ⟨settled, s', hask, hagree, halong⟩ := agree_of_idle handoff tells stream idle
        obtain ⟨rfl, rfl⟩ := Prod.mk.inj (htell.symm.trans told)
        rw [hq] at hask hagree
        rw [hask]
        exact ⟨hagree, halong⟩
      cases q with
      | next => exact hcall rfl rfl rfl
      | rest => exact hcall rfl rfl rfl
      | offset => exact hcall rfl rfl rfl
      | isClosed => exact hcall rfl rfl rfl
      | close => exact hcall rfl rfl rfl
      | drop =>
        obtain ⟨rfl, rfl⟩ := Prod.mk.inj told
        exact ⟨.inl rfl, .dropped⟩
      | depth =>
        obtain ⟨rfl, rfl⟩ := Prod.mk.inj told
        exact ⟨.inl rfl, .stream handoff tells stream⟩

end Handle

namespace Command

/-- The answer is the settled one, unless it is a number for an offset that is not settled. -/
def Agree (c : Command) (settled reply : Reply) : Prop :=
  reply = settled ∨ (∃ id, c = .ask id .offset) ∧ settled = .nothing ∧ ∃ n, reply = .number n

/-- The commands have these settled answers, and were answered so. -/
inductive Settled : List Command → List Reply → List Reply → Prop where
  | nil : Settled [] [] []
  | cons {c : Command} {cs : List Command} {settled reply : Reply} {settleds replies : List Reply}
      (agree : c.Agree settled reply) (behind : Settled cs settleds replies) :
      Settled (c :: cs) (settled :: settleds) (reply :: replies)

theorem Settled.agree {cs : List Command} {settleds replies : List Reply} {c : Command} {n : Nat}
    (h : Settled cs settleds replies) (hc : cs[n]? = some c) :
    ∃ settled reply, settleds[n]? = some settled ∧ replies[n]? = some reply ∧
      c.Agree settled reply := by
  induction h generalizing n with
  | nil => simp at hc
  | cons agree _ ih =>
    cases n with
    | zero =>
      obtain rfl := Option.some.inj hc
      exact ⟨_, _, rfl, rfl, agree⟩
    | succ n => exact ih hc

end Command

namespace ThreadedSession

variable {s s' : ThreadedSession} {d : Session} {reply? : Option Reply} {rs : List Reply} {id : Nat}

/-- The call of a handle that is under way. -/
def underWay? (s : ThreadedSession) (id : Nat) : Option Request :=
  if s.calling then
    match s.commands.head? with
    | some (.ask id' q) => if id' = id then q.request? else none
    | _ => none
  else none

theorem underWay?_of_ready (ready : s.calling = false) (id : Nat) : s.underWay? id = none := by
  rw [underWay?, ready]
  rfl

theorem underWay?_of_ahead (calling : s.calling = true) (ahead : s.commands.head? = some (.ask id q))
    (id' : Nat) : s.underWay? id' = if id = id' then q.request? else none := by
  rw [underWay?, calling, ahead]
  rfl

variable {h h' : Handle Handoff} {g g' : Handle Stream} {c : Command}

/-- The sessions have opened the same handles, which have come equally far. -/
structure Alongside (s : ThreadedSession) (d : Session) : Prop where
  lexer : d.lexer = s.lexer
  length : d.handles.length = s.handles.length
  handle : ∀ id (h : Handle Handoff) (g : Handle Stream), s.handles[id]? = some h →
    d.handles[id]? = some g → h.Alongside s.lexer.run (s.underWay? id) g

theorem alongside_start (l : Lexer) (cs : List Command) : (start l cs).Alongside (.start l) where
  lexer := rfl
  length := rfl
  handle := by
    intro id h g hh
    simp [start] at hh

theorem Alongside.exists_handle (ha : s.Alongside d) (handle : s.handles[id]? = some h) :
    ∃ g, d.handles[id]? = some g ∧ h.Alongside s.lexer.run (s.underWay? id) g := by
  have hlt : id < d.handles.length := by
    rw [ha.length]
    exact (List.getElem?_eq_some_iff.1 handle).1
  have hg := List.getElem?_eq_getElem hlt
  exact ⟨_, hg, ha.handle id _ _ handle hg⟩

/-- One handle of each session is put in the place of another. -/
theorem Alongside.set (ha : s.Alongside d) (hlexer : s'.lexer = s.lexer)
    (hput : s'.handles = s.handles.set id h')
    (hothers : ∀ id', id ≠ id' → s'.underWay? id' = s.underWay? id')
    (hg : h'.Alongside s.lexer.run (s'.underWay? id) g) :
    s'.Alongside { d with handles := d.handles.set id g } where
  lexer := ha.lexer.trans hlexer.symm
  length := by rw [hput, List.length_set, List.length_set, ha.length]
  handle := by
    intro id' f f' hf hf'
    rw [hlexer]
    by_cases heq : id = id'
    · subst heq
      rw [hput, List.getElem?_set_self'] at hf
      rw [List.getElem?_set_self'] at hf'
      obtain ⟨_, -, rfl⟩ := Option.map_eq_some_iff.1 hf
      obtain ⟨_, -, rfl⟩ := Option.map_eq_some_iff.1 hf'
      exact hg
    · rw [hput, List.getElem?_set_ne heq] at hf
      rw [List.getElem?_set_ne heq] at hf'
      rw [hothers id' heq]
      exact ha.handle id' f f' hf hf'

/-- A handle goes on while the other session stands still. -/
theorem Alongside.set_left (ha : s.Alongside d) (hlexer : s'.lexer = s.lexer)
    (hput : s'.handles = s.handles.set id h')
    (hothers : ∀ id', id ≠ id' → s'.underWay? id' = s.underWay? id') (handle : d.handles[id]? = some g)
    (hg : h'.Alongside s.lexer.run (s'.underWay? id) g) : s'.Alongside d := by
  have hset := ha.set hlexer hput hothers hg
  obtain ⟨hlt, rfl⟩ := List.getElem?_eq_some_iff.1 handle
  rwa [List.set_getElem_self] at hset

theorem Alongside.advance (ha : s.Alongside d) (ready : s.calling = false) :
    s.advance.Alongside d where
  lexer := ha.lexer
  length := ha.length
  handle := by
    intro id h g hh hg
    have hhandle := ha.handle id h g hh hg
    rw [underWay?_of_ready ready] at hhandle
    exact hhandle

theorem Alongside.append (ha : s.Alongside d) (ready : s.calling = false)
    (hg : h.Alongside s.lexer.run none g) :
    Alongside { s with handles := s.handles ++ [h] } { d with handles := d.handles ++ [g] } where
  lexer := ha.lexer
  length := by
    rw [List.length_append, List.length_append, ha.length]
    rfl
  handle := by
    intro id f f' hf hf'
    have hready : ({ s with handles := s.handles ++ [h] } : ThreadedSession).underWay? id = none :=
      underWay?_of_ready ready id
    rw [hready]
    rcases Nat.lt_or_ge id s.handles.length with hlt | hge
    · rw [List.getElem?_append_left hlt] at hf
      rw [List.getElem?_append_left (ha.length ▸ hlt)] at hf'
      have hhandle := ha.handle id f f' hf hf'
      rwa [underWay?_of_ready ready] at hhandle
    · rw [List.getElem?_append_right hge] at hf
      rw [List.getElem?_append_right (ha.length ▸ hge), ha.length] at hf'
      obtain ⟨-, rfl⟩ := List.getElem?_eq_some_iff.1 hf
      obtain ⟨-, rfl⟩ := List.getElem?_eq_some_iff.1 hf'
      simpa using hg

/-- A handle that is opened has not come far. -/
theorem alongside_opened {l : Lexer} (opened : l.opened? c = some h) :
    ∃ g, (∀ d : Session, d.lexer = l → d.run c = d.addHandle g) ∧
      h.Alongside l.run none g := by
  have hkeeps : l.handoff.Keeps l.run (List.map Answer.request [] ++ none.toList) :=
    Handoff.keeps_start l.config l.source []
  have hstream : (Handle.stream l.handoff).Alongside l.run none (.stream l.spawn) :=
    .stream hkeeps (Handoff.tellsOffset_start l.config l.source [])
      (Stream.keeps_start l.config l.source)
  cases c with
  | tokens =>
    obtain rfl := Option.some.inj opened
    refine ⟨_, fun d hd => ?_, .pull _⟩
    rw [← hd]
    rfl
  | spawn =>
    obtain rfl := Option.some.inj opened
    refine ⟨_, fun d hd => ?_, hstream⟩
    rw [← hd]
    rfl
  | spawnCopy =>
    obtain rfl := Option.some.inj opened
    refine ⟨_, fun d hd => ?_, hstream⟩
    rw [← hd]
    rfl
  | tokenize | source | config | ask => simp [Lexer.opened?] at opened

theorem run_of_told {l : Lexer} {reply : Reply} (told : l.told? c = some reply) (hd : d.lexer = l) :
    d.run c = (reply, d) := by
  subst hd
  cases c with
  | tokenize | source | config =>
    obtain rfl := Option.some.inj told
    rfl
  | tokens | spawn | spawnCopy | ask => simp [Lexer.told?] at told

/-- A step without an answer leaves the settled session where it is, and one with an answer takes it to
the next command. -/
theorem Alongside.step (ha : s.Alongside d) (hs : Step s reply? s') : ∃ d', s'.Alongside d' ∧
    ∀ replies, Command.Settled s'.commands (Session.trace s'.commands d') replies →
      Command.Settled s.commands (Session.trace s.commands d) (reply?.toList ++ replies) := by
  -- With an answer to the command in front, the settled session has run that command.
  have hanswered {c : Command} {reply : Reply} (ahead : s.commands.head? = some c)
      (hagree : c.Agree (d.run c).1 reply) (replies : List Reply)
      (hbehind : Command.Settled s.commands.tail (Session.trace s.commands.tail (d.run c).2) replies) :
      Command.Settled s.commands (Session.trace s.commands d) (reply :: replies) := by
    obtain ⟨cs, hcs⟩ := List.head?_eq_some_iff.1 ahead
    rw [hcs] at hbehind ⊢
    exact .cons hagree hbehind
  cases hs with
  | @«open» c h ready ahead opened =>
    obtain ⟨g, hrun, hg⟩ := alongside_opened opened
    have hd := hrun d ha.lexer
    refine ⟨(d.run c).2, ?_, hanswered ahead (.inl ?_)⟩
    · rw [hd]
      exact (ha.advance ready).append rfl hg
    · rw [hd, Session.addHandle, ha.length]
  | @tell c reply ready ahead told =>
    have hd := run_of_told told ha.lexer
    refine ⟨(d.run c).2, ?_, hanswered ahead (.inl ?_)⟩
    · rw [hd]
      exact ha.advance ready
    · rw [hd]
  | @missing id q ready ahead missing =>
    have hmissing : d.handles[id]? = none := by
      rw [List.getElem?_eq_none_iff, ha.length]
      exact List.getElem?_eq_none_iff.1 missing
    have hd : d.run (.ask id q) = (.nothing, d) := by rw [Session.run, Session.ask, hmissing]
    refine ⟨(d.run (.ask id q)).2, ?_, hanswered ahead (.inl ?_)⟩
    · rw [hd]
      exact ha.advance ready
    · rw [hd]
  | @call id q h ready ahead handle =>
    obtain ⟨g, hg, halong⟩ := ha.exists_handle handle
    rw [underWay?_of_ready ready] at halong
    refine ⟨d, ?_, fun _ hbehind => hbehind⟩
    refine ha.set_left rfl rfl ?_ hg ?_
    · intro id' hne
      rw [underWay?_of_ahead (s := s.await id (h.begin q)) rfl ahead, if_neg hne,
        underWay?_of_ready ready]
    · rw [underWay?_of_ahead (s := s.await id (h.begin q)) rfl ahead, if_pos rfl]
      exact halong.begin q
  | @work id h h' handle works =>
    obtain ⟨g, hg, halong⟩ := ha.exists_handle handle
    refine ⟨d, ?_, fun _ hbehind => hbehind⟩
    exact ha.set_left rfl rfl (fun _ _ => rfl) hg (halong.works works)
  | @answer id q h h' reply calling ahead handle answers =>
    obtain ⟨g, hg, halong⟩ := ha.exists_handle handle
    rw [underWay?_of_ahead calling ahead, if_pos rfl] at halong
    obtain ⟨hagree, halong'⟩ := halong.answers answers
    have hd : d.run (.ask id q) = ((g.ask q).1, { d with handles := d.handles.set id (g.ask q).2 }) := by
      rw [Session.run, Session.ask, hg]
    refine ⟨(d.run (.ask id q)).2, ?_, hanswered ahead ?_⟩
    · rw [hd]
      refine ha.set rfl rfl ?_ ?_
      · intro id' hne
        rw [underWay?_of_ahead calling ahead, if_neg hne, underWay?_of_ready rfl]
      · rw [underWay?_of_ready rfl]
        exact halong'
    · rw [hd]
      exact hagree.imp_right fun ⟨hq, hsettled⟩ => ⟨⟨id, by rw [hq]⟩, hsettled⟩

/-- The answers of a whole run are the settled ones. -/
theorem Alongside.settled (ha : s.Alongside d) (hr : Runs s rs s') (hend : s'.commands = []) :
    Command.Settled s.commands (Session.trace s.commands d) rs := by
  induction hr generalizing d with
  | refl =>
    rw [hend]
    exact .nil
  | step first _ ih =>
    obtain ⟨d', ha', hbehind⟩ := ha.step first
    exact hbehind _ (ih ha' hend)

end ThreadedSession

end StyleLex

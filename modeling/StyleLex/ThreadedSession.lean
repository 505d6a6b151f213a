import StyleLex.Handoff

/-!
# Sessions with threads

Behind each stream that a session opens there is a producer on a thread of its own, which may go on
while the caller is busy with other handles. The caller is one thread: it gives one command after the
other, and waits for the answer to each.
-/
namespace StyleLex

namespace Handoff

/-- The consumer makes another call. -/
def call (r : Request) (h : Handoff) : Handoff := { h with requests := h.requests ++ [r] }

/-- Every call has been answered. -/
def Idle (h : Handoff) : Prop := h.consumer = .nothing ∧ h.requests = []

def lastReply (h : Handoff) : Reply := (h.answers.getLast?.map (·.reply)).getD .nothing

/-- The answer to a query behind its call. -/
def tell (h : Handoff) : Query → Reply × Handle Handoff
  | .depth => (.nothing, .stream h)
  | .drop => (.dropped, .dropped)
  | .next | .rest | .offset | .isClosed | .close => (h.lastReply, .stream h)

end Handoff

namespace Query

/-- What a stream is called for. It does not tell its depth, and is closed when it is dropped. -/
def request? : Query → Option Request
  | .next => some .next
  | .rest => some .rest
  | .close | .drop => some .close
  | .isClosed => some .isClosed
  | .offset => some .offset
  | .depth => none

end Query

namespace Handle

/-- Makes the call that a query needs. -/
def «begin» (q : Query) : Handle Handoff → Handle Handoff
  | .stream h => .stream (q.request?.elim h h.call)
  | .pull p => .pull p
  | .dropped => .dropped

/-- Only behind a stream there are threads that take steps. -/
inductive Works : Handle Handoff → Handle Handoff → Prop where
  | stream {h h' : Handoff} (step : Handoff.Step h h') : Works (.stream h) (.stream h')

/-- The answer to a query that was begun, and the handle then. A stream has to answer its call first. -/
inductive Answers (q : Query) : Handle Handoff → Reply → Handle Handoff → Prop where
  | pull {p : Pull} {reply : Reply} {h' : Handle Handoff} (told : p.ask q = (reply, h')) :
      Answers q (.pull p) reply h'
  | stream {h : Handoff} {reply : Reply} {h' : Handle Handoff} (idle : h.Idle)
      (told : h.tell q = (reply, h')) : Answers q (.stream h) reply h'
  | dropped : Answers q .dropped (.ofDropped q) .dropped

end Handle

namespace Lexer

def handoff (l : Lexer) : Handoff := .start l.config l.source []

/-- The handle that a command opens. -/
def opened? (l : Lexer) : Command → Option (Handle Handoff)
  | .tokens => some (.pull l.tokens)
  | .spawn => some (.stream l.handoff)
  | .spawnCopy => some (.stream l.copy.handoff)
  | .tokenize | .source | .config | .ask .. => none

/-- The answer to a command without a handle. -/
def told? (l : Lexer) : Command → Option Reply
  | .tokenize => some (.tokenized l.tokenize)
  | .source => some (.source l.source)
  | .config => some (.config l.config)
  | .tokens | .spawn | .spawnCopy | .ask .. => none

end Lexer

/-- A lexer with the handles opened so far, and the commands that its caller still gives. -/
structure ThreadedSession where
  lexer : Lexer
  handles : List (Handle Handoff)
  /-- The commands that are not yet answered. -/
  commands : List Command
  /-- Whether the first of them is a query that was begun. -/
  calling : Bool

namespace ThreadedSession

def start (l : Lexer) (cs : List Command) : ThreadedSession := ⟨l, [], cs, false⟩

def put (id : Nat) (h : Handle Handoff) (s : ThreadedSession) : ThreadedSession :=
  { s with handles := s.handles.set id h }

/-- Waits for the answer of a handle. -/
def await (id : Nat) (h : Handle Handoff) (s : ThreadedSession) : ThreadedSession :=
  { s.put id h with calling := true }

/-- Goes on to the next command. -/
def advance (s : ThreadedSession) : ThreadedSession :=
  { s with commands := s.commands.tail, calling := false }

/-- The steps of the caller and of the threads behind its handles, with the answer if one is given. -/
inductive Step : ThreadedSession → Option Reply → ThreadedSession → Prop where
  | «open» {s : ThreadedSession} {c : Command} {h : Handle Handoff} (ready : s.calling = false)
      (ahead : s.commands.head? = some c) (opened : s.lexer.opened? c = some h) :
      Step s (some (.opened s.handles.length)) { s.advance with handles := s.handles ++ [h] }
  | tell {s : ThreadedSession} {c : Command} {reply : Reply} (ready : s.calling = false)
      (ahead : s.commands.head? = some c) (told : s.lexer.told? c = some reply) :
      Step s (some reply) s.advance
  | missing {s : ThreadedSession} {id : Nat} {q : Query} (ready : s.calling = false)
      (ahead : s.commands.head? = some (.ask id q)) (missing : s.handles[id]? = none) :
      Step s (some .nothing) s.advance
  | call {s : ThreadedSession} {id : Nat} {q : Query} {h : Handle Handoff}
      (ready : s.calling = false) (ahead : s.commands.head? = some (.ask id q))
      (handle : s.handles[id]? = some h) :
      Step s none (s.await id (h.begin q))
  | work {s : ThreadedSession} {id : Nat} {h h' : Handle Handoff}
      (handle : s.handles[id]? = some h) (works : h.Works h') : Step s none (s.put id h')
  | answer {s : ThreadedSession} {id : Nat} {q : Query} {h h' : Handle Handoff} {reply : Reply}
      (calling : s.calling = true) (ahead : s.commands.head? = some (.ask id q))
      (handle : s.handles[id]? = some h) (answers : h.Answers q reply h') :
      Step s (some reply) (s.put id h').advance

/-- The session gets from one state to the other in some order of its steps, with these answers. -/
inductive Runs : ThreadedSession → List Reply → ThreadedSession → Prop where
  | refl (s : ThreadedSession) : Runs s [] s
  | step {s s' s'' : ThreadedSession} {reply? : Option Reply} {rs : List Reply}
      (first : Step s reply? s') (behind : Runs s' rs s'') : Runs s (reply?.toList ++ rs) s''

/-- Under some schedule of the threads the commands are answered so. -/
def Answered (l : Lexer) (cs : List Command) (rs : List Reply) : Prop :=
  ∃ s, Runs (start l cs) rs s ∧ s.commands = []

end ThreadedSession

end StyleLex

import StyleLex.PullRun
import StyleLex.StreamRun

/-!
# Sessions

A session opens any number of pulls and streams over one text. They are numbered in order of their
opening, and each goes its own way. The producers of its streams work on demand, so its answers are
those that are settled whatever the threads of a session do.
-/
namespace StyleLex

structure Lexer where
  source : Text
  config : Config
  deriving DecidableEq

namespace Lexer

/-- Another lexer over the same text with the same options. -/
def copy (l : Lexer) : Lexer := ⟨l.source, l.config⟩

def tokens (l : Lexer) : Pull := .start l.config l.source

def spawn (l : Lexer) : Stream := .start l.config l.source

def tokenize (l : Lexer) : Except LexError (List Token) := StyleLex.tokenize l.config l.source

end Lexer

/-- An opened consumer. What is behind a stream may be a producer that works on demand, or a thread. -/
inductive Handle (σ : Type) where
  | pull (p : Pull)
  | stream (s : σ)
  | dropped
  deriving DecidableEq

inductive Query where
  | next | rest | offset | depth | isClosed | close | drop
  deriving DecidableEq

inductive Command where
  | tokens | spawn | spawnCopy | tokenize | source | config
  | ask (id : Nat) (query : Query)
  deriving DecidableEq

inductive Reply where
  | nothing
  | opened (id : Nat)
  | tokenized (result : Except LexError (List Token))
  | source (text : Text)
  | config (config : Config)
  | item (i : Item)
  | items (is : List Item)
  | number (n : Nat)
  | verdict (holds : Bool)
  | dropped

namespace Reply

def ofItem? : Option Item → Reply
  | none => .nothing
  | some i => .item i

def ofNumber? : Option Nat → Reply
  | none => .nothing
  | some n => .number n

/-- A dropped handle can be dropped again, and answers nothing else. -/
def ofDropped : Query → Reply
  | .drop => .dropped
  | .next | .rest | .offset | .depth | .isClosed | .close => .nothing

end Reply

namespace Pull

/-- A pull is never closed. -/
def ask {σ : Type} (p : Pull) : Query → Reply × Handle σ
  | .next => (.ofItem? p.next.1, .pull p.next.2)
  | .rest => (.items p.drain.1, .pull p.drain.2)
  | .offset => (.number p.offset, .pull p)
  | .depth => (.number p.depth, .pull p)
  | .isClosed | .close => (.nothing, .pull p)
  | .drop => (.dropped, .dropped)

end Pull

namespace Stream

/-- The settled answers. A stream does not tell its depth. -/
def ask (s : Stream) : Query → Reply × Handle Stream
  | .next => (.ofItem? s.next.1, .stream s.next.2)
  | .rest => (.items s.drain.1, .stream s.drain.2)
  | .offset => (.ofNumber? s.settledOffset?, .stream s)
  | .depth => (.nothing, .stream s)
  | .isClosed => (.verdict s.closed, .stream s)
  | .close => (.verdict true, .stream s.close)
  | .drop => (.dropped, .dropped)

end Stream

namespace Handle

def ask : Handle Stream → Query → Reply × Handle Stream
  | .pull p, q => p.ask q
  | .stream s, q => s.ask q
  | .dropped, q => (.ofDropped q, .dropped)

end Handle

/-- A lexer with the handles opened so far. -/
structure Session where
  lexer : Lexer
  handles : List (Handle Stream)

namespace Session

def start (l : Lexer) : Session := ⟨l, []⟩

def addHandle (h : Handle Stream) (s : Session) : Reply × Session :=
  (.opened s.handles.length, { s with handles := s.handles ++ [h] })

/-- A handle that was never opened answers nothing. -/
def ask (id : Nat) (q : Query) (s : Session) : Reply × Session :=
  match s.handles[id]? with
  | none => (.nothing, s)
  | some h => ((h.ask q).1, { s with handles := s.handles.set id (h.ask q).2 })

def run (s : Session) : Command → Reply × Session
  | .tokens => s.addHandle (.pull s.lexer.tokens)
  | .spawn => s.addHandle (.stream s.lexer.spawn)
  | .spawnCopy => s.addHandle (.stream s.lexer.copy.spawn)
  | .tokenize => (.tokenized s.lexer.tokenize, s)
  | .source => (.source s.lexer.source, s)
  | .config => (.config s.lexer.config, s)
  | .ask id q => s.ask id q

def trace : List Command → Session → List Reply
  | [], _ => []
  | c :: cs, s => (s.run c).1 :: trace cs (s.run c).2

end Session

end StyleLex

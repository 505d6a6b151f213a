import StyleLex.BatchRun
import StyleLex.Proofs.CursorPosition

/-!
# The layout of a run

A run moves over its text piece by piece. Each piece is handed over as a token or dropped, and the
tokens have the places of their pieces.
-/
namespace StyleLex

inductive Piece where
  | gap (text : Text)
  | token (kind : Kind) (text : Text)

namespace Piece

def text : Piece → Text
  | .gap t => t
  | .token _ t => t

/-- The text that the pieces make up. -/
def texts (ps : List Piece) : Text := ps.flatMap text

/-- The tokens of pieces that stand behind `before`. -/
def tokens (before : Text) : List Piece → List Token
  | [] => []
  | .gap t :: ps => tokens (before ++ t) ps
  | .token k t :: ps => .make k t before.byteSize (1 + before.newlines) :: tokens (before ++ t) ps

@[simp] theorem texts_nil : texts [] = [] := rfl

@[simp] theorem texts_cons (p : Piece) (ps : List Piece) : texts (p :: ps) = p.text ++ texts ps := by
  simp [texts]

@[simp] theorem texts_append (ps qs : List Piece) : texts (ps ++ qs) = texts ps ++ texts qs := by
  simp [texts]

theorem tokens_append (before : Text) (ps qs : List Piece) :
    tokens before (ps ++ qs) = tokens before ps ++ tokens (before ++ texts ps) qs := by
  induction ps generalizing before with
  | nil => simp [tokens]
  | cons p ps ih => cases p <;> simp [tokens, text, ih]

end Piece

namespace Kind

/-- The kinds of tokens that may have no text. Glue never has any. -/
def Allows (k : Kind) (t : Text) : Prop :=
  (k = .andCombinator → t = []) ∧ (t = [] → k = .andCombinator ∨ k = .quotedString)

theorem allows_of_ne {k : Kind} {t : Text} (hk : k ≠ .andCombinator) (ht : t ≠ []) : k.Allows t :=
  ⟨fun h => absurd h hk, fun h => absurd h ht⟩

end Kind

namespace Script

/-- The pieces that a script moves over. The text in front of an error is none of them. -/
def pieces : Script → List Piece
  | .skip t s => .gap t :: s.pieces
  | .emit k t s => .token k t :: s.pieces
  | .enter _ s | .leave s | .note _ s => s.pieces
  | .goto _ | .resume | .fail _ _ => []

/-- The script moves over the text ahead and nothing else, and ends a run only behind all of it. -/
def Reads : Script → Text → Prop
  | .skip t s, rest => ∃ tail, rest = t ++ tail ∧ s.Reads tail
  | .emit k t s, rest => k.Allows t ∧ ∃ tail, rest = t ++ tail ∧ s.Reads tail
  | .enter _ s, rest | .leave s, rest | .note _ s, rest => s.Reads rest
  | .goto st, rest => st = .done → rest = []
  | .resume, _ => True
  | .fail t _, rest => t <+: rest

/-- The pieces of a script make up text ahead. -/
theorem Reads.split {s : Script} {rest : Text} (h : s.Reads rest) :
    ∃ tail, rest = Piece.texts s.pieces ++ tail := by
  induction s generalizing rest with
  | skip t s ih =>
    obtain ⟨behind, rfl, h⟩ := h
    obtain ⟨tail, rfl⟩ := ih h
    exact ⟨tail, by simp [pieces, Piece.text]⟩
  | emit k t s ih =>
    obtain ⟨_, behind, rfl, h⟩ := h
    obtain ⟨tail, rfl⟩ := ih h
    exact ⟨tail, by simp [pieces, Piece.text]⟩
  | enter mode s ih => exact ih h
  | leave s ih => exact ih h
  | note c s ih => exact ih h
  | goto st => exact ⟨rest, rfl⟩
  | resume => exact ⟨rest, rfl⟩
  | fail t f => exact ⟨rest, rfl⟩

theorem Reads.allows {s : Script} {rest t : Text} {k : Kind} (h : s.Reads rest)
    (hmem : .token k t ∈ s.pieces) : k.Allows t := by
  induction s generalizing rest with
  | skip t' s ih =>
    obtain ⟨_, _, h⟩ := h
    rcases List.mem_cons.1 hmem with heq | hmem
    · cases heq
    · exact ih h hmem
  | emit k' t' s ih =>
    obtain ⟨hallows, _, _, h⟩ := h
    rcases List.mem_cons.1 hmem with heq | hmem
    · cases heq
      exact hallows
    · exact ih h hmem
  | enter mode s ih => exact ih h hmem
  | leave s ih => exact ih h hmem
  | note c s ih => exact ih h hmem
  | goto st => cases hmem
  | resume => cases hmem
  | fail t f => cases hmem

end Script

end StyleLex

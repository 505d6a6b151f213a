import StyleLex.Proofs.LosslessCoverage
import StyleLex.Proofs.UnpartedHashes

/-!
# Places for more spaces

Spaces may be put in next to punctuation, and next to a space that no token holds. A place is said by
the text in front of it.
-/
namespace StyleLex

namespace Kind

/-- The kinds of tokens that spaces may be put in front of. -/
def spaceBefore : Kind → Bool
  | .braceStart | .braceEnd | .colon | .semicolon | .comma | .parenStart | .parenEnd | .attrEnd
  | .interpolationEnd | .childCombinator | .adjacentCombinator | .siblingCombinator => true
  | k => k.isOperator

/-- The kinds of tokens that spaces may be put behind. -/
def spaceBehind : Kind → Bool
  | .braceStart | .braceEnd | .colon | .semicolon | .comma | .parenStart | .parenEnd | .attrStart
  | .interpolationStart | .childCombinator | .adjacentCombinator | .siblingCombinator => true
  | k => k.isOperator

theorem spaceBefore_of_isSelector {k : Kind} (h : k.isSelector = true) : k.spaceBefore = false := by
  cases k <;> first | rfl | simp [isSelector] at h

theorem spaceBehind_of_isSelector {k : Kind} (h : k.isSelector = true) : k.spaceBehind = false := by
  cases k <;> first | rfl | simp [isSelector] at h

theorem spaceBehind_of_isAtRule {k : Kind} (h : k.isAtRule = true) : k.spaceBehind = false := by
  cases k <;> first | rfl | simp [isAtRule] at h

theorem spaceBefore_of_isAtRule {k : Kind} (h : k.isAtRule = true) : k.spaceBefore = false := by
  cases k <;> first | rfl | simp [isAtRule] at h

end Kind

/-- The place between `front` and `behind` is free for spaces, as the tokens `ts` tell. -/
inductive FreePlace (ts : List Token) (front behind : Text) : Prop where
  | before {t : Token} (mem : t ∈ ts) (kind : t.kind.spaceBefore = true)
      (place : t.offset = front.byteSize)
  | behind {t : Token} (mem : t ∈ ts) (kind : t.kind.spaceBehind = true)
      (place : t.stop = front.byteSize)
  | beforeSpace {a : Char} {r : Text} (ahead : behind = a :: r) (space : isSpace a = true)
      (bare : ¬Covered ts front.byteSize)
  | behindSpace {a : Char} {u : Text} (ahead : front = u ++ [a]) (space : isSpace a = true)
      (bare : ¬Covered ts u.byteSize)

/-- The place behind `x` is free for spaces, as the pieces tell. -/
inductive Loose : Text → List Piece → Prop where
  | space {x u r : Text} {a : Char} {ps : List Piece} (space : isSpace a = true)
      (place : x = u ∨ x = u ++ [a]) : Loose x (.gap (u ++ a :: r) :: ps)
  | before {k : Kind} {t : Text} {ps : List Piece} (kind : k.spaceBefore = true) :
      Loose [] (.token k t :: ps)
  | behind {k : Kind} {t : Text} {ps : List Piece} (kind : k.spaceBehind = true) :
      Loose t (.token k t :: ps)
  | further {p : Piece} {y : Text} {ps : List Piece} (rest : Loose y ps) : Loose (p.text ++ y) (p :: ps)

variable {before t u x y b : Text} {a : Char} {k : Kind} {p : Piece} {ps : List Piece}

theorem Loose.gap (h : Loose x (.gap t :: ps)) (bare : ∀ a ∈ t, isSpace a = false) :
    ∃ y, x = t ++ y ∧ Loose y ps := by
  cases h with
  | @space _ u r a _ space place =>
    rw [bare a (by simp)] at space
    cases space
  | further rest => exact ⟨_, rfl, rest⟩

theorem Loose.behind_gap (h : Loose (t ++ y) (.gap t :: ps)) (ne : y ≠ []) : Loose y ps := by
  generalize hx : t ++ y = x at h
  cases h with
  | @space _ u r a _ space place =>
    have hlength := congrArg List.length hx
    have hpos := List.length_pos_iff.2 ne
    rcases place with rfl | rfl
    · simp only [List.length_append, List.length_cons] at hlength
      omega
    · simp only [List.length_append, List.length_cons, List.length_nil] at hlength
      omega
  | further rest =>
    obtain rfl := List.append_cancel_left hx
    exact rest

theorem Loose.token_of_ne (h : Loose x (.token k t :: ps)) (ne : x ≠ []) :
    ∃ y, x = t ++ y ∧ (Loose y ps ∨ y = [] ∧ k.spaceBehind = true) := by
  cases h with
  | before => exact absurd rfl ne
  | behind kind => exact ⟨[], by simp, .inr ⟨rfl, kind⟩⟩
  | further rest => exact ⟨_, rfl, .inl rest⟩

theorem Loose.token (h : Loose x (.token k t :: ps)) (before : k.spaceBefore = false)
    (behind : k.spaceBehind = false) : ∃ y, x = t ++ y ∧ Loose y ps := by
  cases h with
  | before kind => exact absurd kind (by simp [before])
  | behind kind => exact absurd kind (by simp [behind])
  | further rest => exact ⟨_, rfl, rest⟩

theorem not_loose_nil (before : k.spaceBefore = false) (ne : t ≠ []) :
    ¬Loose [] (.token k t :: ps) := by
  generalize hx : ([] : Text) = x
  intro h
  cases h with
  | before kind => exact absurd kind (by simp [before])
  | behind => exact ne hx.symm
  | further => exact ne (List.append_eq_nil_iff.1 hx.symm).1

namespace Text

/-- The character behind `x` is part of `u`, if `u` does not end in front of it. -/
theorem append_of_byteSize_lt {u v x r : Text} (h : u ++ v = x ++ a :: r)
    (hlt : x.byteSize < u.byteSize) : ∃ y, u = x ++ a :: y := by
  obtain ⟨y, hu, hr⟩ := append_of_byteSize_le h.symm (Nat.le_of_lt hlt)
  cases y with
  | nil =>
    rw [hu, List.append_nil] at hlt
    exact absurd hlt (Nat.lt_irrefl _)
  | cons c y =>
    obtain ⟨rfl, -⟩ := List.cons.inj hr
    exact ⟨y, hu⟩

end Text

namespace Piece

/-- A place that is not in front of the end of the first piece is a place among the others. -/
theorem loose_further (split : texts (p :: ps) = x ++ b) (hle : p.text.byteSize ≤ x.byteSize)
    (h : ∀ y, x = p.text ++ y → texts ps = y ++ b → Loose y ps) : Loose x (p :: ps) := by
  rw [texts_cons] at split
  obtain ⟨y, rfl, hb⟩ := Text.append_of_byteSize_le split hle
  exact .further (h y rfl hb)

theorem loose_of_offset {t : Token} (mem : t ∈ tokens before ps) (kind : t.kind.spaceBefore = true)
    (place : t.offset = (before ++ x).byteSize) (split : texts ps = x ++ b) : Loose x ps := by
  induction ps generalizing before x with
  | nil => cases mem
  | cons p ps ih =>
    have hfurther (mem : t ∈ tokens (before ++ p.text) ps) : Loose x (p :: ps) := by
      have hle := le_offset mem
      rw [place, Text.byteSize_append, Text.byteSize_append] at hle
      refine loose_further split (by omega) ?_
      rintro y rfl hb
      exact ih mem (by rw [place, List.append_assoc]) hb
    cases p with
    | gap u => exact hfurther mem
    | token k u =>
      rcases List.mem_cons.1 mem with rfl | mem
      · have hsize : before.byteSize = (before ++ x).byteSize := place
        have hx : x = [] := by
          rw [← Text.byteSize_eq_zero]
          rw [Text.byteSize_append] at hsize
          omega
        subst hx
        exact .before kind
      · exact hfurther mem

theorem loose_of_stop {t : Token} (mem : t ∈ tokens before ps) (kind : t.kind.spaceBehind = true)
    (place : t.stop = (before ++ x).byteSize) (split : texts ps = x ++ b) : Loose x ps := by
  induction ps generalizing before x with
  | nil => cases mem
  | cons p ps ih =>
    have hfurther (mem : t ∈ tokens (before ++ p.text) ps) : Loose x (p :: ps) := by
      have hle := le_offset mem
      have hstop : t.offset ≤ t.stop := Nat.le_add_right _ _
      rw [place, Text.byteSize_append] at hstop
      rw [Text.byteSize_append] at hle
      refine loose_further split (by omega) ?_
      rintro y rfl hb
      exact ih mem (by rw [place, List.append_assoc]) hb
    cases p with
    | gap u => exact hfurther mem
    | token k u =>
      rcases List.mem_cons.1 mem with rfl | mem
      · have hsize : before.byteSize + u.byteSize = (before ++ x).byteSize := place
        rw [Text.byteSize_append] at hsize
        rw [texts_cons] at split
        obtain rfl : u = x := Text.append_of_byteSize_eq split (Nat.add_left_cancel hsize)
        exact .behind kind
      · exact hfurther mem

/-- A space that no token holds is dropped, and the places on both sides of it are free. -/
theorem loose_of_space {z r : Text} (space : isSpace a = true) (split : texts ps = x ++ a :: r)
    (bare : ¬Covered (tokens before ps) (before ++ x).byteSize) (place : z = x ∨ z = x ++ [a]) :
    Loose z ps := by
  induction ps generalizing before x z with
  | nil => simp at split
  | cons p ps ih =>
    by_cases hle : p.text.byteSize ≤ x.byteSize
    · rw [texts_cons] at split
      obtain ⟨y, rfl, hr⟩ := Text.append_of_byteSize_le split hle
      have hbare : ¬Covered (tokens (before ++ p.text) ps) (before ++ p.text ++ y).byteSize := by
        rintro ⟨t, mem, hplace⟩
        refine bare ⟨t, ?_, ?_⟩
        · cases p with
          | gap u => exact mem
          | token k u => exact List.mem_cons_of_mem _ mem
        · rwa [← List.append_assoc]
      rcases place with rfl | rfl
      · exact .further (ih hr hbare (.inl rfl))
      · rw [List.append_assoc]
        exact .further (ih hr hbare (.inr rfl))
    · rw [not_le] at hle
      rw [texts_cons] at split
      obtain ⟨y, hp⟩ := Text.append_of_byteSize_lt split hle
      cases p with
      | gap u =>
        obtain rfl : u = x ++ a :: y := hp
        exact .space space place
      | token k u =>
        obtain rfl : u = x ++ a :: y := hp
        refine absurd ⟨_, List.mem_cons_self, ?_, ?_⟩ bare
        · show before.byteSize ≤ (before ++ x).byteSize
          rw [Text.byteSize_append]
          omega
        · show (before ++ x).byteSize < before.byteSize + (x ++ a :: y).byteSize
          rw [Text.byteSize_append]
          exact Nat.add_lt_add_left hle _

end Piece

/-- What the tokens tell of a place the pieces tell as well. -/
theorem FreePlace.loose (h : FreePlace (Piece.tokens [] ps) x b) (split : Piece.texts ps = x ++ b) :
    Loose x ps := by
  cases h with
  | before mem kind place => exact Piece.loose_of_offset mem kind place split
  | behind mem kind place => exact Piece.loose_of_stop mem kind place split
  | beforeSpace ahead space bare =>
    subst ahead
    exact Piece.loose_of_space space split bare (.inl rfl)
  | behindSpace ahead space bare =>
    subst ahead
    rw [List.append_assoc] at split
    exact Piece.loose_of_space space split bare (.inr rfl)

namespace Piece

/-- No piece parts a hash from its brace. -/
def Unparted : List Piece → Prop
  | [] => True
  | p :: ps => p.text.Unparted (texts ps) ∧ Unparted ps

/-- At a free place the text in front does not end in a hash whose brace stands behind. -/
theorem Unparted.endsPlain (h : Unparted ps) (place : Loose x ps) (split : texts ps = x ++ b) :
    x.Unparted b := by
  intro hbrace
  induction place with
  | @space x u r a ps space place =>
    rcases place with rfl | rfl
    · rw [texts_cons, text, List.append_assoc] at split
      obtain rfl := List.append_cancel_left split
      obtain rfl : a = '{' := Option.some.inj hbrace
      cases space
    · exact endsPlain_char (ne_hash_of_isSpace space) u
  | before => exact endsPlain_of_forall (by simp)
  | behind =>
    rw [texts_cons, text] at split
    obtain rfl := List.append_cancel_left split
    exact h.1 hbrace
  | @further p y ps rest ih =>
    rw [texts_cons, List.append_assoc] at split
    have hb := List.append_cancel_left split
    cases y with
    | nil =>
      rw [List.append_nil]
      exact h.1 (by rw [hb]; exact hbrace)
    | cons a y =>
      have hy := ih h.2 hb
      rwa [EndsPlain, List.getLast?_append, List.getLast?_cons, Option.some_or, ← List.getLast?_cons]

end Piece

namespace Machine

theorem unparted_pieces {s : Script} (h : s.Unparted (Piece.texts s.pieces ++ Piece.texts ps))
    (hps : Piece.Unparted ps) : Piece.Unparted (s.pieces ++ ps) := by
  induction s with
  | skip t s ih =>
    rw [Script.Unparted, Script.pieces, Piece.texts_cons, Piece.text, List.append_assoc,
      List.drop_left] at h
    exact ⟨Piece.texts_append s.pieces ps ▸ h.1, ih h.2⟩
  | emit k t s ih =>
    rw [Script.Unparted, Script.pieces, Piece.texts_cons, Piece.text, List.append_assoc,
      List.drop_left] at h
    exact ⟨Piece.texts_append s.pieces ps ▸ h.1, ih h.2⟩
  | enter mode s ih => exact ih h
  | leave s ih => exact ih h
  | note g s ih => exact ih h
  | goto st => exact hps
  | resume => exact hps
  | fail t f => exact hps

theorem Coherent.unparted_layout {m : Machine} (hm : m.Coherent) (ok : m.run.error? = none)
    (split : m.cursor.rest = Piece.texts m.layout) : Piece.Unparted m.layout := by
  induction m using run_induction with
  | done m hdone =>
    rw [layout_of_done hdone]
    trivial
  | error m hdone he => exact absurd (error?_step_of_run ok).1 he
  | step m hdone he ih =>
    rw [layout_of_not_done hdone, Piece.texts_append] at split
    rw [layout_of_not_done hdone]
    refine unparted_pieces ?_ (ih (hm.step he) (error?_step_of_run ok).2 ?_)
    · rw [← split]
      exact Script.unparted_ofState m.state m.view
    · rw [hm.rest_step hdone he] at split
      exact List.append_cancel_left split

end Machine

end StyleLex

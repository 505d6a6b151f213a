import StyleLex.Proofs.ReachedMachines
import StyleLex.Proofs.TrailScripts

/-!
# Runs behind a trail

Each step keeps the places of the trail in front of it. So every token of a run, also of one that fails,
is allowed behind the tokens in front of it, and the trail of these is told by the tokens and the text.
-/
namespace StyleLex

variable {source before t : Text} {ts front behind : List Token} {ps qs : List Piece} {tr : Trail}

namespace Trail

@[simp] theorem follow_append (tr : Trail) (ps qs : List Piece) :
    tr.follow (ps ++ qs) = (tr.follow ps).follow qs := by
  induction ps generalizing tr with
  | nil => rfl
  | cons p ps ih => cases p <;> exact ih _

theorem placed_append : tr.Placed (ps ++ qs) ↔ tr.Placed ps ∧ (tr.follow ps).Placed qs := by
  induction ps generalizing tr with
  | nil => simp [Placed, follow]
  | cons p ps ih => cases p <;> simp [Placed, follow, ih, and_assoc]

/-- The trail is that of the tokens `ts` behind the text `before`. -/
structure Traces (tr : Trail) (ts : List Token) (before : Text) : Prop where
  kinds : tr.kinds = (ts.map Token.kind).reverse
  gap : ∃ front, before = front ++ tr.gap ∧ ∀ e, ts.getLast? = some e → front.byteSize = e.stop

theorem traces_start : start.Traces [] [] := ⟨rfl, [], rfl, nofun⟩

theorem Traces.pass (h : tr.Traces ts before) (t : Text) : (tr.pass t).Traces ts (before ++ t) := by
  obtain ⟨kinds, front, rfl, hlast⟩ := h
  exact ⟨kinds, front, List.append_assoc front tr.gap t, hlast⟩

theorem Traces.take (h : tr.Traces ts before) (k : Kind) (t : Text) (line : Nat) :
    (tr.take k).Traces (ts ++ [.make k t before.byteSize line]) (before ++ t) := by
  constructor
  · rw [kinds_take, h.kinds, List.map_append, List.reverse_append]
    rfl
  · refine ⟨before ++ t, (List.append_nil _).symm, fun e he => ?_⟩
    rw [List.getLast?_concat] at he
    obtain rfl := Option.some.inj he
    exact Text.byteSize_append before t

theorem Traces.follow (h : tr.Traces ts before) (ps : List Piece) :
    (tr.follow ps).Traces (ts ++ Piece.tokens before ps) (before ++ Piece.texts ps) := by
  induction ps generalizing tr ts before with
  | nil => simpa [Trail.follow, Piece.tokens] using h
  | cons p ps ih =>
    rw [Piece.texts_cons, ← List.append_assoc]
    cases p with
    | gap t => exact ih (h.pass t)
    | token k t =>
      have hbehind := ih (h.take k t (1 + before.newlines))
      rwa [List.append_assoc] at hbehind

theorem Traces.last? (h : tr.Traces ts before) : tr.last? = ts.getLast?.map Token.kind := by
  rw [Trail.last?, h.kinds, List.head?_reverse, List.getLast?_map]

end Trail

/-- What can be said of a token among others stands in the pieces. -/
theorem Piece.exists_of_tokens_eq {u : Token} (h : tokens before ps = front ++ u :: behind) :
    ∃ qs rs, ps = qs ++ .token u.kind u.text :: rs ∧ tokens before qs = front ∧
      u.offset = (before ++ texts qs).byteSize := by
  induction ps generalizing before front with
  | nil => simp [tokens] at h
  | cons p ps ih =>
    have hbehind {front' : List Token} (h : tokens (before ++ p.text) ps = front' ++ u :: behind) :
        ∃ qs rs, ps = qs ++ .token u.kind u.text :: rs ∧ tokens (before ++ p.text) qs = front' ∧
          u.offset = (before ++ texts (p :: qs)).byteSize := by
      obtain ⟨qs, rs, hsplit, hfront, hoffset⟩ := ih h
      refine ⟨qs, rs, hsplit, hfront, ?_⟩
      rw [hoffset, texts_cons, List.append_assoc]
    cases p with
    | gap t =>
      obtain ⟨qs, rs, rfl, hfront, hoffset⟩ := hbehind h
      exact ⟨.gap t :: qs, rs, rfl, hfront, hoffset⟩
    | token k t =>
      cases front with
      | nil =>
        obtain ⟨rfl, -⟩ := List.cons.inj h
        refine ⟨[], ps, rfl, rfl, ?_⟩
        rw [texts_nil, List.append_nil]
        rfl
      | cons e front =>
        obtain ⟨rfl, htail⟩ := List.cons.inj h
        obtain ⟨qs, rs, rfl, hfront, hoffset⟩ := hbehind htail
        refine ⟨.token k t :: qs, rs, rfl, ?_, hoffset⟩
        rw [tokens]
        exact congrArg _ hfront

theorem Script.Places.placed {s : Script} {ms : List Mode} {g : Compound} {rest : Text}
    (h : s.Places ms g rest tr) : tr.Placed s.pieces := by
  induction s generalizing ms g rest tr with
  | skip t s ih => exact ih h
  | emit k t s ih => exact ⟨h.1, ih h.2⟩
  | enter mode s ih => exact ih h
  | leave s ih => exact ih h
  | note g s ih => exact ih h
  | goto st => trivial
  | resume => trivial
  | fail t f => trivial

namespace Machine

variable {m m' : Machine} {s : Script}

/-- The state of the machine has its place behind the trail, and the compound is told by it. -/
structure Trailed (tr : Trail) (m : Machine) : Prop where
  kept : m.compound.Kept m.openModes
  place : m.state.Place m.compound m.cursor.rest tr
  tells : tr.Tells m.openModes m.compound

theorem trailed_start (c : Config) (source : Text) : (start c source).Trailed .start where
  kept := .inr rfl
  place := ⟨Trail.free_start _, .inl (Trail.free_start _)⟩
  tells := ⟨rfl, rfl⟩

theorem Trailed.places (h : m.Trailed tr) (hm : m.Coherent) :
    m.script.Places m.openModes m.compound m.cursor.rest tr :=
  Script.places_ofState hm.view_shows hm.fits h.kept h.place h.tells

theorem place_perform (h : s.Places m.openModes m.compound m.cursor.rest tr)
    (he : (perform s m).error? = none) :
    (perform s m).machine.state.Place (perform s m).machine.compound
        (perform s m).machine.cursor.rest (tr.follow s.pieces) ∧
      (tr.follow s.pieces).Tells (perform s m).machine.openModes (perform s m).machine.compound := by
  induction s generalizing m tr with
  | skip t s ih => exact ih (m := m.skip t) h he
  | emit k t s ih => exact ih (m := (m.take t).2) h.2 he
  | enter mode s ih => exact ih (m := m.enter mode) h he
  | leave s ih => exact ih (m := m.leave) (by rw [openModes_leave]; exact h) he
  | note g s ih => exact ih (m := m.note g) h he
  | goto st => exact h
  | resume =>
    rw [Script.Places, topMode_openModes] at h
    exact h
  | fail t f => cases he

theorem Trailed.step (h : m.Trailed tr) (hm : m.Coherent) (he : m.step.error? = none) :
    m.step.machine.Trailed (tr.follow m.script.pieces) := by
  obtain ⟨place, tells⟩ := place_perform (h.places hm) he
  exact ⟨hm.kept_step h.kept he, place, tells⟩

theorem Reaches.trailed (h : m.Reaches ps m') (hm : m.Coherent) (ht : m.Trailed tr) :
    m'.Trailed (tr.follow ps) := by
  induction h generalizing tr with
  | refl => exact ht
  | step _ ok _ ih =>
    rw [Trail.follow_append]
    exact ih (hm.step ok) (ht.step hm ok)

theorem Trailed.layout (h : m.Trailed tr) (hm : m.Coherent) : tr.Placed m.layout := by
  induction m using run_induction generalizing tr with
  | done m hdone =>
    rw [layout_of_done hdone]
    trivial
  | error m hdone he =>
    rw [layout_of_error he]
    exact (h.places hm).placed
  | step m hdone he ih =>
    rw [layout_of_not_done hdone, Trail.placed_append]
    exact ⟨(h.places hm).placed, ih (h.step hm he) (hm.step he)⟩

end Machine

/-- A token of a run has its place in the layout, behind the pieces of the tokens in front of it. -/
theorem exists_pieces (c : Config) {u : Token}
    (h : (Machine.start c source).run.tokens = front ++ u :: behind) :
    ∃ qs rs tail, (Machine.start c source).layout = qs ++ .token u.kind u.text :: rs ∧
      source = Piece.texts qs ++ (u.text ++ tail) ∧
      (Trail.start.follow qs).Traces front (Piece.texts qs) ∧
      u.offset = (Piece.texts qs).byteSize := by
  obtain ⟨htokens, tail, hsource, -⟩ := Machine.run_layout (Machine.coherent_start c source)
    (Machine.stands_start c source) nofun
  rw [h] at htokens
  obtain ⟨qs, rs, hlayout, hfront, hoffset⟩ := Piece.exists_of_tokens_eq htokens.symm
  have htraces := Trail.traces_start.follow qs
  rw [List.nil_append, hfront] at htraces
  refine ⟨qs, rs, Piece.texts rs ++ tail, hlayout, ?_, htraces, hoffset⟩
  rw [hsource, hlayout]
  simp [Piece.text]

/-- Every token of a run is allowed behind the trail of the tokens in front of it. -/
theorem exists_trail (c : Config) {u : Token}
    (h : (Machine.start c source).run.tokens = front ++ u :: behind) :
    ∃ tr before tail, source = before ++ tail ∧ Trail.Traces tr front before ∧
      u.offset = before.byteSize ∧ tr.Allows u.kind u.text ∧ u.kind.Allows u.text := by
  have hm := Machine.coherent_start c source
  obtain ⟨qs, rs, tail, hlayout, hsource, htraces, hoffset⟩ := exists_pieces c h
  have hplaced := (Machine.trailed_start c source).layout hm
  rw [hlayout, Trail.placed_append] at hplaced
  refine ⟨Trail.start.follow qs, Piece.texts qs, u.text ++ tail, hsource, htraces, hoffset,
    hplaced.2.1, ?_⟩
  apply Machine.allows_layout hm
  rw [hlayout]
  exact List.mem_append_right qs List.mem_cons_self

end StyleLex

import StyleLex.StatementScripts
import StyleLex.Proofs.LiteralForms
import StyleLex.Proofs.TextSeams

/-!
# Scripts do not look past a seam

On two texts that begin with the same text up to a seam, a state gives the same script. It may be a
different one only if the script for the first text hangs: it fails, or it takes in all the text up to
the seam and more is to come.
-/
namespace StyleLex.Script

open Text

/-- With `n` characters behind the seam, the script fails or moves past the seam, or it stops at the
seam in the middle of a statement. -/
def Hangs (n : Nat) : Script → Text → Prop
  | .skip t s, rest | .emit _ t s, rest => s.Hangs n (rest.drop t.length)
  | .enter _ s, rest | .leave s, rest | .note _ s, rest => s.Hangs n rest
  | .goto st, rest => rest.length < n ∨ rest.length = n ∧ st ≠ .statement ∧ st ≠ .done
  | .resume, rest => rest.length < n
  | .fail _ _, _ => True

variable {x y w rest t u : Text} {s s' : Script} {next : Text → Script} {k : Kind} {a : Char}

theorem hangs_of_lt {n : Nat} (h : rest.length < n) : s.Hangs n rest := by
  induction s generalizing rest with
  | skip t s ih => exact ih (by rw [List.length_drop]; omega)
  | emit k t s ih => exact ih (by rw [List.length_drop]; omega)
  | enter mode s ih => exact ih h
  | leave s ih => exact ih h
  | note g s ih => exact ih h
  | goto st => exact .inl h
  | resume => exact h
  | fail t f => trivial

/-- The scripts for texts that differ only behind a seam, in front of `x` in the first one. -/
def Agree (x rest : Text) (s s' : Script) : Prop := s = s' ∨ s.Hangs x.length rest

theorem Agree.refl (s : Script) : Agree x rest s s := .inl rfl

theorem agree_fail (t : Text) (f : Fault) : Agree x rest (.fail t f) s' := .inr trivial

theorem Agree.skip (h : Agree x u s s') (split : rest = t ++ u) :
    Agree x rest (.skip t s) (.skip t s') := by
  rcases h with rfl | h
  · exact .refl _
  · refine .inr ?_
    rwa [Hangs, split, List.drop_left]

theorem Agree.emit (h : Agree x u s s') (split : rest = t ++ u) :
    Agree x rest (.emit k t s) (.emit k t s') := by
  rcases h with rfl | h
  · exact .refl _
  · refine .inr ?_
    rwa [Hangs, split, List.drop_left]

/-- A test that does not look behind the seam comes out the same. -/
theorem Agree.ite {p : Prop} [Decidable p] {s₁ s₂ s₁' s₂' : Script} (ht : p → Agree x rest s₁ s₁')
    (hf : ¬p → Agree x rest s₂ s₂') :
    Agree x rest (if p then s₁ else s₂) (if p then s₁' else s₂') := by
  by_cases h : p
  · rw [if_pos h, if_pos h]
    exact ht h
  · rw [if_neg h, if_neg h]
    exact hf h

/-- A script goes on in the same way behind a part of the text that ends in front of the seam. -/
def Local (x y : Text) (next : Text → Script) : Prop :=
  ∀ u, Seam x u → Agree x (u ++ x) (next (u ++ x)) (next (u ++ y))

theorem local_const (s : Script) : Local x y fun _ => s := fun _ _ => .refl s

theorem agree_skipSpaces (h : Seam x w) (hnext : Local x y next)
    (hnil : x = [] → (next []).Hangs 0 []) :
    Agree x (w ++ x) (skipSpaces (w ++ x) next) (skipSpaces (w ++ y) next) := by
  rcases h.spaces with hne | ⟨hnone, rfl⟩
  · obtain ⟨htx, hdx⟩ := takeWhile_append_of_ne_nil hne x
    obtain ⟨hty, hdy⟩ := takeWhile_append_of_ne_nil hne y
    rw [skipSpaces, skipSpaces, htx, hdx, hty, hdy]
    refine (hnext _ (h.dropWhile hne)).skip ?_
    rw [← List.append_assoc, List.takeWhile_append_dropWhile]
  · refine .inr ?_
    have hall : w.takeWhile isSpace = w := by
      have hsplit := List.takeWhile_append_dropWhile (p := isSpace) (l := w)
      rwa [hnone, List.append_nil] at hsplit
    rw [List.append_nil, skipSpaces, hnone, Hangs, hall, List.drop_length]
    exact hnil rfl

theorem agree_sigil (h : Seam x w) (hnext : Local x y next) :
    Agree x (a :: (w ++ x)) (sigil k a (w ++ x) next) (sigil k a (w ++ y) next) := by
  have hne := h.dropWhile_ne_nil isNameChar_of_mem_seams
  obtain ⟨htx, hdx⟩ := takeWhile_append_of_ne_nil hne x
  obtain ⟨hty, hdy⟩ := takeWhile_append_of_ne_nil hne y
  rw [sigil, sigil, htx, hdx, hty, hdy]
  split
  case isTrue => exact agree_fail _ _
  case isFalse =>
    refine (hnext _ (h.dropWhile hne)).emit ?_
    rw [List.cons_append, ← List.append_assoc, List.takeWhile_append_dropWhile]

theorem agree_quoted {q : Char} (h : Seam x w) (hq : q ∉ seams) (hnext : Local x y next) :
    Agree x (q :: (w ++ x)) (quoted q (w ++ x) next) (quoted q (w ++ y) next) := by
  cases hw : w.upTo? [q] with
  | some body =>
    obtain ⟨-, hsplit⟩ := exists_of_upTo?_eq_some hw
    have hbehind : Seam x (w.drop (body.length + 1)) := by
      rw [hsplit] at h
      exact h.behind hq
    have hdrop (z : Text) : (w ++ z).drop (body.length + 1) = w.drop (body.length + 1) ++ z := by
      refine List.drop_append_of_le_length ?_
      have hlength := congrArg List.length hsplit
      rw [List.length_append, List.length_cons] at hlength
      omega
    rw [quoted, quoted, upTo?_append hw x, upTo?_append hw y]
    dsimp only
    rw [hdrop, hdrop]
    refine Agree.skip (u := w ++ x) ?_ rfl
    refine Agree.emit (u := q :: (w.drop (body.length + 1) ++ x)) ?_ ?_
    · exact (hnext _ hbehind).skip rfl
    · rw [← List.cons_append, ← List.append_assoc, ← hsplit]
  | none =>
    rw [quoted, upTo?_append_of_none hw x]
    cases hx : x.upTo? [q] with
    | none => exact agree_fail _ _
    | some body =>
      obtain ⟨-, hsplit⟩ := exists_of_upTo?_eq_some hx
      refine .inr ?_
      rw [Option.map_some, Hangs, Hangs, Hangs]
      refine hangs_of_lt ?_
      have hlength := congrArg List.length hsplit
      simp only [List.length_append, List.length_cons, List.length_drop] at hlength ⊢
      omega

theorem unit_of_ne (h : rest.head? ≠ some '%') :
    unit rest next = if rest.takeWhile Char.isAlpha = [] then next rest
      else match NumberUnit.ofSuffix? (rest.takeWhile Char.isAlpha) with
        | some u => .emit (.unit u) (rest.takeWhile Char.isAlpha) (next (rest.dropWhile Char.isAlpha))
        | none => .fail (rest.takeWhile Char.isAlpha) ⟨.invalidNumberFormat, .lexeme⟩ := by
  unfold unit
  split
  case h_1 => exact absurd rfl h
  case h_2 => rfl

theorem agree_unit (h : Seam x w) (hnext : Local x y next) :
    Agree x (w ++ x) (unit (w ++ x) next) (unit (w ++ y) next) := by
  obtain ⟨a, t, rfl⟩ := List.exists_cons_of_ne_nil h.ne_nil
  by_cases ha : a = '%'
  · subst ha
    exact (hnext t (h.of_cons (by decide))).emit rfl
  · have hhead (z : Text) : (a :: t ++ z).head? ≠ some '%' := by simpa using ha
    have hne := h.dropWhile_ne_nil isAlpha_of_mem_seams
    obtain ⟨htx, hdx⟩ := takeWhile_append_of_ne_nil hne x
    obtain ⟨hty, hdy⟩ := takeWhile_append_of_ne_nil hne y
    rw [unit_of_ne (hhead x), unit_of_ne (hhead y), htx, hdx, hty, hdy]
    split
    case isTrue => exact hnext _ h
    case isFalse =>
    split
    case h_1 =>
      refine (hnext _ (h.dropWhile hne)).emit ?_
      rw [← List.append_assoc, List.takeWhile_append_dropWhile]
    case h_2 => exact agree_fail _ _

theorem number_of_ne (h : ((unsigned rest).dropWhile Char.isDigit).head? ≠ some '.') :
    number rest next =
      .emit .integer (wholePart rest) (unit ((unsigned rest).dropWhile Char.isDigit) next) := by
  rw [number]
  dsimp only
  rw [drop_wholePart]
  split
  case h_1 t ht =>
    rw [ht] at h
    exact absurd rfl h
  case h_2 => rfl

theorem number_of_point (h : (unsigned rest).dropWhile Char.isDigit = '.' :: t) :
    number rest next =
      if t.takeWhile Char.isDigit = [] ∨ fractionAhead (t.dropWhile Char.isDigit) then
        .fail (wholePart rest ++ '.' :: t.takeWhile Char.isDigit) ⟨.invalidNumberFormat, .lexeme⟩
      else .emit .float (wholePart rest ++ '.' :: t.takeWhile Char.isDigit)
        (unit (t.dropWhile Char.isDigit) next) := by
  rw [number]
  dsimp only
  rw [drop_wholePart, h]
  rfl

theorem agree_number (h : Seam x w) (hnext : Local x y next) :
    Agree x (w ++ x) (number (w ++ x) next) (number (w ++ y) next) := by
  have hu := seam_unsigned h
  have hne := hu.dropWhile_ne_nil isDigit_of_mem_seams
  have hbehind := hu.dropWhile hne
  have hdrop (z : Text) :
      (unsigned (w ++ z)).dropWhile Char.isDigit = (unsigned w).dropWhile Char.isDigit ++ z := by
    rw [unsigned_append h.ne_nil, (takeWhile_append_of_ne_nil hne z).2]
  have hwhole (z : Text) : wholePart (w ++ z) = wholePart w := by
    rw [wholePart, wholePart, sign_append h.ne_nil, unsigned_append h.ne_nil,
      (takeWhile_append_of_ne_nil hne z).1]
  have hsplit := wholePart_append_drop w
  generalize (unsigned w).dropWhile Char.isDigit = v at hne hbehind hdrop hsplit
  obtain ⟨a, t, rfl⟩ := List.exists_cons_of_ne_nil hne
  by_cases ha : a = '.'
  · subst ha
    have ht := hbehind.of_cons (by decide)
    have htne := ht.dropWhile_ne_nil isDigit_of_mem_seams
    have hfraction (z : Text) : fractionAhead (t.dropWhile Char.isDigit ++ z) =
        fractionAhead (t.dropWhile Char.isDigit) := fractionAhead_append (ht.dropWhile htne) z
    obtain ⟨htx, hdx⟩ := takeWhile_append_of_ne_nil htne x
    obtain ⟨hty, hdy⟩ := takeWhile_append_of_ne_nil htne y
    have hpoint (z : Text) : (unsigned (w ++ z)).dropWhile Char.isDigit = '.' :: (t ++ z) := hdrop z
    rw [number_of_point (hpoint x), number_of_point (hpoint y), hwhole, hwhole, htx, hdx, hty, hdy,
      hfraction, hfraction]
    split
    case isTrue => exact agree_fail _ _
    case isFalse =>
      refine (agree_unit (ht.dropWhile htne) hnext).emit ?_
      rw [List.append_assoc, List.cons_append, ← List.append_assoc (t.takeWhile Char.isDigit),
        List.takeWhile_append_dropWhile, ← List.cons_append, ← List.append_assoc, hsplit]
  · have hhead (z : Text) : ((unsigned (w ++ z)).dropWhile Char.isDigit).head? ≠ some '.' := by
      rw [hdrop]
      simpa using ha
    rw [number_of_ne (hhead x), number_of_ne (hhead y), hwhole, hwhole, hdrop, hdrop]
    refine (agree_unit hbehind hnext).emit ?_
    rw [← List.append_assoc, hsplit]

theorem agree_hexColor (h : Seam x w) (hnext : Local x y next) :
    Agree x ('#' :: (w ++ x)) (hexColor (w ++ x) next) (hexColor (w ++ y) next) := by
  have hne := h.dropWhile_ne_nil isNameChar_of_mem_seams
  obtain ⟨htx, hdx⟩ := takeWhile_append_of_ne_nil hne x
  obtain ⟨hty, hdy⟩ := takeWhile_append_of_ne_nil hne y
  rw [hexColor, hexColor, htx, hdx, hty, hdy]
  split
  case isTrue =>
    refine (hnext _ (h.dropWhile hne)).emit ?_
    rw [List.cons_append, ← List.append_assoc, List.takeWhile_append_dropWhile]
  case isFalse => exact agree_fail _ _

/-- A word that takes in the seam is the last one in the text. -/
theorem agree_constant (inCall : Bool) (h : Seam x w) (hnext : Local x y next)
    (hnil : x = [] → (next []).Hangs 0 []) :
    Agree x (w ++ x) (constant inCall (w ++ x) next) (constant inCall (w ++ y) next) := by
  rcases word_append inCall h with ⟨hne, hword⟩ | ⟨hall, rfl⟩
  · have hsplit := (word_word inCall w).split
    have hdrop (z : Text) :
        (w ++ z).drop (word inCall w).length = w.drop (word inCall w).length ++ z := by
      refine List.drop_append_of_le_length ?_
      have hlength := congrArg List.length hsplit
      rw [List.length_append] at hlength
      omega
    rw [constant, constant, hword, hword, hdrop, hdrop]
    split
    case isTrue => exact agree_fail _ _
    case isFalse =>
      have hbehind : Seam x (w.drop (word inCall w).length) := by
        rw [hsplit] at h
        exact h.suffix hne
      refine (hnext _ hbehind).emit ?_
      rw [← List.append_assoc, ← hsplit]
  · refine .inr ?_
    rw [List.append_nil, constant, hall]
    rw [if_neg h.ne_nil, List.drop_length, Hangs, List.drop_length]
    exact hnil rfl

variable {v : View} {after : State}

theorem agree_component (after : State) (hs : after ≠ .statement) (hd : after ≠ .done) (v : View)
    (h : Seam x w) : Agree x (w ++ x) (component v after (w ++ x)) (component v after (w ++ y)) := by
  have hnil : x = [] → (goto after).Hangs 0 [] := fun _ => .inr ⟨rfl, hs, hd⟩
  have hahead (z : Text) := interpolationAhead_append h z
  have hnumber (z : Text) := numberAhead_append h z
  have hconstant := agree_constant (y := y) v.inCall h (local_const (.goto after)) hnil
  obtain ⟨a, t, rfl⟩ := List.exists_cons_of_ne_nil h.ne_nil
  simp only [List.cons_append] at hahead hnumber hconstant ⊢
  unfold component
  simp only [hahead, hnumber]
  refine .ite ?reference fun _ => .ite (fun _ => .refl _) fun _ => .ite ?color fun _ =>
    .ite ?string fun _ => .ite (fun _ => .refl _) fun _ => .ite (fun _ => .refl _) fun _ =>
    .ite (fun _ => hconstant) fun _ => .ite (fun _ => agree_fail _ _) fun _ =>
    .ite (fun _ => agree_number h (local_const _)) fun _ => hconstant
  case reference =>
    rintro rfl
    exact agree_sigil (h.of_cons (by decide)) (local_const _)
  case color =>
    rintro rfl
    exact agree_hexColor (h.of_cons (by decide)) (local_const _)
  case string =>
    intro ha
    have hseam := not_mem_seams_of_isQuote ha
    exact agree_quoted (h.of_cons hseam) hseam (local_const _)

theorem agree_value (v : View) (h : Seam x w) :
    Agree x (w ++ x) (value { v with rest := w ++ x }) (value { v with rest := w ++ y }) := by
  unfold value
  refine agree_skipSpaces h ?_ fun _ => trivial
  intro u hu
  have hcomponent := agree_component (y := y) .value nofun nofun v hu
  obtain ⟨a, t, rfl⟩ := List.exists_cons_of_ne_nil hu.ne_nil
  simp only [List.cons_append] at hcomponent ⊢
  exact .ite (fun _ => agree_fail _ _) fun _ => .ite (fun _ => .refl _) fun _ =>
    .ite (fun _ => agree_fail _ _) fun _ => .ite (fun _ => .refl _) fun _ =>
    .ite (fun _ => .refl _) fun _ => hcomponent

theorem agree_interpolation (v : View) (h : Seam x w) :
    Agree x (w ++ x) (interpolation { v with rest := w ++ x })
      (interpolation { v with rest := w ++ y }) := by
  unfold interpolation
  dsimp only
  split
  case h_1 =>
    cases hw : w.upTo? ['}'] with
    | some body =>
      rw [upTo?_append hw x, upTo?_append hw y]
      exact .refl _
    | none =>
      rw [upTo?_append_of_none hw x]
      cases hx : x.upTo? ['}'] with
      | none => exact agree_fail _ _
      | some body =>
        obtain ⟨-, hsplit⟩ := exists_of_upTo?_eq_some hx
        refine .inr ?_
        rw [Option.map_some]
        dsimp only
        rw [closeInterpolation, Hangs, Hangs]
        refine hangs_of_lt ?_
        have hlength := congrArg List.length hsplit
        simp only [List.length_append, List.length_cons, List.length_drop] at hlength ⊢
        omega
  case h_2 =>
    refine agree_skipSpaces h ?_ fun _ => trivial
    intro u hu
    have hcomponent := agree_component (y := y) .interpolation nofun nofun v hu
    obtain ⟨a, t, rfl⟩ := List.exists_cons_of_ne_nil hu.ne_nil
    simp only [List.cons_append] at hcomponent ⊢
    exact .ite (fun _ => .refl _) fun _ => hcomponent

end StyleLex.Script

import StyleLex.Proofs.LocalScripts
import StyleLex.Proofs.SelectorForms

/-!
# States do not look past a seam

The shape of a rule is the only thing that a state may look for in all of the text ahead.
-/
namespace StyleLex.Script

open Text

variable {x y w rest t : Text} {s : Script} {next : Text → Script} {k : Kind} {a : Char}

theorem not_mem_seams_of_isNameStart (h : isNameStart a = true) : a ∉ seams := by
  intro hmem
  have hname := isNameChar_of_isNameStart h
  rw [isNameChar_of_mem_seams a hmem] at hname
  cases hname

theorem not_mem_seams_of_opensSimple (h : opensSimple a = true) : a ∉ seams := by
  have hall : ∀ b ∈ seams, opensSimple b = false := List.all_iff_forall_prop.1 rfl
  intro hmem
  rw [hall a hmem] at h
  cases h

theorem not_mem_seams_of_combinator? (h : combinator? a = some k) : a ∉ seams := by
  have hall : ∀ b ∈ seams, combinator? b = none := List.all_iff_forall_prop.1 rfl
  intro hmem
  rw [hall a hmem] at h
  cases h

theorem agree_pseudoName {colons : Text} (h : Seam x w) :
    Agree x rest (pseudoName colons (w ++ x)) (pseudoName colons (w ++ y)) := by
  have hne := h.dropWhile_ne_nil isNameChar_of_mem_seams
  obtain ⟨htx, hdx⟩ := takeWhile_append_of_ne_nil hne x
  obtain ⟨hty, hdy⟩ := takeWhile_append_of_ne_nil hne y
  have hhead (z : Text) :
      (w.dropWhile isNameChar ++ z).head? = (w.dropWhile isNameChar).head? := by
    obtain ⟨b, u, hb⟩ := List.exists_cons_of_ne_nil hne
    rw [hb]
    rfl
  rw [pseudoName, pseudoName, htx, hdx, hty, hdy, hhead, hhead]
  split
  case isTrue => exact agree_fail _ _
  case isFalse => exact .refl _

theorem agree_pseudo (h : Seam x w) :
    Agree x (':' :: (w ++ x)) (pseudo (w ++ x)) (pseudo (w ++ y)) := by
  obtain ⟨b, u, rfl⟩ := List.exists_cons_of_ne_nil h.ne_nil
  by_cases hb : b = ':'
  · subst hb
    exact agree_pseudoName (h.of_cons (by decide))
  · have hone (z : Text) : pseudo (b :: u ++ z) = pseudoName [':'] (b :: u ++ z) := by
      rw [pseudo]
      rintro _ heq
      exact hb (List.cons.inj heq).1
    rw [hone, hone]
    exact agree_pseudoName h

theorem agree_name (h : Seam x w) (s : Script) :
    Agree x (a :: (w ++ x)) (.emit k (a :: (w ++ x).takeWhile isNameChar) s)
      (.emit k (a :: (w ++ y).takeWhile isNameChar) s) := by
  have hne := h.dropWhile_ne_nil isNameChar_of_mem_seams
  rw [(takeWhile_append_of_ne_nil hne x).1, (takeWhile_append_of_ne_nil hne y).1]
  exact .refl _

theorem agree_simpleSelector (h : Seam x w) :
    Agree x (a :: (w ++ x)) (simpleSelector a (w ++ x)) (simpleSelector a (w ++ y)) := by
  unfold simpleSelector
  refine .ite (fun _ => .refl _) fun _ => .ite ?pseudo fun _ =>
    .ite (fun _ => agree_sigil h (local_const _)) fun _ =>
    .ite (fun _ => agree_sigil h (local_const _)) fun _ => .ite (fun _ => .refl _) fun _ =>
    .ite (fun _ => agree_name h _) fun _ => agree_name h _
  case pseudo =>
    rintro rfl
    exact agree_pseudo h

theorem agree_compoundPart (v : View) (h : Seam x (a :: w)) :
    Agree x (a :: (w ++ x)) (compoundPart v a (w ++ x)) (compoundPart v a (w ++ y)) := by
  have hahead (z : Text) : interpolationAhead (a :: (w ++ z)) = interpolationAhead (a :: w) :=
    interpolationAhead_append h z
  rw [compoundPart, compoundPart, hahead, hahead]
  refine .ite (fun _ => .refl _) fun _ => .ite ?continued fun _ =>
    .ite ?simple fun _ => agree_fail _ _
  case continued =>
    rintro ⟨-, hname⟩
    have hseam : a ∉ seams := fun hmem => by
      rw [isNameChar_of_mem_seams a hmem] at hname
      cases hname
    exact agree_name (h.of_cons hseam) _
  case simple =>
    intro hopens
    have hsimple := agree_simpleSelector (y := y) (a := a)
      (h.of_cons (not_mem_seams_of_opensSimple hopens))
    exact .ite (fun _ => hsimple.emit rfl) fun _ => hsimple

theorem agree_selector (v : View) (h : Seam x w) :
    Agree x (w ++ x) (selector { v with rest := w ++ x }) (selector { v with rest := w ++ y }) := by
  rcases h.spaces with hne | ⟨hnone, rfl⟩
  · obtain ⟨htx, hdx⟩ := takeWhile_append_of_ne_nil hne x
    obtain ⟨hty, hdy⟩ := takeWhile_append_of_ne_nil hne y
    have hbehind := h.dropWhile hne
    have hsplit := List.takeWhile_append_dropWhile (p := isSpace) (l := w)
    unfold selector
    dsimp only
    rw [htx, hdx, hty, hdy]
    obtain ⟨a, t, ht⟩ := List.exists_cons_of_ne_nil hne
    rw [ht] at hbehind hsplit ⊢
    have hrest : w ++ x = w.takeWhile isSpace ++ (a :: (t ++ x)) := by
      rw [← List.cons_append, ← List.append_assoc, hsplit]
    dsimp only [List.cons_append]
    split
    case h_1 kind hkind =>
      have ht := hbehind.of_cons (not_mem_seams_of_combinator? hkind)
      have hgap := agree_skipSpaces (y := y) ht (local_const (.note .detached <| .goto .selector))
        fun _ => .inr ⟨rfl, nofun, nofun⟩
      exact (hgap.emit rfl).skip hrest
    case h_2 =>
      exact .ite (fun _ => .refl _) fun _ => .ite (fun _ => .refl _) fun _ =>
        .ite (fun _ => .refl _) fun _ => (agree_compoundPart v hbehind).skip hrest
  · unfold selector
    dsimp only
    rw [List.append_nil, hnone]
    exact agree_fail _ _

theorem local_attributeEnd (v : View) : Local x y (attributeEnd v) := by
  intro u hu
  obtain ⟨b, t, rfl⟩ := List.exists_cons_of_ne_nil hu.ne_nil
  by_cases hb : b = ']'
  · subst hb
    exact .refl _
  · have hfail (z : Text) :
        attributeEnd v (b :: t ++ z) = .fail [] (.unclosed v.top (b :: t ++ z)) := by
      rw [attributeEnd]
      rintro _ heq
      exact hb (List.cons.inj heq).1
    rw [hfail]
    exact agree_fail _ _

theorem drop_takeWhile (p : Char → Bool) (t : Text) :
    t.drop (t.takeWhile p).length = t.dropWhile p := by
  have hsplit := congrArg (List.drop (t.takeWhile p).length)
    (List.takeWhile_append_dropWhile (p := p) (l := t))
  rwa [List.drop_left, eq_comm] at hsplit

/-- Past the seam the closing bracket leaves the text in a selector, if there is one. -/
theorem hangs_attributeEnd (v : View) {n : Nat} (h : rest.length ≤ n) :
    (skipSpaces rest (attributeEnd v)).Hangs n rest := by
  have hle := length_dropWhile_le isSpace rest
  rw [skipSpaces, Hangs, drop_takeWhile]
  generalize rest.dropWhile isSpace = behind at hle
  unfold attributeEnd
  split
  case h_1 t =>
    rw [Hangs, List.length_singleton, List.drop_succ_cons, List.drop_zero]
    rw [List.length_cons] at hle
    exact hangs_of_lt (by omega)
  case h_2 => trivial

theorem local_attributeEnd_spaces (v : View) : Local x y fun r => skipSpaces r (attributeEnd v) :=
  fun _ hu => agree_skipSpaces hu (local_attributeEnd v) fun _ => trivial

theorem local_attributeValue (v : View) : Local x y (attributeValue v) := by
  intro u hu
  by_cases hne : u.dropWhile isUnquotedChar = []
  · -- A value without quotes takes in the seam.
    have hinside := List.dropWhile_eq_nil_iff.1 hne
    have hdrop := drop_takeWhile isUnquotedChar (u ++ x)
    rw [List.dropWhile_append_of_pos hinside] at hdrop
    have hend := hangs_attributeEnd v (length_dropWhile_le isUnquotedChar x)
    obtain ⟨b, t, rfl⟩ := List.exists_cons_of_ne_nil hu.ne_nil
    have hquote : ¬isQuote b = true := by
      have hb := hinside b List.mem_cons_self
      simp only [isUnquotedChar, Bool.not_eq_true', Bool.or_eq_false_iff] at hb
      simp [hb]
    refine .inr ?_
    unfold attributeValue
    dsimp only [List.cons_append] at hdrop ⊢
    rw [if_neg hquote]
    split
    case isTrue => trivial
    case isFalse =>
      rw [Hangs, hdrop]
      rw [← List.cons_append, List.dropWhile_append_of_pos hinside]
      exact hend
  · obtain ⟨htx, hdx⟩ := takeWhile_append_of_ne_nil hne x
    obtain ⟨hty, hdy⟩ := takeWhile_append_of_ne_nil hne y
    have hsplit := List.takeWhile_append_dropWhile (p := isUnquotedChar) (l := u)
    unfold attributeValue
    rw [htx, hdx, hty, hdy]
    obtain ⟨b, t, rfl⟩ := List.exists_cons_of_ne_nil hu.ne_nil
    dsimp only [List.cons_append]
    split
    case isTrue hquote =>
      have hseam := not_mem_seams_of_isQuote hquote
      exact agree_quoted (hu.of_cons hseam) hseam (local_attributeEnd_spaces v)
    case isFalse =>
    split
    case isTrue => exact agree_fail _ _
    case isFalse =>
      refine (local_attributeEnd_spaces v _ (hu.dropWhile hne)).emit ?_
      rw [← List.append_assoc, hsplit]
      rfl

theorem attributeOperator?_append (h : Seam x w) (y : Text) :
    attributeOperator? (w ++ y) = attributeOperator? w := by
  obtain ⟨a, t, rfl⟩ := List.exists_cons_of_ne_nil h.ne_nil
  rcases h.cons with h | ⟨rfl, hseam, -⟩
  · obtain ⟨b, u, rfl⟩ := List.exists_cons_of_ne_nil h.ne_nil
    rfl
  · simp only [seams, List.mem_cons, List.not_mem_nil, or_false] at hseam
    rcases hseam with rfl | rfl | rfl | rfl | rfl | rfl | rfl | rfl <;> rfl

theorem exists_of_mem_attributeOperators (h : (t, k) ∈ attributeOperators) : ∃ u, t = u ++ ['='] := by
  simp only [attributeOperators, List.mem_cons, List.not_mem_nil, or_false, Prod.mk.injEq] at h
  rcases h with ⟨rfl, -⟩ | ⟨rfl, -⟩ | ⟨rfl, -⟩ | ⟨rfl, -⟩ | ⟨rfl, -⟩ | ⟨rfl, -⟩
  · exact ⟨['~'], rfl⟩
  · exact ⟨['|'], rfl⟩
  · exact ⟨['^'], rfl⟩
  · exact ⟨['$'], rfl⟩
  · exact ⟨['*'], rfl⟩
  · exact ⟨[], rfl⟩

theorem local_attributeTest (v : View) : Local x y (attributeTest v) := by
  intro u hu
  rw [attributeTest, attributeTest, attributeOperator?_append hu, attributeOperator?_append hu]
  split
  case h_1 => exact local_attributeEnd v u hu
  case h_2 text kind hknown =>
    obtain ⟨pre, rfl⟩ := exists_of_mem_attributeOperators (List.mem_of_find?_eq_some hknown)
    have hahead : pre ++ ['='] <+: u := by simpa using List.find?_some hknown
    obtain ⟨t, rfl⟩ := hahead
    have ht : Seam x t := by
      rw [List.append_assoc] at hu
      exact hu.behind (by decide)
    have hdrop (z : Text) : (pre ++ ['='] ++ t ++ z).drop (pre ++ ['=']).length = t ++ z := by
      rw [List.append_assoc, List.drop_left]
    rw [hdrop, hdrop]
    refine Agree.emit ?_ (List.append_assoc _ _ _)
    exact agree_skipSpaces ht (local_attributeValue v) fun _ => trivial

theorem agree_attributeGroup (v : View) (h : Seam x w) :
    Agree x (w ++ x) (attributeGroup { v with rest := w ++ x })
      (attributeGroup { v with rest := w ++ y }) := by
  unfold attributeGroup
  refine agree_skipSpaces h ?_ fun _ => trivial
  intro u hu
  have hne := hu.dropWhile_ne_nil isNameChar_of_mem_seams
  obtain ⟨htx, hdx⟩ := takeWhile_append_of_ne_nil hne x
  obtain ⟨hty, hdy⟩ := takeWhile_append_of_ne_nil hne y
  dsimp only
  rw [htx, hdx, hty, hdy]
  split
  case isTrue => exact agree_fail _ _
  case isFalse =>
    refine Agree.emit (u := u.dropWhile isNameChar ++ x) ?_ ?_
    · exact agree_skipSpaces (hu.dropWhile hne) (local_attributeTest v) fun _ => trivial
    · rw [← List.append_assoc, List.takeWhile_append_dropWhile]

theorem upToClosing_append {depth : Nat} (h : upToClosing depth w = some t) (y : Text) :
    upToClosing depth (w ++ y) = some t := by
  induction w generalizing depth t with
  | nil => simp [upToClosing] at h
  | cons a w ih =>
    have hcons {d : Nat} (hd : (upToClosing d w).map (a :: ·) = some t) :
        (upToClosing d (w ++ y)).map (a :: ·) = some t := by
      obtain ⟨u, hu, rfl⟩ := Option.map_eq_some_iff.1 hd
      rw [ih hu, Option.map_some]
    rw [List.cons_append]
    unfold upToClosing at h ⊢
    split at h
    case isTrue ha =>
      rw [if_pos ha]
      cases depth with
      | zero => exact h
      | succ d => exact hcons h
    case isFalse ha =>
      rw [if_neg ha]
      split at h
      case isTrue hb =>
        rw [if_pos hb]
        exact hcons h
      case isFalse hb =>
        rw [if_neg hb]
        exact hcons h

/-- A closing parenthesis that is not found in `w` is found behind it. -/
theorem length_le_of_upToClosing {depth : Nat} (h : upToClosing depth w = none)
    (hx : upToClosing depth (w ++ x) = some t) : w.length ≤ t.length := by
  induction w generalizing depth t with
  | nil => exact Nat.zero_le _
  | cons a w ih =>
    have hcons {d : Nat} (hd : (upToClosing d w).map (a :: ·) = none)
        (hdx : (upToClosing d (w ++ x)).map (a :: ·) = some t) : (a :: w).length ≤ t.length := by
      obtain ⟨u, hu, rfl⟩ := Option.map_eq_some_iff.1 hdx
      exact Nat.succ_le_succ (ih (Option.map_eq_none_iff.1 hd) hu)
    rw [List.cons_append] at hx
    unfold upToClosing at h hx
    split at h
    case isTrue ha =>
      rw [if_pos ha] at hx
      cases depth with
      | zero => cases h
      | succ d => exact hcons h hx
    case isFalse ha =>
      rw [if_neg ha] at hx
      split at h
      case isTrue hb =>
        rw [if_pos hb] at hx
        exact hcons h hx
      case isFalse hb =>
        rw [if_neg hb] at hx
        exact hcons h hx

theorem agree_pseudoArguments (v : View) (h : Seam x w) :
    Agree x (w ++ x) (pseudoArguments { v with rest := w ++ x })
      (pseudoArguments { v with rest := w ++ y }) := by
  unfold pseudoArguments
  dsimp only
  cases hw : upToClosing 0 w with
  | some body =>
    rw [upToClosing_append hw x, upToClosing_append hw y]
    cases body <;> exact .refl _
  | none =>
    have hpos := List.length_pos_iff.2 h.ne_nil
    cases hx : upToClosing 0 (w ++ x) with
    | none => exact agree_fail _ _
    | some body =>
      have hle := length_le_of_upToClosing hw hx
      obtain ⟨t, ht⟩ := upToClosing_eq_append hx
      have hlength := congrArg List.length ht
      rw [List.length_append, List.length_append, List.length_cons] at hlength
      cases body with
      | nil =>
        rw [List.length_nil] at hle
        omega
      | cons b body =>
        refine .inr ?_
        dsimp only
        rw [Hangs, closeArguments, Hangs]
        refine hangs_of_lt ?_
        simp only [List.length_drop, List.length_append, List.length_cons,
          List.length_nil] at hlength hle ⊢
        omega

theorem local_colon : Local x y colon := by
  intro u hu
  refine agree_skipSpaces hu ?_ fun _ => trivial
  intro t ht
  obtain ⟨b, t, rfl⟩ := List.exists_cons_of_ne_nil ht.ne_nil
  by_cases hb : b = ':'
  · subst hb
    exact .refl _
  · refine .inr ?_
    dsimp only [List.cons_append]
    split
    case h_1 heq => exact absurd (List.cons.inj heq).1 hb
    case h_2 => trivial

/-- A token that begins with the seam takes in text from behind it. -/
theorem hangs_emit_of_takeWhile {p : Char → Bool} (ne : x.takeWhile p ≠ []) :
    (Script.emit k (a :: x.takeWhile p) s).Hangs x.length (a :: x) := by
  have hpos := List.length_pos_iff.2 ne
  have hle := (List.takeWhile_prefix (l := x) p).length_le
  rw [Hangs]
  refine hangs_of_lt ?_
  simp only [List.length_drop, List.length_cons]
  omega

theorem agree_atRule (v : View) (h : Seam x w) :
    Agree x (w ++ x) (atRule { v with rest := w ++ x }) (atRule { v with rest := w ++ y }) := by
  obtain ⟨a, t, rfl⟩ := List.exists_cons_of_ne_nil h.ne_nil
  unfold atRule
  dsimp only [List.cons_append]
  rcases h.cons with h | ⟨rfl, -, -⟩
  · have hne := h.dropWhile_ne_nil isNameChar_of_mem_seams
    rw [(takeWhile_append_of_ne_nil hne x).1, (takeWhile_append_of_ne_nil hne y).1]
    split
    case h_1 => exact .refl _
    case h_2 => exact agree_fail _ _
  · dsimp only [List.nil_append]
    split
    case h_1 kind hkind =>
      refine .inr (hangs_emit_of_takeWhile ?_)
      intro hnil
      rw [hnil] at hkind
      cases hkind
    case h_2 => exact agree_fail _ _

theorem agree_assignment (v : View) (h : Seam x w) :
    Agree x (w ++ x) (assignment { v with rest := w ++ x })
      (assignment { v with rest := w ++ y }) := by
  obtain ⟨a, t, rfl⟩ := List.exists_cons_of_ne_nil h.ne_nil
  unfold assignment
  dsimp only [List.cons_append]
  rcases h.cons with h | ⟨rfl, -, -⟩
  · exact agree_sigil h local_colon
  · dsimp only [List.nil_append]
    refine .inr ?_
    rw [sigil]
    split
    case isTrue => trivial
    case isFalse hne => exact hangs_emit_of_takeWhile hne

theorem agree_property (v : View) (h : Seam x w) :
    Agree x (w ++ x) (property { v with rest := w ++ x }) (property { v with rest := w ++ y }) := by
  obtain ⟨a, t, rfl⟩ := List.exists_cons_of_ne_nil h.ne_nil
  unfold property
  dsimp only [List.cons_append]
  split
  case isTrue hstart =>
    have hseam : a ∉ seams := by
      rcases hstart with rfl | hstart
      · decide
      · exact not_mem_seams_of_isNameStart hstart
    have ht := h.of_cons hseam
    have hne := ht.dropWhile_ne_nil isNameChar_of_mem_seams
    obtain ⟨htx, hdx⟩ := takeWhile_append_of_ne_nil hne x
    obtain ⟨hty, hdy⟩ := takeWhile_append_of_ne_nil hne y
    rw [htx, hdx, hty, hdy]
    refine (local_colon _ (ht.dropWhile hne)).emit ?_
    rw [List.cons_append, ← List.append_assoc, List.takeWhile_append_dropWhile]
  case isFalse => exact agree_fail _ _

/-- Only a statement looks for the shape of a rule. -/
theorem agree_ofState {st : State} (hst : st ≠ .statement) (v : View) (h : Seam x w) :
    Agree x (w ++ x) (ofState st { v with rest := w ++ x })
      (ofState st { v with rest := w ++ y }) := by
  cases st with
  | statement => exact absurd rfl hst
  | atRule => exact agree_atRule v h
  | assignment => exact agree_assignment v h
  | property => exact agree_property v h
  | selector => exact agree_selector v h
  | «attribute» => exact agree_attributeGroup v h
  | pseudoArguments => exact agree_pseudoArguments v h
  | value => exact agree_value v h
  | interpolation => exact agree_interpolation v h
  | done => exact .refl _

/-- A statement that is more than spaces goes on in the same way, if the shape of its rule stays the
same. -/
theorem agree_statement (v : View) (h : Seam x w) (hblank : w.dropWhile isSpace ≠ [])
    (hblock : RuleShape.ofText (w.dropWhile isSpace ++ x) = .block →
      RuleShape.ofText (w.dropWhile isSpace ++ y) = .block)
    (hdeclaration :
      statement { v with rest := w ++ x } = .skip (w.takeWhile isSpace) (.goto .property) →
        RuleShape.ofText (w.dropWhile isSpace ++ y) = .declaration) :
    Agree x (w ++ x) (statement { v with rest := w ++ x })
      (statement { v with rest := w ++ y }) := by
  obtain ⟨htx, hdx⟩ := takeWhile_append_of_ne_nil hblank x
  obtain ⟨hty, hdy⟩ := takeWhile_append_of_ne_nil hblank y
  have hbehind := h.dropWhile hblank
  have hrest : w ++ x = w.takeWhile isSpace ++ (w.dropWhile isSpace ++ x) := by
    rw [← List.append_assoc, List.takeWhile_append_dropWhile]
  unfold statement skipSpaces at hdeclaration ⊢
  dsimp only at hdeclaration ⊢
  rw [htx, hdx] at hdeclaration
  rw [htx, hdx, hty, hdy]
  refine Agree.skip ?_ hrest
  replace hdeclaration := fun heq => hdeclaration (congrArg (Script.skip _) heq)
  generalize w.dropWhile isSpace = u at hblank hblock hdeclaration hbehind ⊢
  obtain ⟨a, t, rfl⟩ := List.exists_cons_of_ne_nil hblank
  dsimp only [List.cons_append] at hblock hdeclaration ⊢
  refine .ite (fun _ => .refl _) fun hat => .ite (fun _ => .refl _) fun hdollar =>
    .ite (fun _ => .refl _) fun hopen => .ite (fun _ => .refl _) fun hclose =>
    .ite ?string fun hquote => .ite (fun _ => agree_number hbehind (local_const _)) fun hdigit => ?_
  case string =>
    intro hquote
    have hseam := not_mem_seams_of_isQuote hquote
    exact agree_quoted (hbehind.of_cons hseam) hseam (local_const _)
  simp only [if_neg hat, if_neg hdollar, if_neg hopen, if_neg hclose, if_neg hquote,
    if_neg hdigit] at hdeclaration
  have hshape : (v.top = .block ∧ RuleShape.ofText (a :: (t ++ x)) = .declaration) ↔
      (v.top = .block ∧ RuleShape.ofText (a :: (t ++ y)) = .declaration) := by
    constructor
    · intro hx
      exact ⟨hx.1, hdeclaration (if_pos hx)⟩
    · rintro ⟨htop, hy⟩
      refine ⟨htop, ?_⟩
      cases hx : RuleShape.ofText (a :: (t ++ x)) with
      | declaration => rfl
      | block =>
        rw [hblock hx] at hy
        cases hy
  simp only [hshape]
  exact .refl _

end StyleLex.Script

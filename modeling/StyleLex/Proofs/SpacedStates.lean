import StyleLex.Proofs.SpacedScripts

/-!
# States with spaces put in

Only a selector does not pass over all spaces. Behind a compound they are a combinator, and the place
right behind that combinator is not loose.
-/
namespace StyleLex

namespace Script

open Text

variable {w b x y rest u tail t blank : Text} {L : List Piece} {ms : List Mode} {g : Compound}
  {s s' : Script} {next : Text → Script} {k : Kind} {a q : Char} {v : View}

/-- A token of a character and the rest of its name. -/
theorem admits_name (hw : w.Blank) (before : k.spaceBefore = false) (behind : k.spaceBehind = false)
    (hnext : Roomy w b L ms g next) :
    Admits w L ms g (a :: x)
      (.emit k (a :: (x ++ b).takeWhile isNameChar) (next ((x ++ b).dropWhile isNameChar)))
      (.emit k (a :: (x ++ (w ++ b)).takeWhile isNameChar)
        (next ((x ++ (w ++ b)).dropWhile isNameChar))) := by
  have munch := Text.munch isNameChar (x ++ b)
  generalize (x ++ b).takeWhile isNameChar = name at munch
  generalize (x ++ b).dropWhile isNameChar = tail at munch
  refine admits_token before behind (List.cons_ne_nil a name) fun y hx => ?_
  obtain rfl : x = name ++ y := (List.cons.inj hx).2
  obtain ⟨rfl, munch'⟩ := munch.respace hw fun _ => not_isNameChar_of_isSpace
  rw [munch'.takeWhile_eq.1, munch'.takeWhile_eq.2]
  exact ⟨_, rfl, hnext y⟩

/-- A token that is a longest run, which must not be empty. -/
theorem admits_run {p : Char → Bool} {f f' : Fault} (hw : w.Blank)
    (hp : ∀ a, isSpace a = true → p a = false) (before : k.spaceBefore = false)
    (behind : k.spaceBehind = false) (hnext : Roomy w b L ms g next) :
    Admits w L ms g x
      (if (x ++ b).takeWhile p = [] then .fail [] f
        else .emit k ((x ++ b).takeWhile p) (next ((x ++ b).dropWhile p)))
      (if (x ++ (w ++ b)).takeWhile p = [] then .fail [] f'
        else .emit k ((x ++ (w ++ b)).takeWhile p) (next ((x ++ (w ++ b)).dropWhile p))) := by
  have munch := Text.munch p (x ++ b)
  generalize (x ++ b).takeWhile p = run at munch
  generalize (x ++ b).dropWhile p = tail at munch
  by_cases ne : run = []
  · rw [if_pos ne]
    exact admits_fail
  · rw [if_neg ne]
    refine admits_token before behind ne fun y hx => ?_
    subst hx
    obtain ⟨rfl, munch'⟩ := munch.respace hw hp
    rw [munch'.takeWhile_eq.1, munch'.takeWhile_eq.2, if_neg ne]
    exact ⟨_, rfl, hnext y⟩

theorem roomy_simple (k : Kind) : Roomy w b L ms g fun _ => noteSimple k <| .goto .selector :=
  fun _ => .note (admits_goto _)

theorem pseudo_of_colons {colons : Text} (found : Colons rest colons t) :
    pseudo rest = pseudoName colons t := by
  obtain ⟨split, rfl | rfl, stop⟩ := found
  · obtain rfl : rest = t := (List.cons.inj split).2
    unfold pseudo
    split
    case h_1 => exact absurd rfl (stop rfl)
    case h_2 => rfl
  · obtain rfl : rest = ':' :: t := (List.cons.inj split).2
    rfl

theorem pseudoName_of_munch {colons : Text} (munch : t.Munch isNameChar u tail) (ne : u ≠ []) :
    pseudoName colons t = (.emit .pseudoSelector (colons ++ u) <| noteSimple .pseudoSelector <|
      if tail.head? = some '(' then .enter .pseudoArguments <| .skip ['('] <| .goto .pseudoArguments
      else .goto .selector) := by
  rw [pseudoName, munch.takeWhile_eq.1, munch.takeWhile_eq.2, if_neg ne]

/-- Spaces behind the name of a pseudo selector change neither its colons nor its name. -/
theorem pseudo_respace {colons : Text} (hw : w.Blank) (found : Colons (x ++ b) colons t)
    (munch : t.Munch isNameChar u tail) (ne : u ≠ []) (hx : ':' :: x = colons ++ u ++ y) :
    tail = y ++ b ∧ pseudo (x ++ (w ++ b)) =
      (.emit .pseudoSelector (colons ++ u) <| noteSimple .pseudoSelector <|
        if (y ++ (w ++ b)).head? = some '(' then
          .enter .pseudoArguments <| .skip ['('] <| .goto .pseudoArguments
        else .goto .selector) := by
  have hsplit (z : Text) : ':' :: (x ++ z) = colons ++ (u ++ y ++ z) := by
    rw [← List.cons_append, hx]
    simp
  obtain rfl : t = u ++ y ++ b := by
    have heq := found.split
    rw [hsplit] at heq
    exact (List.append_cancel_left heq).symm
  obtain ⟨rfl, munch'⟩ := munch.respace hw fun _ => not_isNameChar_of_isSpace
  have found' : Colons (x ++ (w ++ b)) colons (u ++ y ++ (w ++ b)) := by
    refine ⟨hsplit _, found.short, fun hone => ?_⟩
    have hstop := found.stop hone
    obtain ⟨a, u, rfl⟩ := List.exists_cons_of_ne_nil ne
    exact hstop
  rw [pseudo_of_colons found', pseudoName_of_munch munch' ne]
  exact ⟨rfl, rfl⟩

theorem admits_pseudo (hw : w.Blank) :
    Admits w L ms g (':' :: x) (pseudo (x ++ b)) (pseudo (x ++ (w ++ b))) := by
  have hs := pseudo_form (x ++ b)
  generalize pseudo (x ++ b) = s at hs
  cases hs with
  | nameless => exact admits_fail
  | bare found munch ne ahead =>
    refine admits_token rfl rfl (List.append_ne_nil_of_right_ne_nil _ ne) fun y hx => ?_
    obtain ⟨rfl, hpseudo⟩ := pseudo_respace hw found munch ne hx
    rw [hpseudo, if_neg (hw.head?_ne (by decide) ahead)]
    exact ⟨_, rfl, roomy_simple (b := b) _ y⟩
  | @arguments colons t name tail found munch ne =>
    intro ok place
    obtain ⟨y, hx, hopen⟩ := place.token rfl rfl
    obtain ⟨y', rfl, hplace⟩ := hopen.gap (List.forall_mem_singleton.2 rfl)
    obtain ⟨-, hpseudo⟩ := pseudo_respace hw found munch ne hx
    have hparen : (['('] ++ y' ++ (w ++ b)).head? = some '(' := rfl
    rw [hpseudo, if_pos hparen]
    exact .emit hx (List.cons_ne_nil _ _)
      (.note (.enter (.skip rfl (.goto (.inl hplace)))))

theorem admits_simpleSelector (hw : w.Blank) :
    Admits w L ms g (a :: x) (simpleSelector a (x ++ b)) (simpleSelector a (x ++ (w ++ b))) := by
  unfold simpleSelector
  refine .ite ?group fun _ => .ite ?pseudo fun _ =>
    .ite (fun _ => admits_sigil hw rfl rfl (roomy_simple _)) fun _ =>
    .ite (fun _ => admits_sigil hw rfl rfl (roomy_simple _)) fun _ => .ite ?universal fun _ =>
    .ite (fun _ => admits_name hw rfl rfl (roomy_simple _)) fun _ =>
      admits_name hw rfl rfl (roomy_simple _)
  case group =>
    exact fun _ => .enter (admits_char fun _ hplace =>
      .goto (hplace.imp_right fun h => ⟨h.1, trivial⟩))
  case pseudo =>
    rintro rfl
    exact admits_pseudo hw
  case universal =>
    exact fun _ => admits_token rfl rfl (List.cons_ne_nil a []) fun y hx => by
      obtain rfl : x = y := (List.cons.inj hx).2
      exact ⟨_, rfl, roomy_simple (b := b) _ x⟩

theorem admits_glue (needed : Bool) (ne : x ≠ []) (h : Admits w L ms g x s s') :
    Admits w L ms g x (glue needed s) (glue needed s') := by
  refine .ite (fun _ ok place => ?_) fun _ => h
  obtain ⟨y, rfl, hplace⟩ := place.token rfl rfl
  exact .emit rfl ne (h ok hplace)

theorem admits_compoundPart (hw : w.Blank) (hv : v.compound.Plain) :
    Admits w L ms g (a :: x) (compoundPart v a (x ++ b)) (compoundPart v a (x ++ (w ++ b))) := by
  have hahead (s s' : Script)
      (hs : interpolationAhead (a :: x ++ b) = false → Admits w L ms g (a :: x) s s') :=
    admits_interpolationAhead hw (List.cons_ne_nil a x) hs
  have hkind := hv.kind
  unfold compoundPart
  exact hahead _ _ fun _ => .ite (fun _ => admits_name hw (Kind.spaceBefore_of_isSelector hkind)
      (Kind.spaceBehind_of_isSelector hkind) (roomy_simple _)) fun _ =>
    .ite (fun _ => admits_glue _ (List.cons_ne_nil a x) (admits_simpleSelector hw)) fun _ =>
    admits_fail

/-- Right in front of a simple selector no place is loose. -/
theorem SimpleForm.tight (hs : SimpleForm a rest s) (ok : s.Settles) : ¬Loose [] (s.pieces ++ L) := by
  cases hs with
  | group => exact not_loose_nil rfl (List.cons_ne_nil _ _)
  | pseudo _ form =>
    cases form with
    | nameless => exact ok.elim
    | bare _ _ ne => exact not_loose_nil rfl (List.append_ne_nil_of_right_ne_nil _ ne)
    | arguments _ _ ne => exact not_loose_nil rfl (List.append_ne_nil_of_right_ne_nil _ ne)
  | sigil start form =>
    have hkind := isSelector_of_sigilKind? start
    cases form with
    | nameless => exact ok.elim
    | named => exact not_loose_nil (Kind.spaceBefore_of_isSelector hkind) (List.cons_ne_nil _ _)
  | universal => exact not_loose_nil rfl (List.cons_ne_nil _ _)
  | parent => exact not_loose_nil rfl (List.cons_ne_nil _ _)
  | tag => exact not_loose_nil rfl (List.cons_ne_nil _ _)

theorem CompoundForm.tight (hs : CompoundForm v a rest s) (hv : v.compound.Plain) (ok : s.Settles) :
    ¬Loose [] (s.pieces ++ L) := by
  cases hs with
  | interpolation => exact not_loose_nil (k := .interpolationStart) rfl (List.cons_ne_nil _ _)
  | continued _ _ same =>
    subst same
    exact not_loose_nil (Kind.spaceBefore_of_isSelector hv.kind) (List.cons_ne_nil _ _)
  | simple _ _ _ form => exact form.tight ok
  | glued _ _ _ form =>
    intro place
    obtain ⟨y, hy, hplace⟩ := place.token rfl rfl
    obtain rfl : [] = y := hy
    exact form.tight ok hplace
  | stray => exact ok.elim

/-- The script of a selector in front of `a`, behind the spaces `blank`. -/
def selectorBehind (v : View) (blank : Text) (a : Char) (t : Text) : Script :=
  match combinator? a with
  | some kind =>
    .skip blank <| .emit kind [a] <| skipSpaces t fun _ => .note .detached <| .goto .selector
  | none =>
    if a = '{' then
      .skip blank <| .leave <| .enter .block <| .emit .braceStart [a] <|
        .note .detached <| .goto .statement
    else if a = ',' then .skip blank <| .emit .comma [a] <| .note .detached <| .goto .selector
    else if blank ≠ [] ∧ v.compound.glue ≠ .detached then
      .emit .descendantCombinator blank <| .note .detached <| .goto .selector
    else .skip blank <| compoundPart v a t

theorem selector_of_munch (munch : v.rest.Munch isSpace blank (a :: t)) :
    selector v = selectorBehind v blank a t := by
  rw [selector, munch.takeWhile_eq.1, munch.takeWhile_eq.2]
  rfl

/-- More spaces in front of a part of a selector are skipped, unless they are a combinator. -/
theorem spaced_selectorBehind {r : Text} (hv : v.compound.Plain)
    (tight : selectorBehind v (x ++ r) a t =
      (.emit .descendantCombinator (x ++ r) <| .note .detached <| .goto .selector) → ¬Loose [] L)
    (ok : (selectorBehind v (x ++ r) a t).Settles)
    (place : Loose x ((selectorBehind v (x ++ r) a t).pieces ++ L) ∨
      x = [] ∧ v.compound.glue = .detached) :
    Spaced w L ms g x (selectorBehind v (x ++ r) a t) (selectorBehind v (x ++ (w ++ r)) a t) := by
  unfold selectorBehind at tight ok place ⊢
  cases hother : combinator? a with
  | some kind => exact .absorbed
  | none =>
  rw [hother] at tight ok place
  dsimp only at tight ok place ⊢
  by_cases hbrace : a = '{'
  · rw [if_pos hbrace, if_pos hbrace]
    exact .absorbed
  by_cases hcomma : a = ','
  · rw [if_neg hbrace, if_neg hbrace, if_pos hcomma, if_pos hcomma]
    exact .absorbed
  simp only [if_neg hbrace, if_neg hcomma] at tight ok place ⊢
  by_cases hglue : v.compound.glue = .detached
  · rw [if_neg fun h => h.2 hglue, if_neg fun h => h.2 hglue]
    exact .absorbed
  replace place := place.resolve_right fun h => hglue h.2
  by_cases hblank : x ++ r = []
  · rw [if_neg fun h => h.1 hblank] at ok place
    obtain ⟨rfl, rfl⟩ := List.append_eq_nil_iff.1 hblank
    obtain ⟨y, hy, hplace⟩ := place.gap (by simp)
    obtain rfl : [] = y := hy
    exact absurd hplace ((compoundPart_form v a t).tight hv ok)
  · rw [if_pos ⟨hblank, hglue⟩] at tight place
    obtain ⟨y, hy, hplace⟩ := place.token rfl rfl
    obtain rfl : y = [] := by
      have hlength := congrArg List.length hy
      simp only [List.length_append] at hlength
      exact List.length_eq_zero_iff.1 (by omega)
    exact absurd hplace (tight rfl)

theorem admits_selectorBehind (hw : w.Blank) (hv : v.compound.Plain) :
    Admits w L ms g (blank ++ a :: y) (selectorBehind v blank a (y ++ b))
      (selectorBehind v blank a (y ++ (w ++ b))) := by
  have hdetached : Roomy w b L ms g fun _ => .note .detached <| .goto .selector :=
    fun _ => .note (admits_goto _)
  unfold selectorBehind
  cases combinator? a with
  | some kind =>
    refine admits_blank (List.cons_ne_nil a y) (admits_char fun ok hplace => ?_)
    exact spaced_skipSpaces hw (fun y _ _ => hdetached y) ok (hplace.imp_right And.left)
  | none =>
    refine .ite ?block fun _ => .ite ?comma fun _ => .ite ?descendant fun _ =>
      admits_blank (List.cons_ne_nil a y) (admits_compoundPart hw hv)
    case block =>
      exact fun _ => admits_blank (List.cons_ne_nil a y) (.leave (.enter (admits_char
        fun _ hplace => .note (.goto (hplace.imp_right fun h => ⟨h.1, trivial⟩)))))
    case comma =>
      exact fun _ => admits_blank (List.cons_ne_nil a y) (admits_char
        fun _ hplace => .note (.goto (hplace.imp_right fun h => ⟨h.1, rfl⟩)))
    case descendant =>
      exact fun h => admits_token rfl rfl h.1 fun z hz => by
        obtain rfl := List.append_cancel_left hz
        exact ⟨_, rfl, hdetached (a :: y)⟩

/-- The place behind a descendant combinator must not be loose, since more spaces there would be part
of the combinator. -/
theorem spaced_selector (hw : w.Blank) (v : View) (hv : v.compound.Plain)
    (tight : ∀ u, selector { v with rest := x ++ b } =
      (.emit .descendantCombinator u <| .note .detached <| .goto .selector) → ¬Loose [] L)
    (ok : (selector { v with rest := x ++ b }).Settles)
    (place : Loose x ((selector { v with rest := x ++ b }).pieces ++ L) ∨
      x = [] ∧ v.compound.glue = .detached) :
    Spaced w L ms g x (selector { v with rest := x ++ b })
      (selector { v with rest := x ++ (w ++ b) }) := by
  have munch := Text.munch isSpace (x ++ b)
  generalize (x ++ b).takeWhile isSpace = blank at munch
  generalize (x ++ b).dropWhile isSpace = tail at munch
  cases tail with
  | nil =>
    rw [selector, munch.takeWhile_eq.1, munch.takeWhile_eq.2] at ok
    exact ok.elim
  | cons c t =>
    rw [selector_of_munch (v := { v with rest := x ++ b }) munch] at tight ok place ⊢
    rcases munch.spaces hw with ⟨r, rfl, munch'⟩ | ⟨y, ne, rfl, hy, munch'⟩
    · rw [selector_of_munch (v := { v with rest := x ++ (w ++ b) }) munch']
      exact spaced_selectorBehind (v := { v with rest := x ++ b }) hv (tight _) ok place
    · obtain ⟨c', y, rfl⟩ := List.exists_cons_of_ne_nil ne
      obtain ⟨rfl, rfl⟩ := List.cons.inj hy
      rw [selector_of_munch (v := { v with rest := blank ++ c :: y ++ (w ++ b) }) munch']
      exact admits_selectorBehind (v := v) hw hv ok (place.resolve_right fun h => absurd h.1 (by simp))

theorem admits_attributeEnd (v : View) (ne : y ≠ []) :
    Admits w L ms g y (attributeEnd v (y ++ b)) (attributeEnd v (y ++ (w ++ b))) := by
  obtain ⟨a, y, rfl⟩ := List.exists_cons_of_ne_nil ne
  by_cases ha : a = ']'
  · subst ha
    refine admits_char fun ok hplace => ?_
    refine Admits.leave (.note (admits_goto _)) ok (hplace.resolve_right fun h => nomatch h.2)
  · have hs := attributeEnd_form v (a :: y ++ b)
    generalize attributeEnd v (a :: y ++ b) = s at hs
    cases hs with
    | closed ahead => exact absurd (List.cons.inj ahead).1 ha
    | unclosed => exact admits_fail

theorem roomy_attributeEnd (hw : w.Blank) (v : View) :
    Roomy w b L ms g fun r => skipSpaces r <| attributeEnd v :=
  roomy_skipSpaces hw fun _ => admits_attributeEnd v

theorem admits_attributeValue (hw : w.Blank) (v : View) (ne : y ≠ []) :
    Admits w L ms g y (attributeValue v (y ++ b)) (attributeValue v (y ++ (w ++ b))) := by
  have hend : Roomy w b L ms g fun r => skipSpaces r <| attributeEnd v := roomy_attributeEnd hw v
  obtain ⟨a, y, rfl⟩ := List.exists_cons_of_ne_nil ne
  unfold attributeValue
  exact .ite (fun quote => admits_quoted quote hend) fun _ =>
    admits_run (x := a :: y) hw (fun _ => not_isUnquotedChar_of_isSpace) rfl rfl hend

theorem attributeOperator?_of_mem (h : (u, k) ∈ attributeOperators) (t : Text) :
    attributeOperator? (u ++ t) = some (u, k) := by
  simp only [attributeOperators, List.mem_cons, List.not_mem_nil, or_false, Prod.mk.injEq] at h
  rcases h with ⟨rfl, rfl⟩ | ⟨rfl, rfl⟩ | ⟨rfl, rfl⟩ | ⟨rfl, rfl⟩ | ⟨rfl, rfl⟩ | ⟨rfl, rfl⟩ <;> rfl

theorem attributeTest_of_mem (h : (u, k) ∈ attributeOperators) (v : View) (t : Text) :
    attributeTest v (u ++ t) = (.emit k u <| skipSpaces t <| attributeValue v) := by
  rw [attributeTest, attributeOperator?_of_mem h]
  dsimp only
  rw [List.drop_left]

theorem admits_attributeTest (hw : w.Blank) (v : View) (ne : y ≠ []) :
    Admits w L ms g y (attributeTest v (y ++ b)) (attributeTest v (y ++ (w ++ b))) := by
  cases hop : attributeOperator? (y ++ b) with
  | none =>
    have hend : Admits w L ms g y (attributeEnd v (y ++ b)) (attributeEnd v (y ++ (w ++ b))) :=
      admits_attributeEnd v ne
    rw [attributeTest, hop]
    dsimp only
    have hs := attributeEnd_form v (y ++ b)
    generalize attributeEnd v (y ++ b) = s at hs hend
    cases hs with
    | closed ahead =>
      obtain ⟨a, y, rfl⟩ := List.exists_cons_of_ne_nil ne
      obtain ⟨rfl, -⟩ := List.cons.inj ahead
      exact hend
    | unclosed => exact admits_fail
  | some op =>
    obtain ⟨op, kind⟩ := op
    have hmem := List.mem_of_find?_eq_some hop
    have hahead : op <+: y ++ b := List.isPrefixOf_iff_prefix.1 (by simpa using List.find?_some hop)
    obtain ⟨t, ht⟩ := hahead
    rw [← ht, attributeTest_of_mem hmem]
    intro ok place
    obtain ⟨z, rfl, hplace⟩ := place.token_of_ne ne
    rw [List.append_assoc] at ht
    obtain rfl := List.append_cancel_left ht
    rw [List.append_assoc, attributeTest_of_mem hmem]
    exact .emit rfl ne (spaced_skipSpaces hw (fun _ _ => admits_attributeValue hw v) ok
      (hplace.imp_right And.left))

theorem spaced_attributeGroup (hw : w.Blank) (v : View)
    (ok : (attributeGroup { v with rest := x ++ b }).Settles)
    (place : Loose x ((attributeGroup { v with rest := x ++ b }).pieces ++ L) ∨ x = []) :
    Spaced w L ms g x (attributeGroup { v with rest := x ++ b })
      (attributeGroup { v with rest := x ++ (w ++ b) }) := by
  unfold attributeGroup at ok place ⊢
  refine spaced_skipSpaces hw ?_ ok place
  intro y _ _
  exact admits_run hw (fun _ => not_isNameChar_of_isSpace) rfl rfl
    (roomy_skipSpaces hw fun _ => admits_attributeTest hw v)

theorem admits_closeArguments (v : View) :
    Admits w L ms g (')' :: y) (closeArguments v) (closeArguments v) :=
  Admits.skip (y := y) (.leave (.note admits_resume)) (List.forall_mem_singleton.2 rfl)

theorem admits_pseudoArguments (v : View) :
    Admits w L ms g x (pseudoArguments { v with rest := x ++ b })
      (pseudoArguments { v with rest := x ++ (w ++ b) }) := by
  have hs := pseudoArguments_form { v with rest := x ++ b }
  generalize pseudoArguments { v with rest := x ++ b } = s at hs
  cases hs with
  | unclosed => exact admits_fail
  | empty =>
    intro ok place
    obtain ⟨y, rfl, -⟩ := Loose.gap (t := [')']) place (List.forall_mem_singleton.2 rfl)
    exact admits_closeArguments _ ok place
  | @arguments u t found split ne =>
    intro ok place
    obtain ⟨z, hx, hclose⟩ := place.token rfl rfl
    obtain ⟨y, rfl, -⟩ := hclose.gap (List.forall_mem_singleton.2 rfl)
    obtain rfl : x = u ++ ')' :: y := hx
    have hfound : upToClosing 0 (u ++ ')' :: y ++ (w ++ b)) = some u := by
      rw [List.append_assoc]
      dsimp only at found split
      rw [split] at found
      exact upToClosing_respace found _
    have hsecond : pseudoArguments { v with rest := u ++ ')' :: y ++ (w ++ b) } =
        .emit .langCode u (closeArguments v) := by
      obtain ⟨a, u, rfl⟩ := List.exists_cons_of_ne_nil ne
      unfold pseudoArguments
      dsimp only
      rw [hfound]
      rfl
    rw [hsecond]
    exact .emit rfl (by simp) (admits_closeArguments _ ok hclose)

theorem roomy_colon (hw : w.Blank) : Roomy w b L ms g colon := by
  refine roomy_skipSpaces hw fun y ne => ?_
  obtain ⟨a, y, rfl⟩ := List.exists_cons_of_ne_nil ne
  by_cases ha : a = ':'
  · subst ha
    exact admits_char fun _ hplace => .enter (.goto (hplace.imp_right fun h => ⟨h.1, trivial⟩))
  · dsimp only [List.cons_append]
    split
    case h_1 heq => exact absurd (List.cons.inj heq).1 ha
    case h_2 => exact admits_fail

/-- Right in front of a name that begins a statement no place is loose. -/
theorem admits_nil (before : k.spaceBefore = false) (ne : t ≠ []) :
    Admits w L ms g [] (.emit k t s) s' := fun _ place => absurd place (not_loose_nil before ne)

theorem admits_atRule (hw : w.Blank) (v : View) :
    Admits w L ms g x (atRule { v with rest := x ++ b }) (atRule { v with rest := x ++ (w ++ b) }) := by
  have hs := atRule_form { v with rest := x ++ b }
  generalize atRule { v with rest := x ++ b } = s at hs
  cases hs with
  | atEnd => exact admits_fail
  | @known a t name tail kind ahead munch known =>
    have hkind := isAtRule_of_atKeyword? known
    refine admits_token (Kind.spaceBefore_of_isAtRule hkind) (Kind.spaceBehind_of_isAtRule hkind)
      (List.cons_ne_nil a name) fun y hx => ?_
    subst hx
    obtain rfl : name ++ y ++ b = t := (List.cons.inj ahead).2
    obtain ⟨-, munch'⟩ := munch.respace hw fun _ => not_isNameChar_of_isSpace
    refine ⟨.enter .value <| .goto .value, ?_, .enter (admits_goto _)⟩
    unfold atRule
    dsimp only [List.cons_append]
    rw [munch'.takeWhile_eq.1, known]
  | unknown => exact admits_fail

theorem admits_assignment (hw : w.Blank) (v : View) :
    Admits w L ms g x (assignment { v with rest := x ++ b })
      (assignment { v with rest := x ++ (w ++ b) }) := by
  cases x with
  | nil =>
    have hs := assignment_form { v with rest := [] ++ b }
    generalize assignment { v with rest := [] ++ b } = s at hs
    cases hs with
    | atEnd => exact admits_fail
    | named _ form =>
      cases form with
      | nameless => exact admits_fail
      | named => exact admits_nil rfl (List.cons_ne_nil _ _)
  | cons a x => exact admits_sigil hw rfl rfl (roomy_colon hw)

theorem admits_property (hw : w.Blank) (v : View) :
    Admits w L ms g x (property { v with rest := x ++ b })
      (property { v with rest := x ++ (w ++ b) }) := by
  cases x with
  | nil =>
    have hs := property_form { v with rest := [] ++ b }
    generalize property { v with rest := [] ++ b } = s at hs
    cases hs with
    | atEnd => exact admits_fail
    | named => exact admits_nil rfl (List.cons_ne_nil _ _)
    | stray => exact admits_fail
  | cons a x =>
    exact .ite (fun _ => admits_name hw rfl rfl (roomy_colon hw)) fun _ => admits_fail

theorem spaced_statement (hw : w.Blank) (plain : x.Unparted b) (outer : Blocks ms) (v : View)
    (ok : (statement { v with rest := x ++ b }).Settles)
    (place : Loose x ((statement { v with rest := x ++ b }).pieces ++ L) ∨ x = []) :
    Spaced w L ms g x (statement { v with rest := x ++ b })
      (statement { v with rest := x ++ (w ++ b) }) := by
  unfold statement at ok place ⊢
  refine spaced_skipSpaces hw ?_ ok place
  intro y hy ne
  have hshape := RuleShape.ofText_respace hw (plain.suffix hy)
  obtain ⟨a, y, rfl⟩ := List.exists_cons_of_ne_nil ne
  have hnext : Roomy w b L ms g fun _ => .goto .statement := roomy_goto _
  simp only [List.cons_append] at hshape ⊢
  rw [hshape]
  refine .ite (fun _ => admits_goto _) fun _ => .ite (fun _ => admits_goto _) fun _ =>
    .ite ?block fun _ => .ite (fun _ => .ite ?close fun _ => admits_fail) fun _ =>
    .ite (fun quote => admits_quoted quote hnext) fun _ =>
    .ite (fun digit => admits_number hw digit hnext) fun _ => .ite (fun _ => admits_goto _) fun _ =>
    .ite (fun _ => .enter (.note (admits_goto _))) fun _ => admits_fail
  case block =>
    exact fun _ => .enter (admits_char fun _ hplace =>
      .goto (hplace.imp_right fun h => ⟨h.1, trivial⟩))
  case close =>
    exact fun _ => admits_char fun _ hplace =>
      .leave (.resume (hplace.imp_right fun h => ⟨h.1, outer.tail.yields⟩))

/-- At a loose place, or in front of a state that yields, spaces may be put in. -/
theorem spaced_ofState {c : Config} {st : State} (hw : w.Blank) (plain : x.Unparted b)
    (hfits : st.Fits c ms) (v : View) (hv : v.compound.Plain)
    (tight : st = .selector → ∀ u, selector { v with rest := x ++ b } =
      (.emit .descendantCombinator u <| .note .detached <| .goto .selector) → ¬Loose [] L)
    (ok : (ofState st { v with rest := x ++ b }).Settles)
    (place : Loose x ((ofState st { v with rest := x ++ b }).pieces ++ L) ∨
      x = [] ∧ st.Yields v.compound) :
    Spaced w L ms v.compound x (ofState st { v with rest := x ++ b })
      (ofState st { v with rest := x ++ (w ++ b) }) := by
  cases st with
  | statement =>
    cases hfits with
    | statement outer => exact spaced_statement hw plain outer v ok (place.imp_right And.left)
  | atRule => exact admits_atRule hw v ok (place.resolve_right And.right)
  | assignment => exact admits_assignment hw v ok (place.resolve_right And.right)
  | property => exact admits_property hw v ok (place.resolve_right And.right)
  | selector => exact spaced_selector hw v hv (tight rfl) ok place
  | «attribute» => exact spaced_attributeGroup hw v ok (place.imp_right And.left)
  | pseudoArguments => exact admits_pseudoArguments v ok (place.resolve_right And.right)
  | value => exact spaced_value hw plain hfits v ok (place.imp_right And.left)
  | interpolation => exact spaced_interpolation hw plain v ok (place.imp_right And.left)
  | done => exact admits_goto _ ok (place.resolve_right And.right)

end Script

end StyleLex

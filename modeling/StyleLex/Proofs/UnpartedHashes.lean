import StyleLex.Proofs.LocalStates
import StyleLex.Proofs.ScriptOutcomes

/-!
# Hashes and the braces behind them

A `#` with a `{` behind it is not parted: no token ends between the two, and neither does a text that
is dropped.
-/
namespace StyleLex

variable {c : Config} {st : State} {v : View} {rest t u tail : Text} {a : Char} {k : Kind} {s : Script}
  {next : Text → Script}

/-- Between `t` and `u` no hash is parted from its brace. -/
def Text.Unparted (t u : Text) : Prop := u.head? = some '{' → EndsPlain t

theorem EndsPlain.unparted (h : EndsPlain t) (u : Text) : t.Unparted u := fun _ => h

theorem endsPlain_of_forall (h : ∀ b ∈ t, b ≠ '#') : EndsPlain t :=
  fun hlast => h _ (List.mem_of_getLast? hlast) rfl

theorem endsPlain_singleton (h : a ≠ '#') : EndsPlain [a] := endsPlain_char h []

theorem ne_hash_of_isQuote (h : isQuote a = true) : a ≠ '#' := by
  rintro rfl
  cases h

namespace Script

/-- No piece of the script parts a hash from its brace. -/
def Unparted : Script → Text → Prop
  | .skip t s, rest | .emit _ t s, rest =>
    t.Unparted (rest.drop t.length) ∧ s.Unparted (rest.drop t.length)
  | .enter _ s, rest | .leave s, rest | .note _ s, rest => s.Unparted rest
  | .goto _, _ | .resume, _ | .fail _ _, _ => True

theorem unparted_skip (split : rest = t ++ tail) (h : t.Unparted tail) (hs : s.Unparted tail) :
    (skip t s).Unparted rest := by
  rw [Unparted, split, List.drop_left]
  exact ⟨h, hs⟩

theorem unparted_emit (split : rest = t ++ tail) (h : t.Unparted tail) (hs : s.Unparted tail) :
    (emit k t s).Unparted rest := by
  rw [Unparted, split, List.drop_left]
  exact ⟨h, hs⟩

theorem unparted_spaces (munch : rest.Munch isSpace t tail) (hs : s.Unparted tail) :
    (skip t s).Unparted rest :=
  unparted_skip munch.split
    ((endsPlain_of_forall fun b hb => ne_hash_of_isSpace (munch.inside b hb)).unparted tail) hs

theorem unparted_char (ahead : rest = a :: tail) (ha : a ≠ '#') (hs : s.Unparted tail) :
    (emit k [a] s).Unparted rest :=
  unparted_emit ahead ((endsPlain_singleton ha).unparted tail) hs

/-- A token that ends in characters of a name. -/
theorem unparted_name {name : Text} (split : rest = t ++ name ++ tail) (ne : name ≠ [])
    (inside : ∀ b ∈ name, isNameChar b = true) (hs : s.Unparted tail) :
    (emit k (t ++ name) s).Unparted rest :=
  unparted_emit split
    ((endsPlain_append ne (fun b hb => ne_hash_of_isNameChar (inside b hb)) t).unparted tail) hs

theorem SpacesForm.unparted (hs : SpacesForm rest next s) (h : ∀ tail, (next tail).Unparted tail) :
    s.Unparted rest := by
  cases hs with
  | spaces munch => exact unparted_spaces munch (h _)

theorem SigilForm.unparted (hs : SigilForm k a rest next s) (h : ∀ tail, (next tail).Unparted tail) :
    s.Unparted (a :: rest) := by
  cases hs with
  | nameless => trivial
  | named munch ne =>
    exact unparted_name (t := [a]) (congrArg (a :: ·) munch.split) ne munch.inside (h _)

theorem QuotedForm.unparted {q : Char} (hs : QuotedForm q rest next s) (hq : isQuote q = true)
    (h : ∀ tail, (next tail).Unparted tail) : s.Unparted (q :: rest) := by
  have hquote := endsPlain_singleton (ne_hash_of_isQuote hq)
  cases hs with
  | unclosed => trivial
  | @closed body tail split _ =>
    refine unparted_skip (t := [q]) rfl (hquote.unparted _) (unparted_emit split ?_ ?_)
    · rintro hbrace
      obtain rfl : q = '{' := Option.some.inj hbrace
      cases hq
    · exact unparted_skip (t := [q]) rfl (hquote.unparted _) (h tail)

theorem isNameChar_of_isDigit {b : Char} (h : b.isDigit = true) : isNameChar b = true := by
  simp [isNameChar, Char.isAlphanum, h]

theorem isNameChar_of_isAlpha {b : Char} (h : b.isAlpha = true) : isNameChar b = true := by
  simp [isNameChar, Char.isAlphanum, h]

theorem UnitForm.unparted (hs : UnitForm rest next s) (h : ∀ tail, (next tail).Unparted tail) :
    s.Unparted rest := by
  cases hs with
  | percent ahead => exact unparted_char ahead (by decide) (h _)
  | none => exact h _
  | known munch ne =>
    exact unparted_name (t := []) munch.split ne
      (fun b hb => isNameChar_of_isAlpha (munch.inside b hb)) (h _)
  | unknown => trivial

theorem NumberForm.unparted (hs : NumberForm rest next s) (h : ∀ tail, (next tail).Unparted tail) :
    s.Unparted rest := by
  cases hs with
  | malformed => trivial
  | @float sgn digits t fraction behind s whole munch ne _ unit =>
    rw [List.append_cons]
    refine unparted_name ?_ ne (fun b hb => isNameChar_of_isDigit (munch.inside b hb))
      (unit.unparted h)
    rw [whole.split, munch.split]
    simp
  | integer whole ne _ unit =>
    refine unparted_name ?_ ne (fun b hb => isNameChar_of_isDigit (whole.munch.inside b hb))
      (unit.unparted h)
    rw [whole.split, List.append_assoc]

theorem HexColorForm.unparted (hs : HexColorForm rest next s)
    (h : ∀ tail, (next tail).Unparted tail) : s.Unparted ('#' :: rest) := by
  cases hs with
  | @color digits _ munch size =>
    refine unparted_name (t := ['#']) (congrArg ('#' :: ·) munch.split) ?_ munch.inside (h _)
    rintro rfl
    simp at size
  | malformed => trivial

theorem ConstantForm.unparted {inCall : Bool} (hs : ConstantForm inCall rest next s)
    (h : ∀ tail, (next tail).Unparted tail) : s.Unparted rest := by
  cases hs with
  | none => trivial
  | word word => exact unparted_emit word.split word.whole (h _)

theorem unparted_openInterpolation (ahead : rest = '#' :: '{' :: t) :
    openInterpolation.Unparted rest :=
  unparted_emit (k := .interpolationStart) (t := ['#', '{']) ahead
    ((endsPlain_char (a := '{') (by decide) ['#']).unparted _) trivial

theorem ComponentForm.unparted {after : State} (hs : ComponentForm v after rest s) :
    s.Unparted rest := by
  cases hs with
  | atEnd => trivial
  | reference ahead form => exact ahead ▸ form.unparted fun _ => trivial
  | interpolation ahead => exact unparted_openInterpolation ahead
  | hexColor ahead _ form => exact ahead ▸ form.unparted fun _ => trivial
  | quoted ahead quote form => exact ahead ▸ form.unparted quote fun _ => trivial
  | comma ahead => exact unparted_char ahead (by decide) trivial
  | call ahead => exact unparted_char (k := .parenStart) ahead (by decide) trivial
  | stray => trivial
  | number _ form => exact form.unparted fun _ => trivial
  | constant _ _ _ _ form => exact form.unparted fun _ => trivial

theorem ValueForm.unparted (hs : ValueForm v rest s) : s.Unparted rest := by
  cases hs with
  | semicolon ahead => exact unparted_char ahead (by decide) trivial
  | endOfCall ahead => exact unparted_char ahead (by decide) trivial
  | component _ _ _ _ form => exact form.unparted
  | endOfText => trivial
  | endInCall => trivial
  | braceInCall => trivial
  | missing => trivial
  | lenient => trivial

theorem CloseForm.unparted (hs : CloseForm v s) (ahead : rest = '}' :: t) : s.Unparted rest := by
  cases hs <;> exact unparted_char ahead (by decide) trivial

theorem InterpolationForm.unparted (hs : InterpolationForm v s) : s.Unparted v.rest := by
  cases hs with
  | unclosedSkipped => trivial
  | skipped _ split _ close =>
    refine unparted_skip split ?_ (close.unparted rfl)
    intro hbrace
    cases hbrace
  | unclosed _ munch => exact unparted_spaces munch trivial
  | close _ munch close => exact unparted_spaces munch (close.unparted rfl)
  | component _ munch _ form => exact unparted_spaces munch form.unparted

theorem SimpleForm.unparted (hs : SimpleForm a rest s) : s.Unparted (a :: rest) := by
  have hname {u name tail : Text} (munch : u.Munch isNameChar name tail) (ha : a ≠ '#') (k : Kind) :
      (emit k (a :: name) <| noteSimple k <| .goto .selector).Unparted (a :: u) :=
    unparted_emit (congrArg (a :: ·) munch.split)
      ((endsPlain_name ha munch.inside []).unparted tail) trivial
  cases hs with
  | group start => exact unparted_char (k := .attrStart) rfl (by rw [start]; decide) trivial
  | pseudo start form =>
    subst start
    have split {colons t name tail : Text} (found : Colons rest colons t)
        (munch : t.Munch isNameChar name tail) : ':' :: rest = colons ++ name ++ tail := by
      rw [found.split, munch.split, List.append_assoc]
    cases form with
    | nameless => trivial
    | bare found munch ne =>
      refine unparted_name (split found munch) ne munch.inside trivial
    | arguments found munch ne =>
      refine unparted_name (split found munch) ne munch.inside ?_
      exact unparted_skip (t := ['(']) rfl ((endsPlain_singleton (by decide)).unparted _) trivial
  | sigil _ form => exact form.unparted fun _ => trivial
  | universal start => exact unparted_char rfl (by rw [start]; decide) trivial
  | parent start munch => exact hname munch (by rw [start]; decide) _
  | tag start munch =>
    exact hname munch (ne_hash_of_isNameChar (isNameChar_of_isNameStart start)) _

theorem CompoundForm.unparted (hs : CompoundForm v a rest s) : s.Unparted (a :: rest) := by
  cases hs with
  | interpolation ahead => exact unparted_openInterpolation ahead
  | continued _ start _ munch =>
    exact unparted_emit (congrArg (a :: ·) munch.split)
      ((endsPlain_name (ne_hash_of_isNameChar start) munch.inside []).unparted _) trivial
  | simple _ _ _ form => exact form.unparted
  | glued _ _ _ form =>
    exact unparted_emit (t := []) rfl ((endsPlain_of_forall (by simp)).unparted _) form.unparted
  | stray => trivial

theorem SelectorForm.unparted (hs : SelectorForm v s) : s.Unparted v.rest := by
  cases hs with
  | atEnd => trivial
  | combinator munch known behind =>
    refine unparted_spaces munch (unparted_char rfl ?_ (unparted_spaces behind trivial))
    rintro rfl
    cases known
  | block munch =>
    exact unparted_spaces munch (unparted_char (k := .braceStart) rfl (by decide) trivial)
  | comma munch => exact unparted_spaces munch (unparted_char rfl (by decide) trivial)
  | descendant munch =>
    exact unparted_emit munch.split
      ((endsPlain_of_forall fun b hb => ne_hash_of_isSpace (munch.inside b hb)).unparted _) trivial
  | compound munch _ _ _ _ form => exact unparted_spaces munch form.unparted

theorem AttributeEndForm.unparted (hs : AttributeEndForm v rest s) : s.Unparted rest := by
  cases hs with
  | closed ahead => exact unparted_char ahead (by decide) trivial
  | unclosed => trivial

theorem AttributeValueForm.unparted (hs : AttributeValueForm v rest s) : s.Unparted rest := by
  have hend (t : Text) : (attributeEnd v t).Unparted t := (attributeEnd_form v t).unparted
  cases hs with
  | quoted ahead quote form =>
    exact ahead ▸ form.unparted quote fun tail => skipSpaces_form.unparted hend
  | bare munch _ behind =>
    refine unparted_emit munch.split ?_ (unparted_spaces behind (hend _))
    -- A brace would be one more character of the value.
    intro hbrace
    cases munch.stop '{' hbrace
  | missing => trivial

theorem AttributeForm.unparted (hs : AttributeForm v s) : s.Unparted v.rest := by
  cases hs with
  | nameless munch => exact unparted_spaces munch trivial
  | named munch run ne behind form =>
    refine unparted_spaces munch (unparted_name (t := []) run.split ne run.inside
      (unparted_spaces behind ?_))
    cases form with
    | none _ form => exact form.unparted
    | operator known split behind form =>
      obtain ⟨u, rfl⟩ := exists_of_mem_attributeOperators known
      exact unparted_emit split ((endsPlain_char (by decide) u).unparted _)
        (unparted_spaces behind form.unparted)

theorem ArgumentsForm.unparted (hs : ArgumentsForm v s) : s.Unparted v.rest := by
  have hclose (t : Text) : (closeArguments v).Unparted (')' :: t) :=
    unparted_skip (t := [')']) rfl ((endsPlain_singleton (by decide)).unparted t) trivial
  cases hs with
  | unclosed => trivial
  | empty ahead => exact ahead ▸ hclose _
  | arguments _ split =>
    refine unparted_emit split ?_ (hclose _)
    intro hbrace
    cases hbrace

theorem ColonForm.unparted (hs : ColonForm rest s) : s.Unparted rest := by
  cases hs with
  | colon munch => exact unparted_spaces munch (unparted_char rfl (by decide) trivial)
  | missing munch => exact unparted_spaces munch trivial

theorem StatementForm.unparted (hs : StatementForm v rest s) : s.Unparted rest := by
  cases hs with
  | block ahead => exact unparted_char (k := .braceStart) ahead (by decide) trivial
  | close ahead => exact unparted_char ahead (by decide) trivial
  | quoted ahead quote form => exact ahead ▸ form.unparted quote fun _ => trivial
  | number _ _ form => exact form.unparted fun _ => trivial
  | finished => trivial
  | unclosed => trivial
  | atRule => trivial
  | assignment => trivial
  | unbalanced => trivial
  | property => trivial
  | selector => trivial
  | stray => trivial

theorem unparted_ofState (st : State) (v : View) : (ofState st v).Unparted v.rest := by
  have hs := ofState_form st v
  generalize ofState st v = s at hs
  cases hs with
  | statement munch form => exact unparted_spaces munch form.unparted
  | atRule form =>
    cases form with
    | atEnd => trivial
    | known ahead munch known =>
      refine unparted_name (t := [_]) (ahead.trans (congrArg (_ :: ·) munch.split)) ?_ munch.inside
        trivial
      rintro rfl
      cases known
    | unknown => trivial
  | assignment form =>
    cases form with
    | atEnd => trivial
    | named ahead form => exact ahead ▸ form.unparted fun tail => (colon_form tail).unparted
  | property form =>
    cases form with
    | atEnd => trivial
    | @named a t name tail s ahead start munch form =>
      have ha : a ≠ '#' := by
        rcases start with rfl | start
        · decide
        · exact ne_hash_of_isNameChar (isNameChar_of_isNameStart start)
      exact unparted_emit (ahead.trans (congrArg (a :: ·) munch.split))
        ((endsPlain_name ha munch.inside []).unparted tail) form.unparted
    | stray => trivial
  | selector form => exact form.unparted
  | group form => exact form.unparted
  | pseudoArguments form => exact form.unparted
  | value munch form => exact unparted_spaces munch form.unparted
  | interpolation form => exact form.unparted
  | done => trivial

end Script

end StyleLex

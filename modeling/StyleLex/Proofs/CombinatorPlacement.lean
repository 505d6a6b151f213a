import StyleLex.Proofs.TrailRuns

/-!
# The places of combinators without a sign

Glue and the spaces between two compounds are combinators of their own. What stands next to them, and
next to a part of a compound, can be told from the tokens and the text between them.
-/
namespace StyleLex

/-- The text `gap` stands between the tokens `t` and `u`. -/
def Between (source : Text) (t u : Token) (gap : Text) : Prop :=
  ∃ before behind, source = before ++ gap ++ behind ∧ before.byteSize = t.stop ∧
    (before ++ gap).byteSize = u.offset

/-- The tokens `front` end with `e`, the end of a part of a compound, and `t` stands right behind it. -/
structure PartBehind (source : Text) (front : List Token) (e t : Token) : Prop where
  last : front.getLast? = some e
  ends : e.kind.endsPart = true
  /-- Only parentheses that belong to the part may be between. -/
  tight : ∃ gap, Between source e t gap ∧ e.kind.Closes gap

variable {c : Config} {source before tail gap : Text} {front behind : List Token} {e t u : Token}
  {tr : Trail}

theorem Between.offset_eq (h : Between source t u []) : u.offset = t.stop := by
  obtain ⟨before, behind, -, hstop, hoffset⟩ := h
  rw [List.append_nil, hstop] at hoffset
  exact hoffset.symm

theorem Trail.Traces.between (h : tr.Traces front before) (hsource : source = before ++ tail)
    (hoffset : u.offset = before.byteSize) (hlast : front.getLast? = some t) :
    Between source t u tr.gap := by
  obtain ⟨-, head, rfl, hstop⟩ := h
  exact ⟨head, tail, hsource, hstop t hlast, hoffset.symm⟩

/-- A token that joins stands right behind a part. -/
theorem exists_partBehind (h : (Machine.start c source).run.tokens = front ++ t :: behind)
    (joins : t.kind.joins = true) : ∃ e, PartBehind source front e t := by
  obtain ⟨tr, before, tail, hsource, htraces, hoffset, hallows, -⟩ := exists_trail c h
  obtain ⟨k, hlast, hends, hcloses⟩ := hallows.joint joins
  rw [htraces.last?] at hlast
  obtain ⟨e, he, rfl⟩ := Option.map_eq_some_iff.1 hlast
  exact ⟨e, he, hends, tr.gap, htraces.between hsource hoffset he, hcloses⟩

/-- The token behind `t` is allowed behind a trail that ends with `t`. -/
theorem exists_trail_behind (h : (Machine.start c source).run.tokens = front ++ t :: behind)
    (next : behind.head? = some u) : ∃ tr : Trail, tr.Allows u.kind u.text ∧
      tr.last? = some t.kind ∧ tr.kinds.tail.head? = front.getLast?.map Token.kind ∧
      Between source t u tr.gap := by
  obtain ⟨behind, rfl⟩ := List.head?_eq_some_iff.1 next
  rw [List.append_cons] at h
  obtain ⟨tr, before, tail, hsource, htraces, hoffset, hallows, -⟩ := exists_trail c h
  have hlast : (front ++ [t]).getLast? = some t := List.getLast?_concat
  refine ⟨tr, hallows, ?_, ?_, htraces.between hsource hoffset hlast⟩
  · rw [htraces.last?, hlast]
    rfl
  · rw [htraces.kinds, List.map_append, List.reverse_append, ← List.getLast?_map,
      ← List.head?_reverse]
    rfl

theorem stop_of_andCombinator (h : (Machine.start c source).run.tokens = front ++ t :: behind)
    (hk : t.kind = .andCombinator) : t.stop = t.offset := by
  obtain ⟨-, -, -, -, -, -, -, hempty, -⟩ := exists_trail c h
  have hstop : t.stop = t.offset + t.text.byteSize := rfl
  rw [hstop, hempty hk]
  rfl

namespace Kind

variable {k : Kind}

/-- Next to the spaces of a combinator stands no other combinator, no comma and no brace. -/
theorem not_sign (h : k.endsPart = true ∨ k.beginsPart = true ∨ k = .interpolationStart) :
    k.isCombinator = false ∧ k ≠ .comma ∧ k ≠ .braceStart ∧ k ≠ .braceEnd := by
  cases k <;> first | exact ⟨rfl, by decide, by decide, by decide⟩ | rcases h with h | h | h <;> cases h

end Kind

/-- Where glue, parts of compounds, and spaces that are a combinator may stand among the tokens of a run:
glue only between two parts that are written together, and not between two bracket groups; two parts
without glue only if they are bracket groups or a name goes on behind an interpolation; and spaces only
between a part and another one or an interpolation. -/
theorem combinator_placement (c : Config)
    (h : (Machine.start c source).run.tokens = front ++ t :: behind) :
    (t.kind = .andCombinator → ∃ e, PartBehind source front e t ∧
      ∀ u, behind.head? = some u → u.kind.beginsPart = true ∧ u.offset = t.offset ∧
        ¬(e.kind = .attrEnd ∧ u.kind = .attrStart)) ∧
    (t.kind.endsPart = true → ∀ u, behind.head? = some u → u.kind.beginsPart = true →
      u.offset = t.stop ∧ (t.kind = .attrEnd ∧ u.kind = .attrStart ∨
        t.kind = .interpolationEnd ∧ u.text ≠ [] ∧ ∀ a ∈ u.text, isNameChar a = true)) ∧
    (t.kind = .descendantCombinator → t.text ≠ [] ∧ (∀ a ∈ t.text, isSpace a = true) ∧
      (∃ e, PartBehind source front e t) ∧
      (∀ u, behind.head? = some u →
        u.offset = t.stop ∧ (u.kind.beginsPart = true ∨ u.kind = .interpolationStart)) ∧
      ∀ n, front.getLast? = some n ∨ behind.head? = some n →
        n.kind.isCombinator = false ∧ n.kind ≠ .comma ∧ n.kind ≠ .braceStart ∧ n.kind ≠ .braceEnd) := by
  refine ⟨fun hk => ?_, fun ends u hu begins => ?_, fun hk => ?_⟩
  · obtain ⟨e, he⟩ := exists_partBehind h (by rw [hk]; rfl)
    refine ⟨e, he, fun u hu => ?_⟩
    obtain ⟨tr, hallows, hlast, hbefore, hbetween⟩ := exists_trail_behind h hu
    obtain ⟨hgap, begins, hgroups⟩ := hallows.glued (by rw [hlast, hk])
    rw [hgap] at hbetween
    rw [hbefore, he.last] at hgroups
    refine ⟨begins, hbetween.offset_eq.trans (stop_of_andCombinator h hk), ?_⟩
    rintro ⟨hend, hstart⟩
    exact hgroups ⟨congrArg some hend, hstart⟩
  · obtain ⟨tr, hallows, hlast, -, hbetween⟩ := exists_trail_behind h hu
    obtain ⟨hgap, hbare⟩ := hallows.bare t.kind hlast ends begins
    rw [hgap] at hbetween
    exact ⟨hbetween.offset_eq, hbare⟩
  · obtain ⟨tr, -, -, -, -, -, hallows, -⟩ := exists_trail c h
    obtain ⟨hne, hspaces⟩ := hallows.spaces hk
    obtain ⟨e, he⟩ := exists_partBehind h (by rw [hk]; rfl)
    have hnext (u : Token) (hu : behind.head? = some u) :
        u.offset = t.stop ∧ (u.kind.beginsPart = true ∨ u.kind = .interpolationStart) := by
      obtain ⟨tr, hallows, hlast, -, hbetween⟩ := exists_trail_behind h hu
      obtain ⟨hgap, hparted⟩ := hallows.parted (by rw [hlast, hk])
      rw [hgap] at hbetween
      exact ⟨hbetween.offset_eq, hparted⟩
    refine ⟨hne, hspaces, ⟨e, he⟩, hnext, fun n hn => Kind.not_sign ?_⟩
    rcases hn with hn | hn
    · obtain rfl : e = n := Option.some.inj (he.last.symm.trans hn)
      exact .inl he.ends
    · exact .inr (hnext n hn).2

/-- Glue stands behind the tag, and the space is the combinator behind the class. -/
theorem combinator_placement_two_compounds :
    let a := Token.make .tagSelector ['a'] 0 1
    let glue := Token.make .andCombinator [] 1 1
    let b := Token.make .classSelector ['.', 'b'] 1 1
    let space := Token.make .descendantCombinator [' '] 3 1
    (∃ e, PartBehind "a.b c{}".toList [a] e glue) ∧ ∃ e, PartBehind "a.b c{}".toList [a, glue, b] e space := by
  intro a glue b space
  have hrun : (Machine.start .standard "a.b c{}".toList).run.tokens = [a, glue, b, space,
      .make .tagSelector ['c'] 4 1, .make .braceStart ['{'] 5 1, .make .braceEnd ['}'] 6 1] := by
    decide +kernel
  obtain ⟨e, he, -⟩ := (combinator_placement .standard (show _ = [a] ++ glue :: _ from hrun)).1 rfl
  obtain ⟨-, -, hspace, -⟩ :=
    (combinator_placement .standard (show _ = [a, glue, b] ++ space :: _ from hrun)).2.2 rfl
  exact ⟨⟨e, he⟩, hspace⟩

end StyleLex

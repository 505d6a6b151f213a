import StyleLex.Proofs.CountedSteps
import StyleLex.Proofs.ExactScans

/-!
# Places in 32 bits

The size of a source that a cursor takes fits in 32 bits, and so does every offset in it. A line fits
too, unless it is the one behind a source that is as large as can be and has nothing but line feeds.
-/
namespace StyleLex

variable {source t : Text} {offset line : Nat}

namespace Text

/-- The sources that a cursor is made for. -/
def Supported (source : Text) : Prop := source.byteSize < UInt32.size

theorem length_le_byteSize (t : Text) : t.length ≤ t.byteSize := by
  induction t with
  | nil => exact Nat.le_refl 0
  | cons a t ih =>
    have hpos := a.utf8Size_pos
    rw [List.length_cons, byteSize_cons]
    omega

/-- Only in a text of line feeds there are as many lines as bytes. -/
theorem eq_replicate_of_newlines_eq (h : t.newlines = t.byteSize) :
    t = List.replicate t.byteSize '\n' := by
  have hle : t.newlines ≤ t.length := List.count_le_length
  have hlength : t.length = t.byteSize := Nat.le_antisymm t.length_le_byteSize (h ▸ hle)
  have hcount : t.count '\n' = t.length := h.trans hlength.symm
  exact List.eq_replicate_iff.2 ⟨hlength, fun a ha => (List.count_eq_length.1 hcount a ha).symm⟩

end Text

namespace Place

theorem offset_lt (hp : Place source offset line) (hs : source.Supported) : offset < UInt32.size :=
  Nat.lt_of_le_of_lt hp.le hs

theorem line_lt_or (hp : Place source offset line) (hs : source.Supported) :
    line < UInt32.size ∨
      offset = source.byteSize ∧ source = List.replicate (UInt32.size - 1) '\n' := by
  rcases Nat.lt_or_ge line UInt32.size with hlt | hge
  · exact .inl hlt
  · -- There are at least as many line feeds in front of the place as bytes in the source.
    have hcount : Bytes.newlines (source.utf8.take offset) ≤ offset :=
      List.count_le_length.trans (List.length_take_le _ _)
    have hline := hp.line
    have hle := hp.le
    have hsize : source.byteSize < UInt32.size := hs
    have hoffset : offset = source.byteSize := by omega
    have hnewlines : source.newlines = source.byteSize := by
      have htake : source.utf8.take offset = source.utf8 :=
        List.take_of_length_le (by rw [Text.length_utf8, hoffset])
      rw [htake, Text.newlines_utf8] at hcount hline
      omega
    have hlast : source.byteSize = UInt32.size - 1 := by omega
    exact .inr ⟨hoffset, hlast ▸ Text.eq_replicate_of_newlines_eq hnewlines⟩

end Place

/-- The places fit in 32 bits. -/
structure CursorPlaces.Fit (p : CursorPlaces) : Prop where
  start : p.start < UInt32.size
  startLine : p.startLine < UInt32.size
  pos : p.pos < UInt32.size
  line : p.line < UInt32.size

theorem Cursor.Sound.fit {c : Cursor} (h : c.Sound source) (hs : source.Supported)
    (hne : source ≠ List.replicate (UInt32.size - 1) '\n') : c.places.Fit where
  start := h.start.offset_lt hs
  startLine := (h.start.line_lt_or hs).resolve_right fun hbehind => hne hbehind.2
  pos := h.pos.offset_lt hs
  line := (h.pos.line_lt_or hs).resolve_right fun hbehind => hne hbehind.2

theorem Cursor.fit_of_mem_trace {os : List Operation} {r : Answer × Cursor} (hs : source.Supported)
    (hne : source ≠ List.replicate (UInt32.size - 1) '\n')
    (hr : r ∈ Operation.trace os (.new (ofText source))) : r.2.places.Fit :=
  (matchesBoth_start source).sound_of_mem hr |>.fit hs hne

theorem Machine.fit_steps (c : Config) (n : Nat) (hs : source.Supported)
    (hne : source ≠ List.replicate (UInt32.size - 1) '\n') :
    ((start c source).steps n).machine.cursor.places.Fit := by
  obtain ⟨before, h⟩ := exists_stands_steps c source n
  exact h.sound.fit hs hne

/-- The place of a token fits, and so does the offset behind it. -/
theorem Machine.fit_of_mem_tokens {c : Config} {u : Token} (hs : source.Supported)
    (hne : source ≠ List.replicate (UInt32.size - 1) '\n') (hu : u ∈ (start c source).run.tokens) :
    u.offset < UInt32.size ∧ u.line < UInt32.size ∧ u.stop < UInt32.size := by
  obtain ⟨htokens, tail, hsplit, -⟩ :=
    run_layout (coherent_start c source) (stands_start c source) nofun
  rw [htokens] at hu
  obtain ⟨-, front, behind, htexts, hoffset, hline⟩ := Piece.exists_of_mem_tokens hu
  rw [List.nil_append] at hsplit hoffset hline
  have hsource : source = front ++ (u.text ++ (behind ++ tail)) := by
    rw [hsplit, htexts, List.append_assoc, List.append_assoc]
  have hplace : Place source u.offset u.line := by
    rw [hsource, hoffset, hline]
    exact place_behind front _
  have hstop : u.stop ≤ source.byteSize := by
    rw [hsource, Lexeme.stop, hoffset]
    simp only [Text.byteSize_append]
    omega
  exact ⟨hplace.offset_lt hs, (hplace.line_lt_or hs).resolve_right fun hbehind => hne hbehind.2,
    Nat.lt_of_le_of_lt hstop hs⟩

namespace ByteCursor

/-- Behind line feeds the cursor is on a line of its own for each of them. -/
theorem after?_lineFeeds (n : Nat) : ∃ s,
    after? [.eatWhile (· == '\n')] (.new (.ofText (List.replicate n '\n'))) = some s ∧
      s.current.line = 1 + n := by
  obtain ⟨s, hrun, hmatches⟩ :=
    (Cursor.matchesBoth_start (List.replicate n '\n')).run (.eatWhile (· == '\n'))
  refine ⟨s, by rw [after?, hrun]; rfl, ?_⟩
  have htake : (List.replicate n '\n').takeWhile (· == '\n') = List.replicate n '\n' :=
    List.takeWhile_eq_self_iff.2 fun a ha => beq_iff_eq.2 (List.eq_of_mem_replicate ha)
  have hcount : Text.newlines (List.replicate n '\n') = n := List.count_replicate_self
  rw [hmatches.current.line]
  change 1 + Text.newlines ((List.replicate n '\n').takeWhile (· == '\n')) = 1 + n
  rw [htake, hcount]

/-- Whatever is done with a cursor over bytes, its places fit, but for one source only. -/
theorem fit_after?_iff (hs : source.Supported) :
    (∀ os s, after? os (.new (.ofText source)) = some s → s.current.places.Fit) ↔
      source ≠ List.replicate (UInt32.size - 1) '\n' := by
  constructor
  · rintro hfit rfl
    obtain ⟨s, hafter, hline⟩ := after?_lineFeeds (UInt32.size - 1)
    have hlt : s.current.line < UInt32.size := (hfit _ s hafter).line
    have hpos : 0 < UInt32.size := by decide
    omega
  · intro hne os s hafter
    obtain ⟨r, s', hafter', hmatches⟩ := (Cursor.matchesBoth_start source).after os
    obtain rfl := Option.some.inj (hafter'.symm.trans hafter)
    rw [hmatches.current.places]
    exact hmatches.current.sound.fit hs hne

end ByteCursor

end StyleLex

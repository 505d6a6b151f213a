import StyleLex.ByteCursor
import StyleLex.Proofs.LongestRuns

/-!
# Text as UTF-8

A character begins with a byte that no character goes on with. So boundaries can be told from the
bytes, and a text is found among bytes only where it stands in the text.
-/
namespace StyleLex

variable {s t u d : Text} {a : Char} {i : Nat} {b c : Bytes}

namespace Text

@[simp] theorem utf8_nil : utf8 [] = [] := rfl

@[simp] theorem utf8_cons (a : Char) (t : Text) : utf8 (a :: t) = String.utf8EncodeChar a ++ utf8 t :=
  rfl

@[simp] theorem utf8_append (t u : Text) : utf8 (t ++ u) = utf8 t ++ utf8 u := List.flatMap_append

@[simp] theorem length_utf8 (t : Text) : t.utf8.length = t.byteSize := by
  induction t with
  | nil => rfl
  | cons a t ih => rw [utf8_cons, List.length_append, String.length_utf8EncodeChar, ih, byteSize_cons]

@[simp] theorem utf8_eq_nil : t.utf8 = [] ↔ t = [] := by
  rw [← List.length_eq_zero_iff, length_utf8, byteSize_eq_zero]

end Text

/-- A byte that begins a character, and bytes that begin none. -/
theorem utf8EncodeChar_eq (a : Char) : ∃ first more, String.utf8EncodeChar a = first :: more ∧
    first.IsUTF8FirstByte ∧ ∀ b ∈ more, ¬ b.IsUTF8FirstByte := by
  have hfirst (i : Nat) (hi : i < (String.utf8EncodeChar a).length) :
      (String.utf8EncodeChar a)[i].IsUTF8FirstByte ↔ i = 0 :=
    UInt8.isUTF8FirstByte_getElem_utf8EncodeChar
  cases h : String.utf8EncodeChar a with
  | nil => exact absurd h String.utf8EncodeChar_ne_nil
  | cons first more =>
    simp only [h] at hfirst
    refine ⟨first, more, rfl, (hfirst 0 (by simp)).2 rfl, fun b hb hbyte => ?_⟩
    obtain ⟨i, hi, rfl⟩ := List.getElem_of_mem hb
    have hzero := (hfirst (i + 1) (by simpa using hi)).1 hbyte
    omega

theorem utf8EncodeChar_of_ascii (h : a.toNat < 128) : String.utf8EncodeChar a = [a.toUInt8] := by
  have hval : a.val.toNat ≤ 127 := Nat.le_of_lt_succ h
  rw [String.utf8EncodeChar.eq_1, if_pos hval]
  rfl

theorem le_ofNat {n : Nat} (h : 128 ≤ n) (h' : n < 256) : 128 ≤ UInt8.ofNat n := by
  rw [UInt8.le_iff_toNat_le, UInt8.toNat_ofNat', Nat.mod_eq_of_lt h']
  exact h

/-- No byte of any other character is that of an ASCII one. -/
theorem le_of_mem_utf8EncodeChar {byte : UInt8} (h : 128 ≤ a.toNat)
    (hb : byte ∈ String.utf8EncodeChar a) : 128 ≤ byte := by
  have hmore (n : Nat) : 128 ≤ UInt8.ofNat (n % 64 + 128) := le_ofNat (by omega) (by omega)
  have hval : ¬ a.val.toNat ≤ 127 := Nat.not_le.2 h
  rw [String.utf8EncodeChar.eq_1, if_neg hval] at hb
  split at hb
  case isTrue =>
    simp only [List.mem_cons, List.not_mem_nil, or_false] at hb
    rcases hb with rfl | rfl
    · exact le_ofNat (by omega) (by omega)
    · exact hmore _
  case isFalse =>
  split at hb
  case isTrue =>
    simp only [List.mem_cons, List.not_mem_nil, or_false] at hb
    rcases hb with rfl | rfl | rfl
    · exact le_ofNat (by omega) (by omega)
    · exact hmore _
    · exact hmore _
  case isFalse =>
    simp only [List.mem_cons, List.not_mem_nil, or_false] at hb
    rcases hb with rfl | rfl | rfl | rfl
    · exact le_ofNat (by omega) (by omega)
    · exact hmore _
    · exact hmore _
    · exact hmore _

theorem toUInt8_inj {c : Char} (ha : a.toNat < 128) (hc : c.toNat < 128) :
    a.toUInt8 = c.toUInt8 ↔ a = c := by
  have hlow {e : Char} (he : e.toNat < 128) : e.toUInt8.toNat = e.toNat :=
    Nat.mod_eq_of_lt (he.trans (by decide))
  refine ⟨fun heq => ?_, congrArg _⟩
  have hnat := congrArg UInt8.toNat heq
  rw [hlow ha, hlow hc] at hnat
  exact Char.ext (UInt32.toNat_inj.1 hnat)

/-- Only an ASCII character itself has its byte. -/
theorem eq_of_toUInt8_mem {c : Char} (hc : c.toNat < 128)
    (h : c.toUInt8 ∈ String.utf8EncodeChar a) : a = c := by
  rcases Nat.lt_or_ge a.toNat 128 with ha | ha
  · rw [utf8EncodeChar_of_ascii ha, List.mem_singleton] at h
    exact ((toUInt8_inj hc ha).1 h).symm
  · have hle := UInt8.le_iff_toNat_le.1 (le_of_mem_utf8EncodeChar ha h)
    have hlow : c.toUInt8.toNat = c.toNat := Nat.mod_eq_of_lt (hc.trans (by decide))
    rw [hlow] at hle
    exact absurd hc (Nat.not_lt.2 hle)

theorem count_newline_utf8EncodeChar (a : Char) :
    (String.utf8EncodeChar a).count Bytes.newline = if a = '\n' then 1 else 0 := by
  split
  case isTrue h =>
    subst h
    rfl
  case isFalse h =>
    exact List.count_eq_zero.2 fun hmem => h (eq_of_toUInt8_mem (c := '\n') (by decide) hmem)

theorem Text.newlines_cons (a : Char) (t : Text) :
    newlines (a :: t) = (if a = '\n' then 1 else 0) + newlines t := by
  rw [newlines, List.count_cons, Nat.add_comm]
  simp only [beq_iff_eq]
  rfl

@[simp] theorem Text.newlines_utf8 (t : Text) : Bytes.newlines t.utf8 = t.newlines := by
  induction t with
  | nil => rfl
  | cons a t ih =>
    rw [Text.utf8_cons, Bytes.newlines, List.count_append, count_newline_utf8EncodeChar,
      Text.newlines_cons, ← ih]
    rfl

namespace Bytes

/-- The byte behind a text tells which ASCII character stands there, if it is one. -/
theorem exists_getElem?_utf8 (t : Text) (a : Char) (u : Text) :
    ∃ first, (t ++ a :: u).utf8[t.byteSize]? = some first ∧
      ∀ c : Char, c.toNat < 128 → (first = c.toUInt8 ↔ a = c) := by
  obtain ⟨first, more, hsplit, -, -⟩ := utf8EncodeChar_eq a
  refine ⟨first, ?_, fun c hc => ⟨?_, ?_⟩⟩
  · rw [Text.utf8_append, List.getElem?_append_right (by simp), Text.length_utf8, Nat.sub_self,
      Text.utf8_cons, hsplit]
    rfl
  · rintro rfl
    refine eq_of_toUInt8_mem hc ?_
    rw [hsplit]
    exact List.mem_cons_self
  · rintro rfl
    rw [utf8EncodeChar_of_ascii hc] at hsplit
    exact (List.head_eq_of_cons_eq hsplit).symm

theorem isBoundary_append (b c : Bytes) (i : Nat) :
    isBoundary (b ++ c) (b.length + i) = isBoundary c i := by
  rw [isBoundary, isBoundary, List.getElem?_append_right (Nat.le_add_right _ _),
    Nat.add_sub_cancel_left, List.length_append]
  simp

/-- The boundaries among the bytes are those between characters. -/
theorem isBoundary_utf8 : isBoundary s.utf8 i = true ↔ ∃ t u, s = t ++ u ∧ i = t.byteSize := by
  constructor
  · intro h
    induction s generalizing i with
    | nil =>
      rw [isBoundary, Text.utf8_nil, List.getElem?_nil, Option.any_none, Bool.or_false] at h
      exact ⟨[], [], rfl, of_decide_eq_true h⟩
    | cons a s ih =>
      rcases Nat.lt_or_ge i a.utf8Size with hlt | hge
      · cases i with
        | zero => exact ⟨[], a :: s, rfl, rfl⟩
        | succ i =>
          -- Inside of the first character no byte begins a character.
          obtain ⟨first, more, hsplit, -, hmore⟩ := utf8EncodeChar_eq a
          have hlength : more.length + 1 = a.utf8Size := by
            rw [← String.length_utf8EncodeChar, hsplit, List.length_cons]
          have hin : i < more.length := by omega
          have hnot := hmore more[i] (List.getElem_mem hin)
          rw [isBoundary, Text.length_utf8, Text.byteSize_cons, Text.utf8_cons, hsplit,
            List.cons_append, List.getElem?_cons_succ, List.getElem?_append_left hin,
            List.getElem?_eq_getElem hin] at h
          simp [hnot] at h
          omega
      · obtain ⟨j, rfl⟩ := Nat.exists_eq_add_of_le hge
        rw [Text.utf8_cons, ← String.length_utf8EncodeChar, isBoundary_append] at h
        obtain ⟨t, u, rfl, rfl⟩ := ih h
        exact ⟨a :: t, u, rfl, rfl⟩
  · rintro ⟨t, u, rfl, rfl⟩
    rw [Text.utf8_append, ← Text.length_utf8, ← Nat.add_zero t.utf8.length, isBoundary_append]
    cases u with
    | nil => rfl
    | cons a u =>
      obtain ⟨first, more, hsplit, hfirst, -⟩ := utf8EncodeChar_eq a
      simp [isBoundary, hsplit, hfirst]

theorem slice?_utf8 (t u w : Text) :
    slice? (t ++ (u ++ w)).utf8 t.byteSize (t ++ u).byteSize = some u.utf8 := by
  have hstart : isBoundary (t ++ (u ++ w)).utf8 t.byteSize = true := isBoundary_utf8.2 ⟨t, u ++ w, rfl, rfl⟩
  have hstop : isBoundary (t ++ (u ++ w)).utf8 (t ++ u).byteSize = true :=
    isBoundary_utf8.2 ⟨t ++ u, w, (List.append_assoc _ _ _).symm, rfl⟩
  rw [slice?, if_pos ⟨by simp, hstart, hstop⟩, ← List.append_assoc, Text.utf8_append (t ++ u),
    ← Text.length_utf8 (t ++ u), List.take_left, Text.utf8_append t, ← Text.length_utf8 t,
    List.drop_left]

theorem first?_utf8 (t : Text) : first? t.utf8 = some t.head? := by
  cases t with
  | nil => rfl
  | cons a t =>
    have hdecode : (Text.utf8 (a :: t)).toByteArray.utf8DecodeChar? 0 = some a := by
      rw [Text.utf8_cons, List.toByteArray_append]
      exact ByteArray.utf8DecodeChar?_utf8EncodeChar_append
    cases h : Text.utf8 (a :: t) with
    | nil => simp at h
    | cons first more =>
      rw [h] at hdecode
      rw [first?, hdecode]
      rfl

theorem second?_utf8 (t : Text) : second? t.utf8 = some t[1]? := by
  rw [second?, first?_utf8]
  cases t with
  | nil => rfl
  | cons a t =>
    have hdrop : (Text.utf8 (a :: t)).drop a.utf8Size = Text.utf8 t := by
      rw [Text.utf8_cons, ← String.length_utf8EncodeChar, List.drop_left]
    simp only [List.head?_cons, Option.bind_some, hdrop, first?_utf8]
    rw [List.getElem?_cons_succ, List.head?_eq_getElem?]

/-- Texts that begin with different characters have different bytes. -/
theorem utf8_cons_inj {e : Char} (h : (Text.utf8 (a :: t)) <+: Text.utf8 (e :: u)) :
    a = e ∧ Text.utf8 t <+: Text.utf8 u := by
  obtain ⟨r, hr⟩ := h
  have hdecode := congrArg (fun b => b.toByteArray.utf8DecodeChar? 0) hr
  simp only [Text.utf8_cons, List.append_assoc, List.toByteArray_append,
    ByteArray.utf8DecodeChar?_utf8EncodeChar_append] at hdecode
  obtain rfl := Option.some.inj hdecode
  rw [Text.utf8_cons, Text.utf8_cons, List.append_assoc] at hr
  exact ⟨rfl, r, List.append_cancel_left hr⟩

theorem prefix_of_utf8 (h : Text.utf8 d <+: Text.utf8 t) : d <+: t := by
  induction d generalizing t with
  | nil => exact List.nil_prefix
  | cons a d ih =>
    cases t with
    | nil => simp at h
    | cons e t =>
      obtain ⟨rfl, hbehind⟩ := utf8_cons_inj h
      exact List.cons_prefix_cons.2 ⟨rfl, ih hbehind⟩

theorem isPrefixOf_utf8 (d t : Text) : d.utf8.isPrefixOf t.utf8 = d.isPrefixOf t := by
  rw [Bool.eq_iff_iff, List.isPrefixOf_iff_prefix, List.isPrefixOf_iff_prefix]
  refine ⟨prefix_of_utf8, ?_⟩
  rintro ⟨r, rfl⟩
  rw [Text.utf8_append]
  exact List.prefix_append _ _

/-- No occurrence of a text begins with a byte that begins no character. -/
theorem find?_append_of_more (hne : d ≠ []) (hb : ∀ a ∈ b, ¬ a.IsUTF8FirstByte) (c : Bytes) :
    find? d.utf8 (b ++ c) = (find? d.utf8 c).map (· + b.length) := by
  induction b with
  | nil => simp
  | cons a b ih =>
    obtain ⟨e, d, rfl⟩ := List.exists_cons_of_ne_nil hne
    obtain ⟨first, more, hsplit, hfirst, -⟩ := utf8EncodeChar_eq e
    have hne' : ¬ (Text.utf8 (e :: d)).isPrefixOf (a :: (b ++ c)) = true := by
      rw [List.isPrefixOf_iff_prefix, Text.utf8_cons, hsplit, List.cons_append, List.cons_prefix_cons]
      rintro ⟨rfl, -⟩
      exact hb first List.mem_cons_self hfirst
    rw [List.cons_append, find?, if_neg hne', ih fun x hx => hb x (List.mem_cons_of_mem _ hx),
      Option.map_map]
    rfl

/-- A text is found among bytes where it is found among characters. -/
theorem find?_utf8 (d t : Text) : find? d.utf8 t.utf8 = (t.upTo? d).map Text.byteSize := by
  induction t with
  | nil =>
    by_cases hd : d = [] <;> simp [find?, Text.upTo?, hd]
  | cons a t ih =>
    obtain ⟨first, more, hsplit, -, hmore⟩ := utf8EncodeChar_eq a
    have hutf8 : Text.utf8 (a :: t) = first :: (more ++ Text.utf8 t) := by
      rw [Text.utf8_cons, hsplit, List.cons_append]
    have hsize : more.length + 1 = a.utf8Size := by
      rw [← String.length_utf8EncodeChar, hsplit, List.length_cons]
    rw [hutf8, find?, ← hutf8, isPrefixOf_utf8, Text.upTo?]
    by_cases hahead : d.isPrefixOf (a :: t)
    · simp [hahead]
    · have hne : d ≠ [] := by
        rintro rfl
        exact hahead rfl
      rw [if_neg hahead, if_neg hahead, find?_append_of_more hne hmore, ih, Option.map_map,
        Option.map_map, Option.map_map]
      congr 1
      funext u
      simp only [Function.comp, Text.byteSize_cons]
      omega

end Bytes

end StyleLex

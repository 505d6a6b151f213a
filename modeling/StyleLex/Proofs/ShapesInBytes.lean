import Mathlib.Data.List.Forall2
import StyleLex.ByteRuleShape
import StyleLex.Proofs.DeclarationShapes
import StyleLex.Proofs.Utf8Text

/-!
# The shape of a rule among bytes

The search looks for ASCII characters only, and no byte of another character is one of theirs. So it
comes to the same shape among the bytes of a text as among its characters, and no slice that it takes is
out of range. What the bytes of the other characters are makes no difference.
-/
namespace StyleLex.Bytes

variable {p t : Text} {a q : Char} {b d : Bytes} {i k : Nat}

theorem utf8Size_of_ascii (h : a.toNat < 128) : a.utf8Size = 1 := by
  rw [← String.length_utf8EncodeChar, utf8EncodeChar_of_ascii h, List.length_singleton]

theorem drop?_utf8 (p t : Text) : (p ++ t).utf8.drop? p.byteSize = some t.utf8 := by
  rw [drop?, if_pos (by simp), Text.utf8_append, ← Text.length_utf8 p, List.drop_left]

theorem find?_singleton (h : q.toNat < 128) (t : Text) :
    find? [q.toUInt8] t.utf8 = (t.upTo? [q]).map Text.byteSize := by
  rw [← find?_utf8, Text.utf8_cons, utf8EncodeChar_of_ascii h]
  rfl

theorem getElem?_utf8_eq_iff (h : q.toNat < 128) (p t : Text) :
    (p ++ t).utf8[p.byteSize]? = some q.toUInt8 ↔ t.head? = some q := by
  cases t with
  | nil => simp
  | cons a t =>
    obtain ⟨first, hat, hascii⟩ := exists_getElem?_utf8 p a t
    rw [hat, Option.some.injEq, List.head?_cons, Option.some.injEq]
    exact hascii q h

/-- Bytes of which none belongs to an ASCII character are passed over one by one. -/
theorem shapeFrom?_more (more : Bytes) (h : ∀ a ∈ more, 128 ≤ a) (b c : Bytes) :
    (b ++ (more ++ c)).shapeFrom? b.length =
      (b ++ (more ++ c)).shapeFrom? (b.length + more.length) := by
  induction more generalizing b with
  | nil => rfl
  | cons a more ih =>
    have hbyte : (b ++ (a :: more ++ c))[b.length]? = some a := by simp
    have hne {e : UInt8} (he : e < 128) : a ≠ e := by
      rintro rfl
      exact absurd (h a List.mem_cons_self) (UInt8.not_le.2 he)
    have hrest := ih (fun e he => h e (List.mem_cons_of_mem a he)) (b ++ [a])
    rw [List.append_assoc, List.length_append, List.length_singleton, Nat.add_assoc,
      Nat.add_comm 1] at hrest
    rw [shapeFrom?_eq, hbyte]
    simp only [hne (e := '{'.toUInt8) (by decide), hne (e := ';'.toUInt8) (by decide),
      hne (e := '}'.toUInt8) (by decide), hne (e := '#'.toUInt8) (by decide),
      hne (e := '"'.toUInt8) (by decide), hne (e := '\''.toUInt8) (by decide), if_false, false_and,
      or_self]
    exact hrest

/-- Behind the first `q` the search goes on; if there is none it is over. -/
theorem shapeFrom?_behind (hq : q.toNat < 128) (hb : b = (p ++ t).utf8) (hp : p.byteSize = i + k)
    (goesOn : ∀ p', (p' ++ RuleShape.behind q t).utf8.shapeFrom? p'.byteSize =
      some (.ofText (RuleShape.behind q t))) :
    ((b.drop? (i + k)).bind fun behind =>
      match find? [q.toUInt8] behind with
      | none => some .declaration
      | some close => b.shapeFrom? (i + close + (k + 1))) =
        some (.ofText (RuleShape.behind q t)) := by
  subst hb
  rw [← hp, drop?_utf8, Option.bind_some, find?_singleton hq]
  cases hfound : t.upTo? [q] with
  | none =>
    rw [RuleShape.behind_of_not_mem (Text.not_mem_of_upTo?_eq_none hfound), RuleShape.ofText]
    rfl
  | some body =>
    obtain ⟨hfirst, hsplit⟩ := Text.exists_of_upTo?_eq_some hfound
    generalize t.drop (body.length + 1) = u at hsplit
    subst hsplit
    have hsize : (p ++ body ++ [q]).byteSize = i + body.byteSize + (k + 1) := by
      simp only [Text.byteSize_append, hp, Text.byteSize_cons, Text.byteSize_nil,
        utf8Size_of_ascii hq]
      omega
    have hjump := goesOn (p ++ body ++ [q])
    rw [RuleShape.behind_split hfirst, hsize] at hjump
    rw [RuleShape.behind_split hfirst]
    simpa using hjump

/-- Behind the first byte of a character the search goes on behind the character. -/
theorem shapeFrom?_succ (p : Text) (a : Char) (t : Text) :
    (p ++ a :: t).utf8.shapeFrom? (p.byteSize + 1) =
      (p ++ a :: t).utf8.shapeFrom? (p ++ [a]).byteSize := by
  have hbehind : (p ++ [a]).byteSize = p.byteSize + a.utf8Size := by simp
  rw [hbehind]
  rcases Nat.lt_or_ge a.toNat 128 with ha | ha
  · rw [utf8Size_of_ascii ha]
  · obtain ⟨first, more, hsplit, -, -⟩ := utf8EncodeChar_eq a
    have hsize : a.utf8Size = 1 + more.length := by
      rw [← String.length_utf8EncodeChar, hsplit, List.length_cons, Nat.add_comm]
    have hmore := shapeFrom?_more more
      (fun e he => le_of_mem_utf8EncodeChar ha (hsplit ▸ List.mem_cons_of_mem first he))
      (p.utf8 ++ [first]) t.utf8
    have hutf8 : p.utf8 ++ [first] ++ (more ++ t.utf8) = (p ++ a :: t).utf8 := by
      rw [Text.utf8_append, Text.utf8_cons, hsplit, List.append_assoc]
      rfl
    rw [hutf8, List.length_append, Text.length_utf8, List.length_singleton] at hmore
    rw [hmore, hsize, Nat.add_assoc]

theorem ascii_of_isQuote (h : isQuote a = true) : a.toNat < 128 := by
  simp only [isQuote, Bool.or_eq_true, decide_eq_true_eq] at h
  rcases h with rfl | rfl <;> decide

/-- What the search does at a byte, said with the character that begins there. -/
theorem shapeFrom?_cons (p : Text) (a : Char) (t : Text) :
    (p ++ a :: t).utf8.shapeFrom? p.byteSize =
      if a = '{' then some .block
      else if a = ';' ∨ a = '}' then some .declaration
      else if a = '#' ∧ t.head? = some '{' then
        ((p ++ a :: t).utf8.drop? (p.byteSize + 2)).bind fun behind =>
          match find? ['}'.toUInt8] behind with
          | none => some .declaration
          | some close => (p ++ a :: t).utf8.shapeFrom? (p.byteSize + close + 3)
      else if isQuote a then
        ((p ++ a :: t).utf8.drop? (p.byteSize + 1)).bind fun behind =>
          match find? [a.toUInt8] behind with
          | none => some .declaration
          | some close => (p ++ a :: t).utf8.shapeFrom? (p.byteSize + close + 2)
      else (p ++ a :: t).utf8.shapeFrom? (p ++ [a]).byteSize := by
  obtain ⟨first, hat, hascii⟩ := exists_getElem?_utf8 p a t
  have hash : (first = '#'.toUInt8 ∧ (p ++ a :: t).utf8[p.byteSize + 1]? = some '{'.toUInt8) ↔
      (a = '#' ∧ t.head? = some '{') := by
    rw [hascii '#' (by decide)]
    refine and_congr_right fun ha => ?_
    subst ha
    simpa [utf8Size_of_ascii] using getElem?_utf8_eq_iff (q := '{') (by decide) (p ++ ['#']) t
  have quote : (first = '"'.toUInt8 ∨ first = '\''.toUInt8) ↔ isQuote a = true := by
    rw [hascii '"' (by decide), hascii '\'' (by decide)]
    simp [isQuote]
  rw [shapeFrom?_eq, hat]
  refine if_congr (hascii _ (by decide)) rfl <|
    if_congr (or_congr (hascii _ (by decide)) (hascii _ (by decide))) rfl <| if_congr hash rfl ?_
  by_cases hq : isQuote a = true
  · obtain rfl : first = a.toUInt8 := (hascii a (ascii_of_isQuote hq)).2 rfl
    exact (if_pos (quote.2 hq)).trans (if_pos hq).symm
  · rw [if_neg (mt quote.1 hq), if_neg hq, shapeFrom?_succ]

/-- The search among bytes comes to the shape of the text. -/
theorem shapeFrom?_utf8 (p t : Text) :
    (p ++ t).utf8.shapeFrom? p.byteSize = some (.ofText t) := by
  fun_induction RuleShape.ofText t generalizing p with
  | case1 => rw [shapeFrom?_eq, List.append_nil, List.getElem?_eq_none (by simp)]
  | case2 t => rw [shapeFrom?_cons, if_pos rfl]
  | case3 a t hopen hend => rw [shapeFrom?_cons, if_neg hopen, if_pos hend]
  | case4 a t hopen hend hash ih =>
    rw [shapeFrom?_cons, if_neg hopen, if_neg hend, if_pos hash]
    obtain ⟨rfl, hbrace⟩ := hash
    obtain ⟨t, rfl⟩ := List.head?_eq_some_iff.1 hbrace
    rw [RuleShape.behind_cons (by decide)] at ih ⊢
    exact shapeFrom?_behind (p := p ++ ['#', '{']) (by decide) (by simp) (by simp; rfl) ih
  | case5 a t hopen hend hash quote ih =>
    rw [shapeFrom?_cons, if_neg hopen, if_neg hend, if_neg hash, if_pos quote]
    exact shapeFrom?_behind (p := p ++ [a]) (ascii_of_isQuote quote) (by simp)
      (by simp [utf8Size_of_ascii (ascii_of_isQuote quote)]) ih
  | case6 a t hopen hend hash quote ih =>
    rw [shapeFrom?_cons, if_neg hopen, if_neg hend, if_neg hash, if_neg quote]
    simpa using ih (p ++ [a])

/-- Two bytes are the same, or neither is that of an ASCII character. -/
def Alike (x y : UInt8) : Prop := x = y ∨ 128 ≤ x ∧ 128 ≤ y

theorem Alike.eq_iff {x y e : UInt8} (h : Alike x y) (he : e < 128) : y = e ↔ x = e := by
  rcases h with rfl | ⟨hx, hy⟩
  · rfl
  · have hne {z : UInt8} (hz : 128 ≤ z) : z ≠ e := by
      rintro rfl
      exact absurd he (UInt8.not_lt.2 hz)
    exact iff_of_false (hne hy) (hne hx)

section Alike

variable (h : List.Forall₂ Alike b d)

include h

theorem getElem?_alike {e : UInt8} (he : e < 128) (i : Nat) : d[i]? = some e ↔ b[i]? = some e := by
  induction h generalizing i with
  | nil => rfl
  | cons hxy _ ih =>
    cases i with
    | zero => simpa using hxy.eq_iff he
    | succ i => simpa using ih i

theorem find?_alike {e : UInt8} (he : e < 128) : find? [e] d = find? [e] b := by
  induction h with
  | nil => rfl
  | cons hxy _ ih =>
    have heq := hxy.eq_iff he
    simp only [find?, List.isPrefixOf, ih, Bool.and_true, beq_iff_eq, eq_comm (a := e), heq]

/-- Both searches find the same byte to jump behind. -/
theorem jump_alike {e : UInt8} (he : e < 128) (i : Nat) {f : Nat → Nat}
    (goesOn : ∀ close, d.shapeFrom? (f close) = b.shapeFrom? (f close)) :
    ((d.drop? i).bind fun behind =>
      match find? [e] behind with
      | none => some .declaration
      | some close => d.shapeFrom? (f close)) =
        (b.drop? i).bind fun behind =>
          match find? [e] behind with
          | none => some .declaration
          | some close => b.shapeFrom? (f close) := by
  simp only [goesOn]
  rw [drop?, drop?, h.length_eq]
  split
  case isTrue => rw [Option.bind_some, Option.bind_some, find?_alike (List.forall₂_drop i h) he]
  case isFalse => rfl

/-- The search does not look at what the bytes of other than ASCII characters are. -/
theorem shapeFrom?_alike (i : Nat) : d.shapeFrom? i = b.shapeFrom? i := by
  induction hn : b.length - i using Nat.strongRecOn generalizing i with
  | _ n ih =>
  subst hn
  rw [shapeFrom?_eq d, shapeFrom?_eq b]
  rcases Nat.lt_or_ge i b.length with hi | hi
  · have hi' : i < d.length := h.length_eq ▸ hi
    have further (j : Nat) (hj : i < j) : d.shapeFrom? j = b.shapeFrom? j := ih _ (by omega) j rfl
    have halike : Alike b[i] d[i] := h.get hi hi'
    have heq {e : UInt8} (he : e < 128) : d[i] = e ↔ b[i] = e := halike.eq_iff he
    rw [List.getElem?_eq_getElem hi, List.getElem?_eq_getElem hi']
    refine if_congr (heq (by decide)) rfl <|
      if_congr (or_congr (heq (by decide)) (heq (by decide))) rfl <|
        if_congr (and_congr (heq (by decide)) (getElem?_alike h (by decide) _))
          (jump_alike h (by decide) _ fun close => further _ (by omega)) ?_
    by_cases hq : b[i] = '"'.toUInt8 ∨ b[i] = '\''.toUInt8
    · have hlow : b[i] < 128 := by rcases hq with hq | hq <;> rw [hq] <;> decide
      have hsame : d[i] = b[i] := (heq hlow).2 rfl
      rw [hsame, if_pos hq, if_pos hq]
      exact jump_alike h hlow _ fun close => further _ (by omega)
    · rw [if_neg hq, if_neg (mt (or_congr (heq (by decide)) (heq (by decide))).1 hq)]
      exact further _ (Nat.lt_succ_self i)
  · rw [List.getElem?_eq_none hi, List.getElem?_eq_none (h.length_eq ▸ hi)]

end Alike

end StyleLex.Bytes

/-!
# Text as a list of characters

Sizes are counted in UTF-8 bytes, and only a line feed starts a new line.
-/
namespace StyleLex

abbrev Text := List Char

namespace Text

def byteSize : Text → Nat
  | [] => 0
  | c :: t => c.utf8Size + byteSize t

def newlines (t : Text) : Nat := t.count '\n'

/-- The text in front of the first occurrence of `d`. The empty text occurs at once. -/
def upTo? (t d : Text) : Option Text :=
  match t with
  | [] => if d = [] then some [] else none
  | c :: r => if d.isPrefixOf (c :: r) then some [] else (upTo? r d).map (c :: ·)

@[simp] theorem byteSize_nil : byteSize [] = 0 := rfl

@[simp] theorem byteSize_cons (c : Char) (t : Text) :
    byteSize (c :: t) = c.utf8Size + byteSize t := rfl

@[simp] theorem byteSize_append (s t : Text) : byteSize (s ++ t) = byteSize s + byteSize t := by
  induction s with
  | nil => simp
  | cons c s ih => simp [ih, Nat.add_assoc]

@[simp] theorem byteSize_reverse (t : Text) : byteSize t.reverse = byteSize t := by
  induction t with
  | nil => rfl
  | cons c t ih => simp [ih, Nat.add_comm]

@[simp] theorem byteSize_eq_zero {t : Text} : byteSize t = 0 ↔ t = [] := by
  cases t with
  | nil => simp
  | cons c t => have := c.utf8Size_pos; simp; omega

@[simp] theorem newlines_nil : newlines [] = 0 := rfl

@[simp] theorem newlines_append (s t : Text) : newlines (s ++ t) = newlines s + newlines t := by
  simp [newlines]

@[simp] theorem newlines_reverse (t : Text) : newlines t.reverse = newlines t := by
  simp [newlines]

theorem length_sub_takeWhile (p : Char → Bool) (t : Text) :
    t.length - (t.takeWhile p).length = (t.dropWhile p).length := by
  have h := congrArg List.length (List.takeWhile_append_dropWhile (p := p) (l := t))
  rw [List.length_append] at h
  omega

theorem length_dropWhile_le (p : Char → Bool) (t : Text) :
    (t.dropWhile p).length ≤ t.length := by
  rw [← length_sub_takeWhile]
  omega

/-- What is found stands in front of an occurrence of `d`. -/
theorem upTo?_eq_append {d t s : Text} (h : t.upTo? d = some s) : ∃ r, t = s ++ d ++ r := by
  induction t generalizing s with
  | nil =>
    by_cases hd : d = [] <;> simp_all [upTo?]
  | cons c t ih =>
    by_cases hp : d.isPrefixOf (c :: t)
    · obtain ⟨r, hr⟩ := List.isPrefixOf_iff_prefix.1 hp
      simp only [upTo?, hp, if_true, Option.some.injEq] at h
      exact ⟨r, by simp [← h, hr]⟩
    · rw [upTo?, if_neg hp, Option.map_eq_some_iff] at h
      obtain ⟨u, hu, rfl⟩ := h
      obtain ⟨r, hr⟩ := ih hu
      exact ⟨r, by simp [hr]⟩

/-- Of two texts that the same text begins with, the shorter one begins the other. -/
theorem append_of_byteSize_le {u v x b : Text} (h : u ++ v = x ++ b) (hle : u.byteSize ≤ x.byteSize) :
    ∃ y, x = u ++ y ∧ v = y ++ b := by
  rcases List.append_eq_append_iff.1 h with ⟨y, hx, hv⟩ | ⟨y, hu, hb⟩
  · exact ⟨y, hx, hv⟩
  · have hsize : y = [] := by
      rw [← byteSize_eq_zero]
      rw [hu, byteSize_append] at hle
      omega
    subst hsize
    exact ⟨[], by rw [hu, List.append_nil, List.append_nil], hb.symm⟩

theorem append_of_byteSize_eq {u v x b : Text} (h : u ++ v = x ++ b) (heq : u.byteSize = x.byteSize) :
    u = x := by
  obtain ⟨y, rfl, -⟩ := append_of_byteSize_le h (Nat.le_of_eq heq)
  rw [byteSize_append, Nat.left_eq_add, byteSize_eq_zero] at heq
  rw [heq, List.append_nil]

end Text

end StyleLex

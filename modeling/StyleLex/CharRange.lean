/-! # Sets of characters as ascending ranges of code points -/
namespace StyleLex

/-- A first and a last code point. -/
abbrev CharRange := Nat × Nat

namespace CharRange

/-- Looks a code point up among ranges that ascend; the search ends at the first one beyond it. -/
def covers : List CharRange → Nat → Bool
  | [], _ => false
  | r :: rs, n => r.1 ≤ n && (n ≤ r.2 || covers rs n)

/-- Each range is nonempty and leaves a gap in front of the next one. -/
def ascend : List CharRange → Bool
  | [] => true
  | [r] => r.1 ≤ r.2
  | r :: s :: rs => r.1 ≤ r.2 && r.2 + 1 < s.1 && ascend (s :: rs)

theorem covers_of_lt {r : CharRange} {n : Nat} (h : n < r.1) (rs : List CharRange) :
    covers (r :: rs) n = false := by
  have hr : ¬ r.1 ≤ n := by omega
  simp [covers, hr]

private theorem le_of_ascend {r : CharRange} {rs : List CharRange} (h : ascend (r :: rs) = true) :
    ∀ s ∈ rs, r.1 ≤ s.1 := by
  induction rs generalizing r with
  | nil => simp
  | cons s rs ih =>
    simp only [ascend, Bool.and_eq_true, decide_eq_true_eq] at h
    obtain ⟨⟨hr, hs⟩, ht⟩ := h
    intro t hm
    rcases List.mem_cons.1 hm with rfl | hm
    · omega
    · have := ih ht t hm
      omega

private theorem ascend_tail {r : CharRange} {rs : List CharRange} (h : ascend (r :: rs) = true) :
    ascend rs = true := by
  cases rs with
  | nil => rfl
  | cons s rs =>
    simp only [ascend, Bool.and_eq_true] at h
    exact h.2

/-- Among ascending ranges the early end of the search misses nothing. -/
theorem covers_iff {rs : List CharRange} (h : ascend rs = true) (n : Nat) :
    covers rs n = true ↔ ∃ r ∈ rs, r.1 ≤ n ∧ n ≤ r.2 := by
  induction rs with
  | nil => simp [covers]
  | cons r rs ih =>
    have hle := le_of_ascend h
    simp only [covers, Bool.and_eq_true, Bool.or_eq_true, decide_eq_true_eq, ih (ascend_tail h),
      List.mem_cons, exists_eq_or_imp]
    constructor
    · rintro ⟨hr, hn | hs⟩
      · exact .inl ⟨hr, hn⟩
      · exact .inr hs
    · rintro (⟨hr, hn⟩ | ⟨s, hs, hsn⟩)
      · exact ⟨hr, .inl hn⟩
      · exact ⟨Nat.le_trans (hle s hs) hsn.1, .inr ⟨s, hs, hsn⟩⟩

end CharRange

/-- A set of characters, given by ascending ranges. -/
structure CharTable where
  ranges : List CharRange
  ascend : CharRange.ascend ranges = true

namespace CharTable

def has (t : CharTable) (c : Char) : Bool := CharRange.covers t.ranges c.toNat

theorem has_iff (t : CharTable) (c : Char) :
    t.has c = true ↔ ∃ r ∈ t.ranges, r.1 ≤ c.toNat ∧ c.toNat ≤ r.2 :=
  CharRange.covers_iff t.ascend c.toNat

end CharTable

end StyleLex

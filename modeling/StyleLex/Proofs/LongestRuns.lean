import Mathlib.Data.List.Infix
import Mathlib.Data.List.TakeWhile
import StyleLex.Text

/-!
# Longest runs and first occurrences

What `takeWhile`, `dropWhile` and a search for one character find, said without the functions.
-/
namespace StyleLex.Text

/-- `run` is the longest run of characters in `p` that `t` begins with, and `tail` stands behind it. -/
structure Munch (p : Char → Bool) (t run tail : Text) : Prop where
  split : t = run ++ tail
  inside : ∀ c ∈ run, p c = true
  stop : ∀ c, tail.head? = some c → p c = false

theorem munch (p : Char → Bool) (t : Text) : Munch p t (t.takeWhile p) (t.dropWhile p) where
  split := List.takeWhile_append_dropWhile.symm
  inside := fun c hc => List.mem_takeWhile_imp hc
  stop := by
    intro c hc
    have h := List.head?_dropWhile_not p t
    rw [hc] at h
    simpa using h

/-- Nothing of the class stands ahead of a text whose longest run is empty. -/
theorem munch_nil {p : Char → Bool} {t : Text} (h : t.takeWhile p = []) : Munch p t [] t := by
  have hm := munch p t
  rw [h] at hm
  have ht : t.dropWhile p = t := hm.split.symm
  rwa [ht] at hm

/-- Only one split has a longest run in front. -/
theorem Munch.takeWhile_eq {p : Char → Bool} {t run tail : Text} (h : Munch p t run tail) :
    t.takeWhile p = run ∧ t.dropWhile p = tail := by
  obtain ⟨rfl, inside, stop⟩ := h
  rw [List.takeWhile_append_of_pos inside, List.dropWhile_append_of_pos inside]
  cases tail with
  | nil => simp
  | cons c tail =>
    have hc : p c = false := stop c rfl
    simp [hc]

/-- No other run at the start is longer. -/
theorem Munch.longest {p : Char → Bool} {t run tail w : Text} (h : Munch p t run tail)
    (ahead : w <+: t) (hw : ∀ c ∈ w, p c = true) : w <+: run := by
  obtain ⟨rfl, -, stop⟩ := h
  rcases List.prefix_or_prefix_of_prefix ahead (List.prefix_append run tail) with hle | ⟨more, rfl⟩
  · exact hle
  · rw [List.prefix_append_right_inj] at ahead
    cases more with
    | nil => simp
    | cons c more =>
      obtain ⟨behind, rfl⟩ := ahead
      have hc : p c = true := hw c (List.mem_append_right _ List.mem_cons_self)
      rw [stop c rfl] at hc
      cases hc

/-- `t` is `s` with `u` behind it, and `d` occurs in `t` at the start of `u` but at no earlier place. -/
structure First (d t s u : Text) : Prop where
  split : t = s ++ u
  here : d <+: u
  first : ∀ v, v <:+ t → d <+: v → v <:+ u

theorem First.at_start {d t : Text} (h : d <+: t) : First d t [] t := ⟨rfl, h, fun _ hv _ => hv⟩

theorem First.cons {d t s u : Text} {c : Char} (h : First d t s u) (hd : ¬ d <+: c :: t) :
    First d (c :: t) (c :: s) u := by
  refine ⟨by rw [h.split, List.cons_append], h.here, fun v hv hahead => ?_⟩
  rcases List.suffix_cons_iff.1 hv with rfl | hv
  · exact absurd hahead hd
  · exact h.first v hv hahead

theorem First.isInfix {d t s u : Text} (h : First d t s u) : d <:+: t :=
  h.here.isInfix.trans ⟨s, [], by rw [h.split, List.append_nil]⟩

/-- A search finds the first occurrence. -/
theorem exists_first {d t s : Text} (h : t.upTo? d = some s) : ∃ u, First d t s u := by
  induction t generalizing s with
  | nil =>
    by_cases hd : d = []
    · subst hd
      obtain rfl : [] = s := by simpa [upTo?] using h
      exact ⟨[], .at_start List.prefix_rfl⟩
    · simp [upTo?, hd] at h
  | cons c t ih =>
    rw [upTo?] at h
    split at h
    case isTrue hahead =>
      obtain rfl := Option.some.inj h
      exact ⟨c :: t, .at_start (List.isPrefixOf_iff_prefix.1 hahead)⟩
    case isFalse hahead =>
      obtain ⟨s, hs, rfl⟩ := Option.map_eq_some_iff.1 h
      obtain ⟨u, hu⟩ := ih hs
      exact ⟨u, hu.cons (mt List.isPrefixOf_iff_prefix.2 hahead)⟩

/-- Only a text that does not occur is not found. -/
theorem not_isInfix_of_upTo?_eq_none {d t : Text} (h : t.upTo? d = none) : ¬ d <:+: t := by
  induction t with
  | nil =>
    rw [List.infix_nil]
    rintro rfl
    simp [upTo?] at h
  | cons c t ih =>
    rw [upTo?] at h
    split at h
    case isTrue => cases h
    case isFalse hahead =>
      rw [List.infix_cons_iff, not_or]
      exact ⟨mt List.isPrefixOf_iff_prefix.2 hahead, ih (Option.map_eq_none_iff.1 h)⟩

theorem not_mem_of_upTo?_eq_none {q : Char} {t : Text} (h : t.upTo? [q] = none) : q ∉ t :=
  fun hmem => not_isInfix_of_upTo?_eq_none h ((List.singleton_infix_iff q t).2 hmem)

/-- A search for one character finds its first occurrence. -/
theorem exists_of_upTo?_eq_some {q : Char} {t body : Text} (h : t.upTo? [q] = some body) :
    q ∉ body ∧ t = body ++ q :: t.drop (body.length + 1) := by
  obtain ⟨_, rfl, ⟨tail, rfl⟩, first⟩ := exists_first h
  refine ⟨fun hmem => ?_, by simp⟩
  obtain ⟨x, y, rfl⟩ := List.append_of_mem hmem
  have hle := (first (q :: (y ++ ([q] ++ tail))) ⟨x, by simp⟩ ⟨_, rfl⟩).length_le
  simp at hle
  omega

end StyleLex.Text

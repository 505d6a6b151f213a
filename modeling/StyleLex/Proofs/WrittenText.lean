import StyleLex.CharClass
import StyleLex.Proofs.LongestRuns

/-!
# Text of one class

Names, spaces and digits are texts whose characters are all of one class, and a string is free of its
own quote. The texts carry the proofs of it, so what is printed from them needs no further check.
-/
namespace StyleLex

/-- A text whose characters are all in `p`. -/
structure Chars (p : Char → Bool) where
  text : Text
  inside : ∀ a ∈ text, p a = true

/-- One that is not empty. -/
structure SomeChars (p : Char → Bool) extends Chars p where
  ne : text ≠ []

abbrev Spaces : Type := Chars isSpace

abbrev Name : Type := SomeChars isNameChar

/-- A string as it is written, between two quotes that are the same. -/
structure QuotedText where
  quote : Char
  isQuote_quote : isQuote quote = true
  body : Text
  free : quote ∉ body

namespace QuotedText

def print (q : QuotedText) : Text := q.quote :: (q.body ++ [q.quote])

end QuotedText

/-- No character of the class stands at the beginning of the text. -/
def Text.Stops (p : Char → Bool) (t : Text) : Prop := ∀ a, t.head? = some a → p a = false

theorem Text.stops_cons {p : Char → Bool} {a : Char} (h : p a = false) (t : Text) :
    Text.Stops p (a :: t) := by
  intro b hb
  rwa [← Option.some.inj hb]

/-- Classes are apart both ways. -/
theorem apart_symm {p q : Char → Bool} (h : ∀ a, p a = true → q a = false) (a : Char)
    (ha : q a = true) : p a = false := by
  by_contra hp
  rw [h a (by simpa using hp)] at ha
  cases ha

namespace Chars

variable {p q : Char → Bool} {tail : Text}

def nil (p : Char → Bool) : Chars p where
  text := []
  inside := List.forall_mem_nil _

def append (x y : Chars p) : Chars p where
  text := x.text ++ y.text
  inside := List.forall_mem_append.2 ⟨x.inside, y.inside⟩

theorem munch (x : Chars p) (h : tail.Stops p) : (x.text ++ tail).Munch p x.text tail :=
  ⟨rfl, x.inside, h⟩

/-- Characters of another class may stand in front. -/
theorem stops (x : Chars q) (other : ∀ a, q a = true → p a = false) (h : tail.Stops p) :
    Text.Stops p (x.text ++ tail) := by
  intro a ha
  cases htext : x.text with
  | nil =>
    rw [htext] at ha
    exact h a ha
  | cons b t =>
    rw [htext] at ha
    obtain rfl : b = a := Option.some.inj ha
    apply other
    apply x.inside
    simp [htext]

end Chars

theorem SomeChars.exists_cons {p : Char → Bool} (x : SomeChars p) :
    ∃ a t, x.text = a :: t ∧ p a = true := by
  obtain ⟨a, t, h⟩ := List.exists_cons_of_ne_nil x.ne
  refine ⟨a, t, h, x.inside a ?_⟩
  rw [h]
  exact List.mem_cons_self

/-- What stands behind is of no matter if there is a character of another class. -/
theorem SomeChars.stops {p q : Char → Bool} (x : SomeChars q) (other : ∀ a, q a = true → p a = false)
    (t : Text) : Text.Stops p (x.text ++ t) := by
  obtain ⟨a, u, htext, ha⟩ := x.exists_cons
  rw [htext]
  exact Text.stops_cons (other a ha) _

end StyleLex

import StyleLex.Proofs.DiscardedText

/-!
# Nothing but spaces and delimiters is lost

Every byte of a text that lexes is held by a token or is dropped for a reason that the tokens show.
-/
namespace StyleLex

namespace Text

/-- The character that the byte at `p` belongs to. -/
def charAt? : Text → Nat → Option Char
  | [], _ => none
  | a :: t, p => if p < a.utf8Size then some a else charAt? t (p - a.utf8Size)

theorem charAt?_append_right (s t : Text) (p : Nat) :
    charAt? (s ++ t) (byteSize s + p) = charAt? t p := by
  induction s with
  | nil => simp
  | cons a s ih =>
    have hge : ¬(a.utf8Size + byteSize s + p < a.utf8Size) := by omega
    have hsub : a.utf8Size + byteSize s + p - a.utf8Size = byteSize s + p := by omega
    rw [List.cons_append, byteSize_cons, charAt?, if_neg hge, hsub, ih]

theorem exists_charAt?_append {s : Text} {p : Nat} (h : p < byteSize s) (t : Text) :
    ∃ a ∈ s, charAt? (s ++ t) p = some a := by
  induction s generalizing p with
  | nil => simp at h
  | cons a s ih =>
    by_cases ha : p < a.utf8Size
    · exact ⟨a, List.mem_cons_self, by simp [charAt?, ha]⟩
    · rw [byteSize_cons] at h
      obtain ⟨b, hb, hat⟩ := ih (p := p - a.utf8Size) (by omega)
      exact ⟨b, List.mem_cons_of_mem _ hb, by simp [charAt?, ha, hat]⟩

theorem charAt?_of_split {source s t : Text} {a : Char} (h : source = s ++ a :: t) :
    source.charAt? (byteSize s) = some a := by
  have hat := charAt?_append_right s (a :: t) 0
  rwa [Nat.add_zero, charAt?, if_pos a.utf8Size_pos, ← h] at hat

end Text

/-- The byte at `p` is part of a token. -/
def Covered (ts : List Token) (p : Nat) : Prop := ∃ t ∈ ts, t.offset ≤ p ∧ p < t.stop

instance (ts : List Token) (p : Nat) : Decidable (Covered ts p) :=
  inferInstanceAs (Decidable (∃ t ∈ ts, t.offset ≤ p ∧ p < t.stop))

/-- Why no token of `ts` needs to hold the byte at `p`. -/
inductive Discarded (c : Config) (source : Text) (ts : List Token) (p : Nat) : Prop where
  | space {a : Char} (found : source.charAt? p = some a) (space : isSpace a = true)
  | openQuote {q : Char} {t : Token} (mem : t ∈ ts) (kind : t.kind = .quotedString)
      (quote : isQuote q = true) (place : p + 1 = t.offset) (found : source.charAt? p = some q)
      (closed : source.charAt? t.stop = some q)
  | closeQuote {q : Char} {t : Token} {p' : Nat} (mem : t ∈ ts) (kind : t.kind = .quotedString)
      (quote : isQuote q = true) (place : p = t.stop) (found : source.charAt? p = some q)
      (before : p' + 1 = t.offset) (opened : source.charAt? p' = some q)
  | openParen {t : Token} (mem : t ∈ ts) (kind : t.kind = .pseudoSelector) (place : p = t.stop)
      (found : source.charAt? p = some '(')
  /-- The parenthesis behind the arguments of a pseudo selector. -/
  | closeParen {t u : Token} {front behind : List Token} (split : ts = front ++ t :: u :: behind)
      (selector : t.kind = .pseudoSelector) (code : u.kind = .langCode)
      (opened : source.charAt? t.stop = some '(') (tight : u.offset = t.stop + 1)
      (place : p = u.stop) (found : source.charAt? p = some ')')
  /-- The parenthesis of a pseudo selector without arguments. -/
  | emptyParens {t : Token} {front behind : List Token} (split : ts = front ++ t :: behind)
      (selector : t.kind = .pseudoSelector) (none : ∀ u, behind.head? = some u → u.kind ≠ .langCode)
      (opened : source.charAt? t.stop = some '(') (place : p = t.stop + 1)
      (found : source.charAt? p = some ')')
  /-- The text of an interpolation that is passed over. -/
  | passedOver {t u : Token} {front behind : List Token} (skipped : c.interpolation = .skipped)
      (split : ts = front ++ t :: u :: behind) (opens : t.kind = .interpolationStart)
      (closes : u.kind = .interpolationEnd) (lower : t.stop ≤ p) (upper : p < u.offset)

theorem Explained.head_ne {c : Config} {ps : List Piece} (h : Explained c ps) (before : Text) {u : Token}
    (hu : (Piece.tokens before ps).head? = some u) : u.kind ≠ .langCode := by
  induction h generalizing before with
  | nil => simp [Piece.tokens] at hu
  | space _ _ ih => exact ih _ hu
  | token bare =>
    obtain rfl := Option.some.inj hu
    rintro rfl
    cases bare
  | quoted =>
    obtain rfl := Option.some.inj hu
    exact Kind.noConfusion
  | arguments =>
    obtain rfl := Option.some.inj hu
    exact Kind.noConfusion
  | noArguments =>
    obtain rfl := Option.some.inj hu
    exact Kind.noConfusion
  | passedOver =>
    obtain rfl := Option.some.inj hu
    exact Kind.noConfusion

theorem utf8Size_of_isQuote {q : Char} (h : isQuote q = true) : q.utf8Size = 1 := by
  have hq : q = '"' ∨ q = '\'' := by simpa [isQuote] using h
  rcases hq with rfl | rfl <;> rfl

/-- The byte at `p` is part of a token, or there is a reason for it not to be. -/
def Accounted (c : Config) (source : Text) (ts : List Token) (p : Nat) : Prop :=
  Covered ts p ∨ Discarded c source ts p

section

variable {c : Config} {source before rest t u body : Text} {ts front behind : List Token}
  {p line line' : Nat} {k : Kind} {q : Char}

/-- A token that starts where `before` stops, stops where its text does. -/
private theorem stop_make (k : Kind) (t before : Text) (line : Nat) :
    (Token.make k t before.byteSize line).stop = (before ++ t).byteSize :=
  (Text.byteSize_append before t).symm

/-- A delimiter of one byte leaves one place for a byte in it. -/
private theorem eq_of_delimiter (hq : q.utf8Size = 1) (lower : ¬p < Text.byteSize before)
    (upper : p < (before ++ [q]).byteSize) : p = before.byteSize := by
  simp [hq] at upper
  omega

private theorem accounted_space (inside : ∀ a ∈ t, isSpace a = true)
    (hsource : source = before ++ t ++ rest) (lower : before.byteSize ≤ p)
    (upper : p < (before ++ t).byteSize) : Accounted c source ts p := by
  obtain ⟨d, rfl⟩ := Nat.exists_eq_add_of_le lower
  rw [Text.byteSize_append] at upper
  obtain ⟨a, ha, hat⟩ := Text.exists_charAt?_append (s := t) (p := d) (by omega) rest
  rw [← Text.charAt?_append_right before, ← List.append_assoc, ← hsource] at hat
  exact .inr (.space hat (inside a ha))

private theorem accounted_token (hts : ts = front ++ .make k t before.byteSize line :: behind)
    (lower : ¬p < before.byteSize) (upper : p < (before ++ t).byteSize) : Accounted c source ts p := by
  rw [Text.byteSize_append] at upper
  exact .inl ⟨.make k t before.byteSize line, by simp [hts], Nat.le_of_not_lt lower, upper⟩

private theorem accounted_quoted (quote : isQuote q = true)
    (hsource : source = before ++ [q] ++ t ++ [q] ++ rest)
    (hts : ts = front ++ .make .quotedString t (before ++ [q]).byteSize line :: behind)
    (lower : ¬p < before.byteSize) (upper : p < (before ++ [q] ++ t ++ [q]).byteSize) :
    Accounted c source ts p := by
  have hq := utf8Size_of_isQuote quote
  have hopen : source.charAt? before.byteSize = some q :=
    Text.charAt?_of_split (t := t ++ q :: rest) (by simp [hsource])
  have hclose : source.charAt? (before ++ [q] ++ t).byteSize = some q :=
    Text.charAt?_of_split (t := rest) (by simp [hsource])
  have hmem : .make .quotedString t (before ++ [q]).byteSize line ∈ ts := by simp [hts]
  have hoffset : before.byteSize + 1 = (before ++ [q]).byteSize := by simp [hq]
  have hstop := stop_make .quotedString t (before ++ [q]) line
  by_cases hp : p < (before ++ [q]).byteSize
  · obtain rfl := eq_of_delimiter hq lower hp
    exact .inr (.openQuote hmem rfl quote hoffset hopen (hstop.symm ▸ hclose))
  by_cases hp' : p < (before ++ [q] ++ t).byteSize
  · exact accounted_token hts hp hp'
  · obtain rfl := eq_of_delimiter hq hp' upper
    exact .inr (.closeQuote hmem rfl quote hstop.symm hclose hoffset hopen)

private theorem accounted_arguments
    (hsource : source = before ++ t ++ ['('] ++ u ++ [')'] ++ rest)
    (hts : ts = front ++ .make .pseudoSelector t before.byteSize line ::
      .make .langCode u (before ++ t ++ ['(']).byteSize line' :: behind)
    (lower : ¬p < before.byteSize) (upper : p < (before ++ t ++ ['('] ++ u ++ [')']).byteSize) :
    Accounted c source ts p := by
  have hopen : source.charAt? (before ++ t).byteSize = some '(' :=
    Text.charAt?_of_split (t := u ++ ')' :: rest) (by simp [hsource])
  have hclose : source.charAt? (before ++ t ++ ['('] ++ u).byteSize = some ')' :=
    Text.charAt?_of_split (t := rest) (by simp [hsource])
  have hstop := stop_make .pseudoSelector t before line
  have hstop' := stop_make .langCode u (before ++ t ++ ['(']) line'
  by_cases hp : p < (before ++ t).byteSize
  · exact accounted_token hts lower hp
  by_cases hp' : p < (before ++ t ++ ['(']).byteSize
  · obtain rfl := eq_of_delimiter rfl hp hp'
    exact .inr (.openParen (hts ▸ List.mem_append_right _ List.mem_cons_self) rfl hstop.symm hopen)
  by_cases hp'' : p < (before ++ t ++ ['('] ++ u).byteSize
  · exact accounted_token (hts.trans (List.append_cons _ _ _)) hp' hp''
  · obtain rfl := eq_of_delimiter rfl hp'' upper
    refine .inr (.closeParen hts rfl rfl (hstop.symm ▸ hopen) ?_ hstop'.symm hclose)
    exact (Text.byteSize_append _ _).trans (by rw [hstop]; rfl)

private theorem accounted_noArguments (hsource : source = before ++ t ++ ['('] ++ [')'] ++ rest)
    (hts : ts = front ++ .make .pseudoSelector t before.byteSize line :: behind)
    (none : ∀ u, behind.head? = some u → u.kind ≠ .langCode) (lower : ¬p < before.byteSize)
    (upper : p < (before ++ t ++ ['('] ++ [')']).byteSize) : Accounted c source ts p := by
  have hopen : source.charAt? (before ++ t).byteSize = some '(' :=
    Text.charAt?_of_split (t := ')' :: rest) (by simp [hsource])
  have hclose : source.charAt? (before ++ t ++ ['(']).byteSize = some ')' :=
    Text.charAt?_of_split (t := rest) (by simp [hsource])
  have hstop := stop_make .pseudoSelector t before line
  by_cases hp : p < (before ++ t).byteSize
  · exact accounted_token hts lower hp
  by_cases hp' : p < (before ++ t ++ ['(']).byteSize
  · obtain rfl := eq_of_delimiter rfl hp hp'
    exact .inr (.openParen (hts ▸ List.mem_append_right _ List.mem_cons_self) rfl hstop.symm hopen)
  · obtain rfl := eq_of_delimiter rfl hp' upper
    refine .inr (.emptyParens hts rfl none (hstop.symm ▸ hopen) ?_ hclose)
    exact (Text.byteSize_append _ _).trans (by rw [hstop]; rfl)

private theorem accounted_passedOver (skipped : c.interpolation = .skipped)
    (hts : ts = front ++ .make .interpolationStart t before.byteSize line ::
      .make .interpolationEnd u (before ++ t ++ body).byteSize line' :: behind)
    (lower : ¬p < before.byteSize) (upper : p < (before ++ t ++ body ++ u).byteSize) :
    Accounted c source ts p := by
  have hstop := stop_make .interpolationStart t before line
  by_cases hp : p < (before ++ t).byteSize
  · exact accounted_token hts lower hp
  by_cases hp' : p < (before ++ t ++ body).byteSize
  · exact .inr (.passedOver skipped hts rfl rfl (hstop.symm ▸ Nat.le_of_not_lt hp) hp')
  · exact accounted_token (hts.trans (List.append_cons _ _ _)) hp' upper

end

theorem Explained.accounted {c : Config} {source before : Text} {ts front : List Token}
    {ps : List Piece} {p : Nat} (h : Explained c ps) (hsource : source = before ++ Piece.texts ps)
    (hts : ts = front ++ Piece.tokens before ps) (lower : ¬p < before.byteSize)
    (upper : p < source.byteSize) : Accounted c source ts p := by
  induction h generalizing before front with
  | nil =>
    rw [hsource, Piece.texts_nil, List.append_nil] at upper
    exact absurd upper lower
  | @space t ps inside _ ih =>
    have hsplit : source = before ++ t ++ Piece.texts ps := by simp [hsource, Piece.text]
    by_cases hp : p < (before ++ t).byteSize
    · exact accounted_space inside hsplit (Nat.le_of_not_lt lower) hp
    · exact ih hsplit hts hp
  | @token k t ps _ _ ih =>
    have hsplit : source = before ++ t ++ Piece.texts ps := by simp [hsource, Piece.text]
    by_cases hp : p < (before ++ t).byteSize
    · exact accounted_token hts lower hp
    · exact ih hsplit (hts.trans (List.append_cons _ _ _)) hp
  | @quoted q t ps quote _ ih =>
    have hsplit : source = before ++ [q] ++ t ++ [q] ++ Piece.texts ps := by
      simp [hsource, Piece.text]
    by_cases hp : p < (before ++ [q] ++ t ++ [q]).byteSize
    · exact accounted_quoted quote hsplit hts lower hp
    · exact ih hsplit (hts.trans (List.append_cons _ _ _)) hp
  | @arguments t u ps _ ih =>
    have hsplit : source = before ++ t ++ ['('] ++ u ++ [')'] ++ Piece.texts ps := by
      simp [hsource, Piece.text]
    by_cases hp : p < (before ++ t ++ ['('] ++ u ++ [')']).byteSize
    · exact accounted_arguments hsplit hts lower hp
    · exact ih hsplit (hts.trans (List.append_assoc front [_, _] _).symm) hp
  | @noArguments t ps behind ih =>
    have hsplit : source = before ++ t ++ ['('] ++ [')'] ++ Piece.texts ps := by
      simp [hsource, Piece.text]
    by_cases hp : p < (before ++ t ++ ['('] ++ [')']).byteSize
    · exact accounted_noArguments hsplit hts (fun _ => behind.head_ne _) lower hp
    · exact ih hsplit (hts.trans (List.append_cons _ _ _)) hp
  | @passedOver t u body ps skipped _ ih =>
    have hsplit : source = before ++ t ++ body ++ u ++ Piece.texts ps := by
      simp [hsource, Piece.text]
    by_cases hp : p < (before ++ t ++ body ++ u).byteSize
    · exact accounted_passedOver skipped hts lower hp
    · exact ih hsplit (hts.trans (List.append_assoc front [_, _] _).symm) hp

/-- The tokens of a text that lexes, with spaces and delimiters that they show put back, give the text
again, and each byte that no token holds is such a space or delimiter. -/
theorem lossless_coverage (c : Config) (source : Text) (ts : List Token)
    (h : tokenize c source = .ok ts) :
    (∃ ps, Explained c ps ∧ Piece.texts ps = source ∧ Piece.tokens [] ps = ts) ∧
      ∀ p, p < source.byteSize → ¬Covered ts p → Discarded c source ts p := by
  have hm := Machine.coherent_start c source
  obtain ⟨hrun, he⟩ := run_of_tokenize h
  obtain ⟨htokens, tail, hsplit, hall⟩ := Machine.run_layout hm (Machine.stands_start c source) nofun
  have hexplained : Explained c (Machine.start c source).layout := hm.remaining_layout he
  rw [hall he, List.append_nil] at hsplit
  rw [hrun] at htokens
  constructor
  · exact ⟨_, hexplained, hsplit.symm, htokens.symm⟩
  · intro p hp huncovered
    have hts : ts = [] ++ Piece.tokens [] (Machine.start c source).layout := htokens
    exact (hexplained.accounted hsplit hts (Nat.not_lt_zero p) hp).resolve_left huncovered

/-- The arguments of a pseudo selector are handed over without their parentheses. -/
theorem lossless_coverage_arguments :
    let ts := [.make .pseudoSelector [':', 'b'] 0 1, .make .langCode ['c'] 3 1,
      .make .braceStart ['{'] 5 1, .make .braceEnd ['}'] 6 1]
    Discarded .standard ":b(c){}".toList ts 2 ∧ Discarded .standard ":b(c){}".toList ts 4 := by
  have hrun : tokenize .standard ":b(c){}".toList = .ok [.make .pseudoSelector [':', 'b'] 0 1,
      .make .langCode ['c'] 3 1, .make .braceStart ['{'] 5 1, .make .braceEnd ['}'] 6 1] := by
    decide +kernel
  obtain ⟨-, hdiscarded⟩ := lossless_coverage .standard _ _ hrun
  exact ⟨hdiscarded 2 (by decide) (by decide), hdiscarded 4 (by decide) (by decide)⟩

end StyleLex

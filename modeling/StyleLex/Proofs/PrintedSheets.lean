import StyleLex.Proofs.EmbeddedSelectors

/-!
# Sheets as they are printed

A sheet of rules, declarations, variables and at-rules that is printed from its parts is read without
an error, and its tokens are those of the parts, in every block alike.
-/
namespace StyleLex

variable {c : Config} {inRule : Bool} {outer : List Mode} {value y : Text}

/-- The at-rules. -/
inductive Keyword where
  | importRule | charsetRule | extendRule | includeRule
  deriving DecidableEq

def Keyword.name : Keyword → Text
  | .importRule => "import".toList
  | .charsetRule => "charset".toList
  | .extendRule => "extend".toList
  | .includeRule => "include".toList

def Keyword.kind : Keyword → Kind
  | .importRule => .importRule
  | .charsetRule => .charsetRule
  | .extendRule => .extendRule
  | .includeRule => .includeRule

theorem Keyword.atKeyword?_name (k : Keyword) : Script.atKeyword? k.name = some k.kind := by
  cases k <;> rfl

theorem Keyword.isNameChar_name (k : Keyword) : ∀ b ∈ k.name, isNameChar b = true := by
  cases k <;> exact List.all_eq_true.1 rfl

/-- What stands in front of a value. -/
inductive Head where
  | declaration (name : Text)
  | assignment (name : Text)
  | atRule (keyword : Keyword)
  deriving DecidableEq

namespace Head

def print : Head → Text
  | .declaration name => name ++ [':']
  | .assignment name => '$' :: (name ++ [':'])
  | .atRule keyword => '@' :: (keyword.name ++ [' '])

def spelled : Head → List (Kind × Text)
  | .declaration name => [(.propertyName, name), (.colon, [':'])]
  | .assignment name => [(.variableName, '$' :: name), (.colon, [':'])]
  | .atRule keyword => [(keyword.kind, '@' :: keyword.name)]

/-- The names are names, and declarations stand in rules only. -/
inductive Valid : Bool → Head → Prop where
  | declaration {a : Char} {name : Text} (start : a = '-' ∨ isNameStart a = true)
      (inside : ∀ b ∈ name, isNameChar b = true) : Valid true (.declaration (a :: name))
  | assignment {inRule : Bool} {name : Text} (ne : name ≠ [])
      (inside : ∀ b ∈ name, isNameChar b = true) : Valid inRule (.assignment name)
  | atRule {inRule : Bool} (keyword : Keyword) : Valid inRule (.atRule keyword)

end Head

/-- Statements with the spaces around them. -/
inductive Sheet where
  | finish (gap : Text)
  | statement (gap : Text) (head : Head) (value : Text) (next : Sheet)
  | rule (gap selector : Text) (body next : Sheet)
  deriving DecidableEq

namespace Sheet

def print : Sheet → Text
  | .finish gap => gap
  | .statement gap head value next => gap ++ (head.print ++ (value ++ ';' :: next.print))
  | .rule gap selector body next => gap ++ (selector ++ '{' :: (body.print ++ '}' :: next.print))

/-- The tokens of a sheet are put together from those of its selectors and its values. -/
def spelled (c : Config) : Sheet → List (Kind × Text)
  | .finish _ => []
  | .statement _ head value next =>
    head.spelled ++ valueSpelling c value ++ (.semicolon, [';']) :: next.spelled c
  | .rule _ selector body next =>
    selectorSpelling c selector ++ (.braceStart, ['{']) ::
      (body.spelled c ++ (.braceEnd, ['}']) :: next.spelled c)

/-- Every part of a sheet is one that can be read on its own. -/
inductive Valid (c : Config) : Bool → Sheet → Prop where
  | finish {inRule : Bool} {gap : Text} (spaces : ∀ b ∈ gap, isSpace b = true) :
      Valid c inRule (.finish gap)
  | statement {inRule : Bool} {gap value : Text} {head : Head} {next : Sheet}
      (spaces : ∀ b ∈ gap, isSpace b = true) (begins : head.Valid inRule) (ends : ValueText c value)
      (behind : Valid c inRule next) : Valid c inRule (.statement gap head value next)
  | rule {inRule : Bool} {gap selector : Text} {body next : Sheet}
      (spaces : ∀ b ∈ gap, isSpace b = true) (begins : SelectorText c selector)
      (inside : Valid c true body) (behind : Valid c inRule next) :
      Valid c inRule (.rule gap selector body next)

end Sheet

namespace Machine

variable {m : Machine} {head : Head} {sheet : Sheet}

/-- A machine gets from what stands in front of a value to the value. -/
theorem At.reads_head (hm : m.At c .statement outer (head.print ++ (value ++ ';' :: y)))
    (h : head.Valid inRule) (hv : ValueText c value) (houter : Blocks outer)
    (hrule : inRule = true → topMode outer = .block) :
    ∃ ps p blank, m.Reaches ps p ∧
      p.At c .value (.value :: outer) (blank ++ (value ++ ';' :: y)) ∧
      (∀ b ∈ blank, isSpace b = true) ∧ Piece.spelled ps = head.spelled := by
  cases h with
  | @declaration a name start inside =>
    obtain ⟨ms, rfl, -⟩ := houter.eq_cons (hrule rfl)
    have hrest : m.At c .statement (.block :: ms) (a :: (name ++ ':' :: (value ++ ';' :: y))) := by
      simpa [Head.print] using hm
    have hname : isPassed a = true := by
      rcases start with rfl | start
      · rfl
      · exact isPassed_of_isNameChar (isNameChar_of_isNameStart start)
    have hdeclared : Declared [] (a :: (name ++ ':' :: (value ++ [';']))) := by
      have hvalue : Declared [] (value ++ [';']) := ⟨hv.declares, nofun⟩
      have hcolon := hvalue.cons (a := ':') rfl
      exact (hcolon.append fun b hb => isPassed_of_isNameChar (inside b hb)).cons hname
    have hshape := hdeclared.1 y
    obtain ⟨ps, p, hreaches, hp, hspelled⟩ := hrest.reads_property start inside (by simpa using hshape)
    exact ⟨ps, p, [], hreaches, hp, nofun, hspelled⟩
  | @assignment _ name ne inside =>
    have hrest : m.At c .statement outer ('$' :: (name ++ ':' :: (value ++ ';' :: y))) := by
      simpa [Head.print] using hm
    obtain ⟨ps, p, hreaches, hp, hspelled⟩ := hrest.reads_variable ne inside
    exact ⟨ps, p, [], hreaches, hp, nofun, hspelled⟩
  | atRule keyword =>
    have hrest : m.At c .statement outer ('@' :: (keyword.name ++ ' ' :: (value ++ ';' :: y))) := by
      simpa [Head.print] using hm
    obtain ⟨ps, p, hreaches, hp, hspelled⟩ :=
      hrest.reads_keyword keyword.isNameChar_name keyword.atKeyword?_name
    exact ⟨ps, p, [' '], hreaches, hp, List.all_eq_true.1 rfl, hspelled⟩

theorem At.reads_statement (hm : m.At c .statement outer (head.print ++ (value ++ ';' :: y)))
    (h : head.Valid inRule) (hv : ValueText c value) (houter : Blocks outer)
    (hrule : inRule = true → topMode outer = .block) :
    ∃ ps p, m.Reaches ps p ∧ p.At c .statement outer y ∧
      Piece.spelled ps = head.spelled ++ valueSpelling c value ++ [(.semicolon, [';'])] := by
  obtain ⟨ps, p, blank, hreaches, hp, hblank, hspelled⟩ := hm.reads_head h hv houter hrule
  obtain ⟨qs, p', hskipped, hp', hspelled'⟩ := hv.closed.reads hp.skip houter
  obtain ⟨rs, hbehind, hrs⟩ :=
    reaches_of_skip (.inr hp.state) hp.rest hblank hskipped hspelled' (by simp)
  refine ⟨ps ++ rs, p', hreaches.trans hbehind, hp', ?_⟩
  rw [Piece.spelled_append, hspelled, hrs, List.append_assoc]

/-- A machine reads all statements of a sheet, up to the spaces behind the last one. -/
theorem At.reads_sheet (hm : m.At c .statement outer (sheet.print ++ y)) (h : sheet.Valid c inRule)
    (houter : Blocks outer) (hrule : inRule = true → topMode outer = .block) :
    ∃ ps p blank, m.Reaches ps p ∧ p.At c .statement outer (blank ++ y) ∧
      (∀ b ∈ blank, isSpace b = true) ∧ Piece.spelled ps = sheet.spelled c := by
  induction h generalizing m outer y with
  | @finish _ gap spaces => exact ⟨[], m, gap, .refl m, hm, spaces, rfl⟩
  | @statement _ gap value head next spaces begins ends _ ih =>
    have hrest : m.At c .statement outer
        (gap ++ (head.print ++ (value ++ ';' :: (next.print ++ y)))) := by
      simpa [Sheet.print] using hm
    obtain ⟨ps, p, hskipped, hp, hspelled⟩ := hrest.skip.reads_statement begins ends houter hrule
    obtain ⟨qs, hreaches, hqs⟩ :=
      reaches_of_skip (.inl hm.state) hrest.rest spaces hskipped hspelled (by simp)
    obtain ⟨rs, p', blank, hbehind, hp', hblank, hrs⟩ := ih hp houter hrule
    refine ⟨qs ++ rs, p', blank, hreaches.trans hbehind, hp', hblank, ?_⟩
    rw [Piece.spelled_append, hqs, hrs, Sheet.spelled, List.append_assoc]
    rfl
  | @rule _ gap selector body next spaces begins _ _ ihBody ihNext =>
    have hrest : m.At c .statement outer
        (gap ++ (selector ++ '{' :: (body.print ++ '}' :: (next.print ++ y)))) := by
      simpa [Sheet.print] using hm
    obtain ⟨ps, p, hskipped, hp, hspelled⟩ := begins.reads hrest.skip houter
    obtain ⟨qs, hreaches, hqs⟩ :=
      reaches_of_skip (.inl hm.state) hrest.rest spaces hskipped hspelled (by simp)
    obtain ⟨rs, p₁, blank₁, hinside, hp₁, hblank₁, hrs⟩ := ihBody hp (.cons houter) fun _ => rfl
    obtain ⟨ts, p₂, hskipped₁, hp₂, hts⟩ := hp₁.skip.closes_block houter
    obtain ⟨us, hclosed, hus⟩ :=
      reaches_of_skip (.inl hp₁.state) hp₁.rest hblank₁ hskipped₁ hts (by simp)
    obtain ⟨ws, p₃, blank₃, hbehind, hp₃, hblank₃, hws⟩ := ihNext hp₂ houter hrule
    refine ⟨qs ++ (rs ++ (us ++ ws)), p₃, blank₃,
      hreaches.trans (hinside.trans (hclosed.trans hbehind)), hp₃, hblank₃, ?_⟩
    simp only [Piece.spelled_append, hqs, hrs, hus, hws, Sheet.spelled, List.append_assoc]
    rfl

end Machine

/-- A sheet that is printed from its parts is read without an error, and its tokens are those of its
parts. -/
theorem tokenize_print (c : Config) (sheet : Sheet) (h : sheet.Valid c false) :
    ∃ ts, tokenize c sheet.print = .ok ts ∧
      ts.map (fun t => (t.kind, t.text)) = sheet.spelled c := by
  have hm := Machine.coherent_start c sheet.print
  have hs := Machine.stands_start c sheet.print
  have hstart : (Machine.start c sheet.print).At c .statement [] (sheet.print ++ []) := by
    rw [List.append_nil]
    exact Machine.at_start c _
  obtain ⟨ps, p, blank, hreaches, hp, hblank, hspelled⟩ := hstart.reads_sheet h .nil nofun
  have hrest : p.cursor.rest.dropWhile isSpace = [] := by
    rw [hp.rest, List.append_nil]
    exact List.dropWhile_eq_nil_iff.2 hblank
  obtain ⟨htokens, hok⟩ := Machine.run_of_blank hp.state hp.modes hrest
  refine ⟨_, tokenize_of_run (hreaches.error?_run.trans hok), ?_⟩
  have hspelling := hreaches.spelling hm hs
  rw [hspelled, Machine.spelling, Machine.spelling, htokens] at hspelling
  exact hspelling.trans (List.append_nil _)

/-- A rule in a rule, and an at-rule behind them. -/
theorem tokenize_print_nested :
    let v := "#\x7bd\x7d".toList
    let sheet : Sheet :=
      .rule [] ['a'] (.statement [] (.declaration ['b']) v
        (.rule ['\n'] "&:hover".toList (.statement [' '] (.assignment ['x']) v (.finish []))
          (.finish [])))
        (.statement ['\n'] (.atRule .importRule) v (.finish ['\n']))
    sheet.print =
        "a\x7bb:#\x7bd\x7d;\n&:hover\x7b $x:#\x7bd\x7d;\x7d\x7d\n@import #\x7bd\x7d;\n".toList ∧
      sheet.Valid .standard false ∧
      (sheet.spelled .standard).map Prod.fst = [.tagSelector, .braceStart, .propertyName, .colon,
        .interpolationStart, .constant, .interpolationEnd, .semicolon, .parentSelector,
        .andCombinator, .pseudoSelector, .braceStart, .variableName, .colon, .interpolationStart,
        .constant, .interpolationEnd, .semicolon, .braceEnd, .braceEnd, .importRule,
        .interpolationStart, .constant, .interpolationEnd, .semicolon] ∧
      ∃ ts, tokenize .standard sheet.print = .ok ts ∧
        ts.map (fun t => (t.kind, t.text)) = sheet.spelled .standard := by
  intro v sheet
  have hrule : SelectorText .standard ['a'] :=
    ⟨⟨_, tokenize_of_run (by decide +kernel)⟩, List.all_iff_forall_prop.1 rfl, 'a', [], rfl, rfl⟩
  have hnested : SelectorText .standard "&:hover".toList :=
    ⟨⟨_, tokenize_of_run (by decide +kernel)⟩, List.all_iff_forall_prop.1 rfl, '&', ":hover".toList,
      rfl, rfl⟩
  have hvalue : ValueText .standard v := by
    refine ⟨⟨_, tokenize_of_run (by decide +kernel)⟩, ⟨[.variableName, .colon, .interpolationStart,
      .constant, .interpolationEnd], by decide +kernel, by decide⟩, fun _ => ?_⟩
    exact quotesOutside_of_not_mem (by decide +kernel)
  have hspace (a : Char) (ha : isSpace a = true) : ∀ b ∈ [a], isSpace b = true :=
    List.forall_mem_singleton.2 ha
  have hvalid : sheet.Valid .standard false := by
    refine .rule nofun hrule (.statement nofun (.declaration (.inr rfl) nofun) hvalue ?_) ?_
    · have hinside : Head.Valid true (.assignment ['x']) :=
        .assignment (List.cons_ne_nil _ _) (List.forall_mem_singleton.2 rfl)
      exact .rule (hspace '\n' rfl) hnested
        (.statement (hspace ' ' rfl) hinside hvalue (.finish nofun)) (.finish nofun)
    · exact .statement (hspace '\n' rfl) (.atRule .importRule) hvalue (.finish (hspace '\n' rfl))
  exact ⟨by decide, hvalid, by decide +kernel, tokenize_print .standard sheet hvalid⟩

end StyleLex

import StyleLex.SelectorScripts
import StyleLex.Proofs.ValueForms

/-! # Forms of selector scripts -/
namespace StyleLex.Script

/-- The colons of a pseudo selector, if `rest` stands behind the first, and the text behind them. -/
structure Colons (rest colons tail : Text) : Prop where
  split : ':' :: rest = colons ++ tail
  short : colons = [':'] ∨ colons = [':', ':']
  stop : colons = [':'] → tail.head? ≠ some ':'

inductive PseudoForm (rest : Text) : Script → Prop where
  | nameless {colons t : Text} (found : Colons rest colons t) (munch : t.Munch isNameChar [] t) :
      PseudoForm rest (.fail colons (.unexpected t))
  | bare {colons t name tail : Text} (found : Colons rest colons t)
      (munch : t.Munch isNameChar name tail) (ne : name ≠ []) (ahead : tail.head? ≠ some '(') :
      PseudoForm rest (.emit .pseudoSelector (colons ++ name) <|
        noteSimple .pseudoSelector <| .goto .selector)
  | arguments {colons t name tail : Text} (found : Colons rest colons t)
      (munch : t.Munch isNameChar name ('(' :: tail)) (ne : name ≠ []) :
      PseudoForm rest (.emit .pseudoSelector (colons ++ name) <| noteSimple .pseudoSelector <|
        .enter .pseudoArguments <| .skip ['('] <| .goto .pseudoArguments)

theorem pseudoName_form {rest colons t : Text} (h : Colons rest colons t) :
    PseudoForm rest (pseudoName colons t) := by
  have hm := Text.munch isNameChar t
  rw [pseudoName]
  split
  case isTrue hname => exact .nameless h (Text.munch_nil hname)
  case isFalse hname =>
    split
    case isTrue hparen =>
      obtain ⟨tail, htail⟩ := List.head?_eq_some_iff.1 hparen
      rw [htail] at hm
      exact .arguments h hm hname
    case isFalse hparen => exact .bare h hm hname hparen

theorem pseudo_form (rest : Text) : PseudoForm rest (pseudo rest) := by
  unfold pseudo
  split
  case h_1 t => exact pseudoName_form ⟨rfl, .inr rfl, by simp⟩
  case h_2 hcolon =>
    refine pseudoName_form ⟨rfl, .inl rfl, ?_⟩
    intro _ h
    obtain ⟨t, rfl⟩ := List.head?_eq_some_iff.1 h
    exact hcolon t rfl

/-- The kinds of selectors that are a sigil and a name. -/
def sigilKind? : Char → Option Kind
  | '.' => some .classSelector
  | '#' => some .idSelector
  | _ => none

inductive SimpleForm (c : Char) (rest : Text) : Script → Prop where
  | group (start : c = '[') :
      SimpleForm c rest (.enter .attribute <| .emit .attrStart [c] <| .goto .attribute)
  | pseudo {s : Script} (start : c = ':') (form : PseudoForm rest s) : SimpleForm c rest s
  | sigil {kind : Kind} {s : Script} (start : sigilKind? c = some kind)
      (form : SigilForm kind c rest (fun _ => noteSimple kind <| .goto .selector) s) :
      SimpleForm c rest s
  | universal (start : c = '*') :
      SimpleForm c rest
        (.emit .universalSelector [c] <| noteSimple .universalSelector <| .goto .selector)
  | parent {name tail : Text} (start : c = '&') (munch : rest.Munch isNameChar name tail) :
      SimpleForm c rest
        (.emit .parentSelector (c :: name) <| noteSimple .parentSelector <| .goto .selector)
  | tag {name tail : Text} (start : isNameStart c = true) (munch : rest.Munch isNameChar name tail) :
      SimpleForm c rest
        (.emit .tagSelector (c :: name) <| noteSimple .tagSelector <| .goto .selector)

theorem simpleSelector_form {c : Char} (h : opensSimple c = true) (rest : Text) :
    SimpleForm c rest (simpleSelector c rest) := by
  have hm := Text.munch isNameChar rest
  rw [simpleSelector]
  split
  case isTrue hc => exact .group hc
  case isFalse hbracket =>
  split
  case isTrue hc => exact .pseudo hc (pseudo_form rest)
  case isFalse hcolon =>
  split
  case isTrue hc => exact .sigil (by rw [hc]; rfl) (sigil_form _ _)
  case isFalse hdot =>
  split
  case isTrue hc => exact .sigil (by rw [hc]; rfl) (sigil_form _ _)
  case isFalse hhash =>
  split
  case isTrue hc => exact .universal hc
  case isFalse hstar =>
  split
  case isTrue hc => exact .parent hc hm
  case isFalse hand =>
    have hstart : isNameStart c = true := by
      simpa [opensSimple, hbracket, hcolon, hdot, hhash, hstar, hand] using h
    exact .tag hstart hm

/-- The scripts in front of `c :: rest` where one part of a compound is expected. -/
inductive CompoundForm (v : View) (c : Char) (rest : Text) : Script → Prop where
  | interpolation {t : Text} (ahead : c :: rest = '#' :: '{' :: t) :
      CompoundForm v c rest openInterpolation
  | continued {kind : Kind} {name tail : Text} (glue : v.compound.glue = .interpolation)
      (start : isNameChar c = true) (same : kind = v.compound.kind?.getD .tagSelector)
      (munch : rest.Munch isNameChar name tail) :
      CompoundForm v c rest (.emit kind (c :: name) <| noteSimple kind <| .goto .selector)
  | simple {s : Script} (plain : interpolationAhead (c :: rest) = false)
      (fresh : ¬(v.compound.glue = .interpolation ∧ isNameChar c = true))
      (glue : v.compound.gluesTo c = false) (form : SimpleForm c rest s) : CompoundForm v c rest s
  | glued {s : Script} (plain : interpolationAhead (c :: rest) = false)
      (fresh : ¬(v.compound.glue = .interpolation ∧ isNameChar c = true))
      (glue : v.compound.gluesTo c = true) (form : SimpleForm c rest s) :
      CompoundForm v c rest (.emit .andCombinator [] s)
  | stray (start : opensSimple c = false) : CompoundForm v c rest (.fail [] (.unexpected (c :: rest)))

theorem compoundPart_form (v : View) (c : Char) (rest : Text) :
    CompoundForm v c rest (compoundPart v c rest) := by
  rw [compoundPart]
  split
  case isTrue h =>
    unfold interpolationAhead at h
    split at h
    case h_1 he => exact .interpolation he
    case h_2 => simp at h
  case isFalse hplain =>
  split
  case isTrue h => exact .continued h.1 h.2 rfl (Text.munch _ _)
  case isFalse hfresh =>
  split
  case isTrue h =>
    have hs := simpleSelector_form h rest
    rw [glue]
    split
    case isTrue hglue => exact .glued (by simpa using hplain) hfresh hglue hs
    case isFalse hglue => exact .simple (by simpa using hplain) hfresh (by simpa using hglue) hs
  case isFalse h => exact .stray (by simpa using h)

inductive SelectorForm (v : View) : Script → Prop where
  | atEnd {blank : Text} (munch : v.rest.Munch isSpace blank []) :
      SelectorForm v (.fail blank (.unexpected []))
  | combinator {blank t gap tail : Text} {c : Char} {kind : Kind}
      (munch : v.rest.Munch isSpace blank (c :: t)) (known : combinator? c = some kind)
      (behind : t.Munch isSpace gap tail) :
      SelectorForm v
        (.skip blank <| .emit kind [c] <| .skip gap <| .note .detached <| .goto .selector)
  | block {blank t : Text} (munch : v.rest.Munch isSpace blank ('{' :: t)) :
      SelectorForm v (.skip blank <| .leave <| .enter .block <| .emit .braceStart ['{'] <|
        .note .detached <| .goto .statement)
  | comma {blank t : Text} (munch : v.rest.Munch isSpace blank (',' :: t)) :
      SelectorForm v (.skip blank <| .emit .comma [','] <| .note .detached <| .goto .selector)
  | descendant {blank t : Text} {c : Char} (munch : v.rest.Munch isSpace blank (c :: t))
      (other : combinator? c = none) (brace : c ≠ '{') (comma : c ≠ ',') (ne : blank ≠ [])
      (attached : v.compound.glue ≠ .detached) :
      SelectorForm v (.emit .descendantCombinator blank <| .note .detached <| .goto .selector)
  | compound {blank t : Text} {c : Char} {s : Script} (munch : v.rest.Munch isSpace blank (c :: t))
      (other : combinator? c = none) (brace : c ≠ '{') (comma : c ≠ ',')
      (tight : blank = [] ∨ v.compound.glue = .detached) (form : CompoundForm v c t s) :
      SelectorForm v (.skip blank s)

theorem selector_form (v : View) : SelectorForm v (selector v) := by
  have hm := Text.munch isSpace v.rest
  rw [selector]
  generalize v.rest.takeWhile isSpace = blank at hm ⊢
  generalize v.rest.dropWhile isSpace = rest at hm ⊢
  cases rest with
  | nil => exact .atEnd hm
  | cons c t =>
    dsimp only
    split
    case h_1 kind hkind => exact .combinator hm hkind (Text.munch _ _)
    case h_2 hother =>
    split
    case isTrue hc =>
      subst hc
      exact .block hm
    case isFalse hbrace =>
    split
    case isTrue hc =>
      subst hc
      exact .comma hm
    case isFalse hcomma =>
    split
    case isTrue h => exact .descendant hm hother hbrace hcomma h.1 h.2
    case isFalse h =>
      have htight : blank = [] ∨ v.compound.glue = .detached := by
        rcases not_and_or.1 h with h | h
        · exact .inl (not_not.1 h)
        · exact .inr (not_not.1 h)
      exact .compound hm hother hbrace hcomma htight (compoundPart_form v c t)

inductive AttributeEndForm (v : View) (rest : Text) : Script → Prop where
  | closed {t : Text} (ahead : rest = ']' :: t) :
      AttributeEndForm v rest (.emit .attrEnd [']'] <| .leave <|
        .note { v.compound with glue := .attribute } <| .goto .selector)
  | unclosed (ahead : rest.head? ≠ some ']') :
      AttributeEndForm v rest (.fail [] (.unclosed v.top rest))

theorem attributeEnd_form (v : View) (rest : Text) :
    AttributeEndForm v rest (attributeEnd v rest) := by
  unfold attributeEnd
  split
  case h_1 t => exact .closed rfl
  case h_2 hbracket =>
    apply AttributeEndForm.unclosed
    intro h
    obtain ⟨t, rfl⟩ := List.head?_eq_some_iff.1 h
    exact hbracket t rfl

inductive AttributeValueForm (v : View) (rest : Text) : Script → Prop where
  | quoted {q : Char} {t : Text} {s : Script} (ahead : rest = q :: t) (quote : isQuote q = true)
      (form : QuotedForm q t (fun r => skipSpaces r <| attributeEnd v) s) :
      AttributeValueForm v rest s
  | bare {value t gap tail : Text} (munch : rest.Munch isUnquotedChar value t) (ne : value ≠ [])
      (behind : t.Munch isSpace gap tail) :
      AttributeValueForm v rest (.emit .unquotedString value <| .skip gap <| attributeEnd v tail)
  | missing (munch : rest.Munch isUnquotedChar [] rest) :
      AttributeValueForm v rest (.fail [] (.unclosed v.top rest))

theorem attributeValue_form (v : View) (rest : Text) :
    AttributeValueForm v rest (attributeValue v rest) := by
  unfold attributeValue
  dsimp only
  split
  case h_1 => exact .missing (Text.munch_nil rfl)
  case h_2 c t =>
    split
    case isTrue h => exact .quoted rfl h (quoted_form _)
    case isFalse =>
    split
    case isTrue h => exact .missing (Text.munch_nil h)
    case isFalse h => exact .bare (Text.munch _ _) h (Text.munch _ _)

inductive AttributeTestForm (v : View) (rest : Text) : Script → Prop where
  | none {s : Script} (other : attributeOperator? rest = Option.none)
      (form : AttributeEndForm v rest s) : AttributeTestForm v rest s
  | operator {text t gap tail : Text} {kind : Kind} {s : Script}
      (known : (text, kind) ∈ attributeOperators) (split : rest = text ++ t)
      (behind : t.Munch isSpace gap tail) (form : AttributeValueForm v tail s) :
      AttributeTestForm v rest (.emit kind text <| .skip gap s)

theorem attributeTest_form (v : View) (rest : Text) :
    AttributeTestForm v rest (attributeTest v rest) := by
  rw [attributeTest]
  split
  case h_1 h => exact .none h (attributeEnd_form v rest)
  case h_2 text kind h =>
    have hmem := List.mem_of_find?_eq_some h
    have hahead : text <+: rest := List.isPrefixOf_iff_prefix.1 (by simpa using List.find?_some h)
    obtain ⟨t, rfl⟩ := hahead
    rw [List.drop_left]
    exact .operator hmem rfl (Text.munch _ _) (attributeValue_form v _)

inductive AttributeForm (v : View) : Script → Prop where
  | nameless {blank t : Text} (munch : v.rest.Munch isSpace blank t) (run : t.Munch isNameChar [] t) :
      AttributeForm v (.skip blank <| .fail [] (.unclosed v.top t))
  | named {blank t name t' gap tail : Text} {s : Script} (munch : v.rest.Munch isSpace blank t)
      (run : t.Munch isNameChar name t') (ne : name ≠ []) (behind : t'.Munch isSpace gap tail)
      (form : AttributeTestForm v tail s) :
      AttributeForm v (.skip blank <| .emit .attrName name <| .skip gap s)

theorem attributeGroup_form (v : View) : AttributeForm v (attributeGroup v) := by
  have hm := Text.munch isSpace v.rest
  rw [attributeGroup, skipSpaces]
  dsimp only
  split
  case isTrue h => exact .nameless hm (Text.munch_nil h)
  case isFalse h => exact .named hm (Text.munch _ _) h (Text.munch _ _) (attributeTest_form v _)

/-- What is found stands in front of a closing parenthesis. -/
theorem upToClosing_eq_append {depth : Nat} {t s : Text} (h : upToClosing depth t = some s) :
    ∃ tail, t = s ++ ')' :: tail := by
  induction t generalizing depth s with
  | nil => simp [upToClosing] at h
  | cons c t ih =>
    have hcons {d : Nat} (hd : (upToClosing d t).map (c :: ·) = some s) :
        ∃ tail, c :: t = s ++ ')' :: tail := by
      obtain ⟨u, hu, rfl⟩ := Option.map_eq_some_iff.1 hd
      obtain ⟨tail, rfl⟩ := ih hu
      exact ⟨tail, rfl⟩
    unfold upToClosing at h
    split at h
    case isTrue hc =>
      split at h
      case h_1 =>
        obtain rfl := Option.some.inj h
        exact ⟨t, by rw [hc]; rfl⟩
      case h_2 => exact hcons h
    case isFalse =>
      split at h
      case isTrue => exact hcons h
      case isFalse => exact hcons h

inductive ArgumentsForm (v : View) : Script → Prop where
  | unclosed (open_ : upToClosing 0 v.rest = none) :
      ArgumentsForm v (.fail v.rest (.unclosed v.top []))
  | empty {t : Text} (ahead : v.rest = ')' :: t) : ArgumentsForm v (closeArguments v)
  | arguments {text t : Text} (found : upToClosing 0 v.rest = some text)
      (split : v.rest = text ++ ')' :: t) (ne : text ≠ []) :
      ArgumentsForm v (.emit .langCode text (closeArguments v))

theorem pseudoArguments_form (v : View) : ArgumentsForm v (pseudoArguments v) := by
  rw [pseudoArguments]
  split
  case h_1 h => exact .unclosed h
  case h_2 h =>
    obtain ⟨t, ht⟩ := upToClosing_eq_append h
    exact .empty ht
  case h_3 text hne h =>
    obtain ⟨t, ht⟩ := upToClosing_eq_append h
    exact .arguments h ht (fun he => hne he)

end StyleLex.Script

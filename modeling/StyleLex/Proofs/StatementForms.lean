import StyleLex.StatementScripts
import StyleLex.Proofs.SelectorForms

/-! # Forms of statement scripts, and so of the scripts of all states -/
namespace StyleLex.Script

/-- What the script of a statement goes on with in front of `rest`, behind the spaces. -/
inductive StatementForm (v : View) (rest : Text) : Script → Prop where
  | finished (ahead : rest = []) (bottom : v.top = .topLevel) : StatementForm v rest (.goto .done)
  | unclosed (ahead : rest = []) (bottom : v.top ≠ .topLevel) :
      StatementForm v rest (.fail [] (.unclosed v.top []))
  | atRule {t : Text} (ahead : rest = '@' :: t) : StatementForm v rest (.goto .atRule)
  | assignment {t : Text} (ahead : rest = '$' :: t) : StatementForm v rest (.goto .assignment)
  | block {t : Text} (ahead : rest = '{' :: t) :
      StatementForm v rest (.enter .block <| .emit .braceStart ['{'] <| .goto .statement)
  | close {t : Text} (ahead : rest = '}' :: t) (inside : v.top = .block) :
      StatementForm v rest (.emit .braceEnd ['}'] <| .leave .resume)
  | unbalanced {t : Text} (ahead : rest = '}' :: t) (outside : v.top ≠ .block) :
      StatementForm v rest (.fail [] ⟨.unbalancedCloseBrace, .scan⟩)
  | quoted {q : Char} {t : Text} {s : Script} (ahead : rest = q :: t) (quote : isQuote q = true)
      (form : QuotedForm q t (fun _ => .goto .statement) s) : StatementForm v rest s
  | number {c : Char} {t : Text} {s : Script} (ahead : rest = c :: t) (digit : c.isDigit = true)
      (form : NumberForm rest (fun _ => .goto .statement) s) : StatementForm v rest s
  | property {c : Char} {t : Text} (ahead : rest = c :: t) (inside : v.top = .block)
      (shape : RuleShape.ofText rest = .declaration) : StatementForm v rest (.goto .property)
  | selector {c : Char} {t : Text} (ahead : rest = c :: t) (opens : opensSelector c = true)
      (shape : v.top = .block → RuleShape.ofText rest = .block) :
      StatementForm v rest (.enter .selector <| .note .detached <| .goto .selector)
  | stray {c : Char} {t : Text} (ahead : rest = c :: t) (opens : opensSelector c = false) :
      StatementForm v rest (.fail [] (.unexpected rest))

theorem statement_form (v : View) :
    ∃ blank rest s,
      v.rest.Munch isSpace blank rest ∧ StatementForm v rest s ∧ statement v = .skip blank s := by
  refine ⟨_, _, _, Text.munch isSpace v.rest, ?_, rfl⟩
  dsimp only
  generalize v.rest.dropWhile isSpace = rest
  cases rest with
  | nil =>
    dsimp only
    split
    case isTrue h => exact .finished rfl h
    case isFalse h => exact .unclosed rfl h
  | cons c t =>
    dsimp only
    split
    case isTrue hc =>
      subst hc
      exact .atRule rfl
    case isFalse =>
    split
    case isTrue hc =>
      subst hc
      exact .assignment rfl
    case isFalse =>
    split
    case isTrue hc =>
      subst hc
      exact .block rfl
    case isFalse =>
    split
    case isTrue hc =>
      subst hc
      split
      case isTrue h => exact .close rfl h
      case isFalse h => exact .unbalanced rfl h
    case isFalse =>
    split
    case isTrue h => exact .quoted rfl h (quoted_form _)
    case isFalse =>
    split
    case isTrue h => exact .number rfl h (number_form (numberAhead_of_isDigit h t))
    case isFalse =>
    split
    case isTrue h => exact .property rfl h.1 h.2
    case isFalse hproperty =>
    split
    case isTrue h =>
      refine .selector rfl h ?_
      intro htop
      cases hshape : RuleShape.ofText (c :: t) with
      | block => rfl
      | declaration => exact absurd ⟨htop, hshape⟩ hproperty
    case isFalse h => exact .stray rfl (by simpa using h)

theorem statement_of_brace {v : View} {t : Text} (h : v.rest = '}' :: t) :
    statement v = .skip [] (if v.top = .block then .emit .braceEnd ['}'] <| .leave .resume
      else .fail [] ⟨.unbalancedCloseBrace, .scan⟩) := by
  have hspace : isSpace '}' = false := by decide
  simp [statement, skipSpaces, h, hspace]

inductive AtRuleForm (rest : Text) : Script → Prop where
  | atEnd (ahead : rest = []) : AtRuleForm rest (.fail [] (.unexpected []))
  | known {c : Char} {t name tail : Text} {kind : Kind} (ahead : rest = c :: t)
      (munch : t.Munch isNameChar name tail) (known : atKeyword? name = some kind) :
      AtRuleForm rest (.emit kind (c :: name) <| .enter .value <| .goto .value)
  | unknown {c : Char} {t name tail : Text} (ahead : rest = c :: t)
      (munch : t.Munch isNameChar name tail) (unknown : atKeyword? name = none) :
      AtRuleForm rest (.fail (c :: name) ⟨.unexpectedCharacter c, .lexeme⟩)

theorem atRule_form (v : View) : AtRuleForm v.rest (atRule v) := by
  rw [atRule]
  split
  case h_1 h => exact .atEnd h
  case h_2 c t h =>
    dsimp only
    split
    case h_1 kind hk => exact .known h (Text.munch _ _) hk
    case h_2 hk => exact .unknown h (Text.munch _ _) hk

inductive ColonForm (rest : Text) : Script → Prop where
  | colon {blank t : Text} (munch : rest.Munch isSpace blank (':' :: t)) :
      ColonForm rest (.skip blank <| .emit .colon [':'] <| .enter .value <| .goto .value)
  | missing {blank t : Text} (munch : rest.Munch isSpace blank t) (ahead : t.head? ≠ some ':') :
      ColonForm rest (.skip blank <| .fail [] (.unexpected t))

theorem colon_form (rest : Text) : ColonForm rest (colon rest) := by
  have hm := Text.munch isSpace rest
  rw [colon, skipSpaces]
  generalize rest.dropWhile isSpace = r at hm
  split
  case h_1 t => exact .colon hm
  case h_2 hcolon =>
    apply ColonForm.missing hm
    intro h
    obtain ⟨t, rfl⟩ := List.head?_eq_some_iff.1 h
    exact hcolon t rfl

inductive AssignmentForm (rest : Text) : Script → Prop where
  | atEnd (ahead : rest = []) : AssignmentForm rest (.fail [] (.unexpected []))
  | named {c : Char} {t : Text} {s : Script} (ahead : rest = c :: t)
      (form : SigilForm .variableName c t colon s) : AssignmentForm rest s

theorem assignment_form (v : View) : AssignmentForm v.rest (assignment v) := by
  rw [assignment]
  split
  case h_1 h => exact .atEnd h
  case h_2 c t h => exact .named h (sigil_form _ _)

inductive PropertyForm (rest : Text) : Script → Prop where
  | atEnd (ahead : rest = []) : PropertyForm rest (.fail [] (.unexpected []))
  | named {c : Char} {t name tail : Text} {s : Script} (ahead : rest = c :: t)
      (start : c = '-' ∨ isNameStart c = true) (munch : t.Munch isNameChar name tail)
      (form : ColonForm tail s) : PropertyForm rest (.emit .propertyName (c :: name) s)
  | stray {c : Char} {t : Text} (ahead : rest = c :: t) (start : ¬(c = '-' ∨ isNameStart c = true)) :
      PropertyForm rest (.fail [] (.unexpected rest))

theorem property_form (v : View) : PropertyForm v.rest (property v) := by
  rw [property]
  split
  case h_1 h => exact .atEnd h
  case h_2 c t h =>
    split
    case isTrue hc => exact .named h hc (Text.munch _ _) (colon_form _)
    case isFalse hc =>
      rw [← h]
      exact .stray h hc

/-- Every script that a state can give. -/
inductive StateForm (v : View) : State → Script → Prop where
  | statement {blank rest : Text} {s : Script} (munch : v.rest.Munch isSpace blank rest)
      (form : StatementForm v rest s) : StateForm v .statement (.skip blank s)
  | atRule {s : Script} (form : AtRuleForm v.rest s) : StateForm v .atRule s
  | assignment {s : Script} (form : AssignmentForm v.rest s) : StateForm v .assignment s
  | property {s : Script} (form : PropertyForm v.rest s) : StateForm v .property s
  | selector {s : Script} (form : SelectorForm v s) : StateForm v .selector s
  | group {s : Script} (form : AttributeForm v s) : StateForm v .attribute s
  | pseudoArguments {s : Script} (form : ArgumentsForm v s) : StateForm v .pseudoArguments s
  | value {blank rest : Text} {s : Script} (munch : v.rest.Munch isSpace blank rest)
      (form : ValueForm v rest s) : StateForm v .value (.skip blank s)
  | interpolation {s : Script} (form : InterpolationForm v s) : StateForm v .interpolation s
  | done : StateForm v .done (.goto .done)

theorem ofState_form (st : State) (v : View) : StateForm v st (ofState st v) := by
  cases st with
  | statement =>
    obtain ⟨blank, rest, s, hm, hs, he⟩ := statement_form v
    rw [ofState, he]
    exact .statement hm hs
  | atRule => exact .atRule (atRule_form v)
  | assignment => exact .assignment (assignment_form v)
  | property => exact .property (property_form v)
  | selector => exact .selector (selector_form v)
  | «attribute» => exact .group (attributeGroup_form v)
  | pseudoArguments => exact .pseudoArguments (pseudoArguments_form v)
  | value =>
    obtain ⟨blank, rest, s, hm, hs, he⟩ := value_form v
    rw [ofState, he]
    exact .value hm hs
  | interpolation => exact .interpolation (interpolation_form v)
  | done => exact .done

end StyleLex.Script

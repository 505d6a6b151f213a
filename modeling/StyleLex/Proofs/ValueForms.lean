import StyleLex.ValueScripts
import StyleLex.Proofs.LiteralForms

/-! # Forms of value and interpolation scripts -/
namespace StyleLex.Script

inductive ComponentForm (v : View) (after : State) (rest : Text) : Script → Prop where
  | atEnd (ahead : rest = []) : ComponentForm v after rest (.fail [] (.unexpected []))
  | reference {t : Text} {s : Script} (ahead : rest = '$' :: t)
      (form : SigilForm .variableName '$' t (fun _ => .goto after) s) : ComponentForm v after rest s
  | interpolation {t : Text} (ahead : rest = '#' :: '{' :: t) :
      ComponentForm v after rest openInterpolation
  | hexColor {t : Text} {s : Script} (ahead : rest = '#' :: t) (plain : interpolationAhead rest = false)
      (form : HexColorForm t (fun _ => .goto after) s) : ComponentForm v after rest s
  | quoted {q : Char} {t : Text} {s : Script} (ahead : rest = q :: t) (quote : isQuote q = true)
      (form : QuotedForm q t (fun _ => .goto after) s) : ComponentForm v after rest s
  | comma {t : Text} (ahead : rest = ',' :: t) :
      ComponentForm v after rest (.emit .comma [','] <| .goto after)
  | call {t : Text} (ahead : rest = '(' :: t) :
      ComponentForm v after rest
        (.enter .functionArguments <| .emit .parenStart ['('] <| .goto .value)
  | stray {c : Char} {t : Text} (ahead : rest = c :: t)
      (stray : c = '{' ∨ c = '}' ∨ c = ')' ∨ c = ';' ∧ v.inCall = false) :
      ComponentForm v after rest (.fail [] (.unexpected rest))
  | number {s : Script} (ahead : numberAhead rest = true)
      (form : NumberForm rest (fun _ => .goto after) s) : ComponentForm v after rest s
  | constant {c : Char} {t : Text} {s : Script} (ahead : rest = c :: t) (dollar : c ≠ '$')
      (hash : c ≠ '#') (plain : numberAhead rest = false)
      (form : ConstantForm v.inCall rest (fun _ => .goto after) s) : ComponentForm v after rest s

theorem component_form (v : View) (after : State) (rest : Text) :
    ComponentForm v after rest (component v after rest) := by
  unfold component
  split
  case h_1 => exact .atEnd rfl
  case h_2 c t =>
    split
    case isTrue h =>
      subst h
      exact .reference rfl (sigil_form _ _)
    case isFalse hdollar =>
    split
    case isTrue h =>
      unfold interpolationAhead at h
      split at h
      case h_1 he =>
        rw [he]
        exact .interpolation rfl
      case h_2 => simp at h
    case isFalse hplain =>
    split
    case isTrue h =>
      subst h
      exact .hexColor rfl (by simpa using hplain) hexColor_form
    case isFalse hhash =>
    split
    case isTrue h => exact .quoted rfl h (quoted_form _)
    case isFalse =>
    split
    case isTrue h =>
      subst h
      exact .comma rfl
    case isFalse =>
    split
    case isTrue h =>
      subst h
      exact .call rfl
    case isFalse =>
    split
    case isTrue h =>
      have hnumber : numberAhead (c :: t) = false := by
        rw [h.1]
        rfl
      exact .constant rfl hdollar hhash hnumber (constant_form _)
    case isFalse hcall =>
    split
    case isTrue h =>
      apply ComponentForm.stray rfl
      rcases h with h | h | h | h
      · exact .inl h
      · exact .inr (.inl h)
      · exact .inr (.inr (.inl h))
      · exact .inr (.inr (.inr ⟨h, by simpa [h] using hcall⟩))
    case isFalse =>
    split
    case isTrue h => exact .number h (number_form h)
    case isFalse h => exact .constant rfl hdollar hhash (by simpa using h) (constant_form _)

/-- What the script of a value goes on with in front of `rest`, behind the spaces. -/
inductive ValueForm (v : View) (rest : Text) : Script → Prop where
  | endOfText (ahead : rest = []) (outside : v.inCall = false) :
      ValueForm v rest (.fail [] ⟨.missingSemicolon, .scan⟩)
  | endInCall (ahead : rest = []) (inside : v.inCall = true) :
      ValueForm v rest (.fail [] (.unclosed v.top []))
  | braceInCall {t : Text} (ahead : rest = '}' :: t) (inside : v.inCall = true) :
      ValueForm v rest (.fail [] ⟨.unterminatedLiteral ')', .opener⟩)
  | semicolon {t : Text} (ahead : rest = ';' :: t) (outside : v.inCall = false) :
      ValueForm v rest (.emit .semicolon [';'] <| .leave .resume)
  | missing {t : Text} (ahead : rest = '}' :: t) (outside : v.inCall = false)
      (strict : v.config.requireSemicolon = true) :
      ValueForm v rest (.fail [] ⟨.missingSemicolon, .scan⟩)
  | lenient {t : Text} (ahead : rest = '}' :: t) (outside : v.inCall = false)
      (lenient : v.config.requireSemicolon = false) : ValueForm v rest (.leave .resume)
  | endOfCall {t : Text} (ahead : rest = ')' :: t) (inside : v.inCall = true) :
      ValueForm v rest (.emit .parenEnd [')'] <| .leave .resume)
  | component {c : Char} {t : Text} {s : Script} (ahead : rest = c :: t) (brace : c ≠ '}')
      (semicolon : c = ';' → v.inCall = true) (paren : c = ')' → v.inCall = false)
      (form : ComponentForm v .value rest s) : ValueForm v rest s

theorem value_form (v : View) :
    ∃ blank rest s, v.rest.Munch isSpace blank rest ∧ ValueForm v rest s ∧ value v = .skip blank s := by
  refine ⟨_, _, _, Text.munch isSpace v.rest, ?_, rfl⟩
  dsimp only
  generalize v.rest.dropWhile isSpace = rest
  cases rest with
  | nil =>
    cases hin : v.inCall with
    | false => exact .endOfText rfl hin
    | true => exact .endInCall rfl hin
  | cons c t =>
    dsimp only
    split
    case isTrue h =>
      obtain ⟨rfl, hin⟩ := h
      exact .braceInCall rfl hin
    case isFalse hbraceInCall =>
    split
    case isTrue h =>
      obtain ⟨rfl, hin⟩ := h
      exact .semicolon rfl (by simpa using hin)
    case isFalse hsemicolon =>
    split
    case isTrue h =>
      obtain ⟨rfl, hstrict⟩ := h
      exact .missing rfl (by simpa using hbraceInCall) hstrict
    case isFalse hmissing =>
    split
    case isTrue h =>
      subst h
      exact .lenient rfl (by simpa using hbraceInCall) (by simpa using hmissing)
    case isFalse hbrace =>
    split
    case isTrue h =>
      obtain ⟨rfl, hin⟩ := h
      exact .endOfCall rfl hin
    case isFalse hparen =>
      exact .component rfl hbrace (by simpa using hsemicolon) (by simpa using hparen)
        (component_form v .value _)

inductive CloseForm (v : View) : Script → Prop where
  | selector (outer : v.outer = .selector) :
      CloseForm v (.emit .interpolationEnd ['}'] <| .leave <|
        .note { v.compound with glue := .interpolation } .resume)
  | value (outer : v.outer ≠ .selector) :
      CloseForm v (.emit .interpolationEnd ['}'] <| .leave .resume)

theorem closeInterpolation_form (v : View) : CloseForm v (closeInterpolation v) := by
  rw [closeInterpolation]
  split
  case isTrue h => exact .selector h
  case isFalse h => exact .value h

inductive InterpolationForm (v : View) : Script → Prop where
  | unclosedSkipped (skipped : v.config.interpolation = .skipped) (open_ : '}' ∉ v.rest) :
      InterpolationForm v (.fail [] ⟨.unterminatedLiteral '}', .opener⟩)
  | skipped {body tail : Text} {s : Script} (skipped : v.config.interpolation = .skipped)
      (split : v.rest = body ++ '}' :: tail) (first : '}' ∉ body) (close : CloseForm v s) :
      InterpolationForm v (.skip body s)
  | unclosed {blank : Text} (tokens : v.config.interpolation = .tokens)
      (munch : v.rest.Munch isSpace blank []) :
      InterpolationForm v (.skip blank <| .fail [] (.unclosed v.top []))
  | close {blank t : Text} {s : Script} (tokens : v.config.interpolation = .tokens)
      (munch : v.rest.Munch isSpace blank ('}' :: t)) (close : CloseForm v s) :
      InterpolationForm v (.skip blank s)
  | component {blank t : Text} {c : Char} {s : Script} (tokens : v.config.interpolation = .tokens)
      (munch : v.rest.Munch isSpace blank (c :: t)) (brace : c ≠ '}')
      (form : ComponentForm v .interpolation (c :: t) s) : InterpolationForm v (.skip blank s)

theorem interpolation_form (v : View) : InterpolationForm v (interpolation v) := by
  rw [interpolation]
  split
  case h_1 hskipped =>
    split
    case h_1 h => exact .unclosedSkipped hskipped (Text.not_mem_of_upTo?_eq_none h)
    case h_2 body h =>
      obtain ⟨hmem, hsplit⟩ := Text.exists_of_upTo?_eq_some h
      exact .skipped hskipped hsplit hmem (closeInterpolation_form v)
  case h_2 htokens =>
    have hm := Text.munch isSpace v.rest
    rw [skipSpaces]
    generalize v.rest.dropWhile isSpace = rest at hm
    cases rest with
    | nil => exact .unclosed htokens hm
    | cons c t =>
      dsimp only
      split
      case isTrue h =>
        subst h
        exact .close htokens hm (closeInterpolation_form v)
      case isFalse h => exact .component htokens hm h (component_form v .interpolation _)

end StyleLex.Script

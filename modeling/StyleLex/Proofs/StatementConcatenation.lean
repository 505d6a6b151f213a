import StyleLex.Proofs.ConsumerAgreement
import StyleLex.Proofs.ShiftedRuns
import StyleLex.Proofs.StatementSeams
import StyleLex.Proofs.StatementStarts

/-!
# Texts of whole statements, one behind the other

Behind a text of whole statements, any other text is read as if it stood alone.
-/
namespace StyleLex

variable {blank t before source : Text} {c : Config} {ps : List Piece} {s : Script}

/-- The text ends where a statement can end, or there is none. -/
def EndsStatement (t : Text) : Prop :=
  t = [] ∨ ∃ u a, t = u ++ [a] ∧ (a = ';' ∨ a = '}' ∨ isSpace a = true)

theorem EndsStatement.seam (h : EndsStatement t) : t = [] ∨ Text.Seam [] t := by
  obtain rfl | ⟨u, a, rfl, ha⟩ := h
  · exact .inl rfl
  · refine .inr ⟨u, a, rfl, ?_, .inr rfl⟩
    rcases ha with rfl | rfl | hspace
    · decide
    · decide
    · exact mem_seams_of_isSpace hspace

namespace Machine

variable {m m' : Machine}

/-- A machine in front of a statement, outside of all blocks, does what one does that starts there. -/
theorem eq_shift_start (hst : m.state = .statement) (hmodes : m.openModes = [])
    (hcompound : m.compound = .detached) (hs : m.Stands source before)
    (hunread : m.cursor.unread = false) :
    m = (start m.config m.cursor.rest).shift before.byteSize before.newlines := by
  obtain ⟨hcursor, hlexeme⟩ := hs
  obtain ⟨config, ⟨rest, pending, pos, line, startPos, startLine, unread⟩, ⟨frames⟩, state,
    compound⟩ := m
  obtain rfl : frames = [] := List.map_eq_nil_iff.1 hmodes
  obtain rfl : pending = [] := List.reverse_eq_nil_iff.1 hlexeme
  have hpos := hcursor.pos
  have hline := hcursor.line
  have hstart := hcursor.start
  have hstartLine := hcursor.startLine
  rw [hlexeme, List.append_nil] at hpos hline
  dsimp only at hst hcompound hunread hpos hline hstart hstartLine
  subst hst hcompound hunread hpos hline hstart hstartLine
  simp [start, shift, Cursor.shift, Cursor.ofText, ModeStack.shift, ModeStack.empty]

/-- Behind whole statements, a text gives the items that it gives alone, at places further behind. -/
theorem items_append {s : Text} (hok : (start c s).run.error? = none) (hend : EndsStatement s)
    (hquotes : (start c s).QuotesOutside) (t : Text) :
    (start c (s ++ t)).run.items = (start c s).run.tokens.map .token ++
      (start c t).run.items.map (Item.shift s.byteSize s.newlines) := by
  have hm := coherent_start c s
  have hm' := coherent_start c (s ++ t)
  have hstands := stands_start c s
  have hstands' := stands_start c (s ++ t)
  have hembedded : Embedded [] [] t (start c s) (start c (s ++ t)) :=
    ⟨⟨rfl, rfl, rfl, rfl⟩, s, (List.append_nil s).symm, rfl, hend.seam⟩
  obtain ⟨ps, p, p', hreaches, hreaches', hp, hst, hmodes, hblank⟩ :=
    hembedded.reaches_end hm hstands nofun hok hquotes.bracesOutside
  obtain ⟨blank, hrest, hrest', -⟩ := hp.text
  rw [List.append_nil] at hrest
  have htokens : (start c s).run.tokens = Piece.tokens [] ps := by
    rw [hreaches.tokens_run hm hstands, (run_of_blank hst hmodes hblank).1, List.append_nil]
  have hspaces : ∀ a ∈ blank, isSpace a = true := by
    rw [hrest] at hblank
    exact List.dropWhile_eq_nil_iff.1 hblank
  have hsplit : s = Piece.texts ps ++ blank := by
    have hsplit := (hreaches.stands hm hstands).split
    rwa [hrest] at hsplit
  have hst' : p'.state = .statement := hp.inside.state.trans hst
  have hmodes' : p'.openModes = [] := by rw [hp.inside.modes, hmodes, List.append_nil]
  have hcompound : p'.compound = .detached := by
    have hkept := hreaches'.kept hm' (.inr rfl)
    rw [hmodes'] at hkept
    exact hkept.resolve_left List.not_mem_nil
  -- Behind the spaces nothing tells the machine from one that starts there.
  have hseam : p'.skip blank = (start c t).shift s.byteSize s.newlines := by
    have hstart := eq_shift_start (m := p'.skip blank) hst' hmodes' hcompound
      ((hreaches'.stands hm' hstands').skip hrest') rfl
    rw [rest_skip_of_eq hrest', List.nil_append, ← hsplit] at hstart
    rw [hstart, show (p'.skip blank).config = c from hreaches'.config]
  rw [hreaches'.items_run hm' hstands', htokens, run_eq_skip (.inl hst') hrest' hspaces, hseam,
    (coherent_start c t).run_shift, Run.items_shift]

end Machine

/-- A pull over whole statements and any text behind them answers with the tokens of the statements,
and then as a pull over that text does, with every place moved by the bytes and the lines in front of
it. -/
theorem pull_append (c : Config) (s : Text) (ts : List Token) (hok : tokenize c s = .ok ts)
    (hend : EndsStatement s)
    (hquotes : c.interpolation = .tokens → QuotesOutside [] (ts.map Token.kind)) (t : Text) :
    ∃ is : List Item, (∀ n, answer Pull.next n (.start c t) = is[n]?) ∧
      ∀ n, answer Pull.next n (.start c (s ++ t)) =
        (ts.map Item.token ++ is.map (Item.shift s.byteSize s.newlines))[n]? := by
  have hanswer (source : Text) (n : Nat) :
      answer Pull.next n (.start c source) = (Machine.start c source).run.items[n]? :=
    answer_of_holds (fun _ _ h => Pull.next_of_holds h) (Pull.holds_start c source) n
  obtain ⟨rfl, he⟩ := run_of_tokenize hok
  refine ⟨_, hanswer t, fun n => ?_⟩
  rw [hanswer, Machine.items_append he hend hquotes t]

/-- The brace that closes nothing is found on the second line. -/
theorem pull_append_unbalanced :
    let ts := [.make .variableName ['$', 'a'] 0 1, .make .colon [':'] 2 1, .make .constant ['b'] 3 1,
      .make .semicolon [';'] 4 1]
    tokenize .standard "$a:b;\n".toList = .ok ts ∧ EndsStatement "$a:b;\n".toList ∧
      QuotesOutside [] (ts.map Token.kind) ∧
      answer Pull.next 4 (.start .standard ("$a:b;\n".toList ++ ['}'])) =
        some (.error (.unbalancedCloseBrace 6 2)) := by
  intro ts
  have hok : tokenize .standard "$a:b;\n".toList = .ok ts := by decide +kernel
  have hend : EndsStatement "$a:b;\n".toList :=
    .inr ⟨"$a:b;".toList, '\n', by decide, .inr (.inr (by decide))⟩
  have hquotes : QuotesOutside [] (ts.map Token.kind) := quotesOutside_of_not_mem (by decide)
  obtain ⟨is, his, hbehind⟩ := pull_append .standard _ ts hok hend (fun _ => hquotes) ['}']
  have hfirst : is[0]? = some (.error (.unbalancedCloseBrace 0 1)) := by
    rw [← his]
    decide +kernel
  refine ⟨hok, hend, hquotes, ?_⟩
  rw [hbehind, List.getElem?_append_right (Nat.le_refl 4), List.getElem?_map]
  exact congrArg (Option.map _) hfirst

end StyleLex

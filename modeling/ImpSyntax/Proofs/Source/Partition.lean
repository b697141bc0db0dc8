import ImpSyntax.Proofs.Source.GapText
import ImpSyntax.Proofs.Source.LexemeText

/-!
# ImpSyntax.Proofs.Source.Partition

Cutting a source text into tokens loses nothing: the text is the lexemes of the tokens, in turn,
and gaps (`Partition`). A text is cut into tokens exactly if it has such a partition.

* `next_cases`                    — what `Cursor.next` can find.
* `step_of_next`, `next_of_step`  — one token.
* `partition_of_tokenize`         — all tokens, by induction on the run.
* `tokenize_of_partition`         — by induction on the partition.
-/

namespace ImpSyntax

/-- The place behind a text: one line more than it has line feeds, and in that line one column more
than it has characters behind its last line feed. -/
def Location.behind (text : List Char) : Location :=
  ⟨.ofNat (text.count '\n' + 1), .ofNat ((text.reverse.takeWhile (· != '\n')).length + 1)⟩

theorem Location.behind_append_singleton (text : List Char) (c : Char) :
    behind (text ++ [c]) = (behind text).next c := by
  unfold behind next
  split
  · rename_i hc
    subst hc
    simp [List.count_append, UInt64.ofNat_add]
  · rename_i hc
    simp [List.count_append, hc, UInt64.ofNat_add]

theorem Location.behind_append (text more : List Char) :
    behind (text ++ more) = (behind text).after more := by
  induction more generalizing text with
  | nil => rw [List.append_nil, after_nil]
  | cons c more ih => rw [List.append_cons, ih, behind_append_singleton, after_cons]

namespace Source

/-- The text behind `before` is gaps and lexemes in turn, and the tokens are what the lexemes stand
for, each at the place of its first character; the end of input is at the end. -/
inductive Partition : List Char → Bool → List Char → List Token → Prop where
  | last {before gap : List Char} {afterOperand : Bool} : LastGap gap →
      Partition before afterOperand gap [⟨.endOfInput, .behind (before ++ gap)⟩]
  | lexeme {before gap lexeme rest : List Char} {afterOperand : Bool} {kind : TokenKind}
      {tokens : List Token} : ClosedGap gap → lexeme ≠ [] → Decodes afterOperand lexeme kind →
      Maximal lexeme rest →
      Partition (before ++ gap ++ lexeme) kind.endsOperand rest tokens →
      Partition before afterOperand (gap ++ lexeme ++ rest)
        (⟨kind, .behind (before ++ gap)⟩ :: tokens)

/-! ## One token -/

/-- What reading one token does: behind the last lexeme the end of input is found, and else a
lexeme behind a gap. -/
inductive Step (cursor : Cursor) : Token → Cursor → Prop where
  | last : LastGap cursor.rest →
      Step cursor ⟨.endOfInput, cursor.location.after cursor.rest⟩
        ⟨[], cursor.location.after cursor.rest, false⟩
  | lexeme {gap lexeme rest : List Char} {kind : TokenKind} :
      cursor.rest = gap ++ (lexeme ++ rest) → ClosedGap gap → lexeme ≠ [] →
      Decodes cursor.afterOperand lexeme kind → Maximal lexeme rest →
      Step cursor ⟨kind, cursor.location.after gap⟩
        ⟨rest, (cursor.location.after gap).after lexeme, kind.endsOperand⟩

/-- Behind the gap that a cursor stands in front of there is nothing, or a lexeme. -/
theorem next_cases (cursor : Cursor) :
    (LastGap cursor.rest ∧
      cursor.next = (.ok ⟨.endOfInput, cursor.location.after cursor.rest⟩,
        ⟨[], cursor.location.after cursor.rest, false⟩)) ∨
    ∃ gap c cs, cursor.rest = gap ++ c :: cs ∧ ClosedGap gap ∧ splitGapItem? (c :: cs) = none ∧
      cursor.next = (Cursor.mk (c :: cs) (cursor.location.after gap) cursor.afterOperand).take
        (Lexeme.scan cursor.afterOperand c cs) := by
  have happend := splitGap_append cursor.rest
  have hgap := gap_of_splitGap cursor.rest
  have hstop := splitGapItem?_splitGap cursor.rest
  unfold Cursor.next Cursor.skipGap
  cases hsplit : splitGap cursor.rest with
  | mk gap rest =>
    rw [hsplit] at happend hgap hstop
    cases rest with
    | nil =>
      have hrest : gap = cursor.rest := by simpa using happend
      rw [← hrest]
      exact .inl ⟨hgap.elim .closed And.right, rfl⟩
    | cons c cs =>
      have hclosed : ClosedGap gap := hgap.resolve_right fun hnil => by cases hnil.1
      exact .inr ⟨gap, c, cs, happend.symm, hclosed, hstop, rfl⟩

theorem step_of_next {cursor after : Cursor} {token : Token}
    (h : cursor.next = (.ok token, after)) : Step cursor token after := by
  rcases next_cases cursor with ⟨hgap, hnext⟩ | ⟨gap, c, cs, hrest, hclosed, hstop, hnext⟩
  · rw [hnext] at h
    cases h
    exact .last hgap
  · rw [hnext, Cursor.take] at h
    cases hscan : Lexeme.scan cursor.afterOperand c cs with
    | mk outcome lexeme rest =>
      rw [hscan] at h
      cases outcome with
      | error fault => cases h
      | ok kind =>
        cases h
        obtain ⟨hdecodes, hmaximal⟩ := decodes_scan cursor.afterOperand hstop hscan
        have hlexeme := Lexeme.scan_append cursor.afterOperand c cs
        have hne := Lexeme.scan_ne_nil cursor.afterOperand c cs
        rw [hscan] at hlexeme hne
        rw [← hlexeme] at hrest
        exact .lexeme hrest hclosed hne hdecodes hmaximal

theorem next_of_step {cursor after : Cursor} {token : Token} (h : Step cursor token after) :
    cursor.next = (.ok token, after) := by
  cases h with
  | last hgap => exact Cursor.next_of_end (splitGap_last hgap)
  | lexeme hrest hgap _ hdecodes hmaximal =>
    rw [Cursor.next_of_cuts hrest hgap.isGap (hdecodes.cuts hmaximal), hdecodes.resolve]

/-! ## All tokens -/

theorem partition_of_tokenize {cursor last : Cursor} {tokens : List Token} {before : List Char}
    (h : cursor.tokenize = (.ok tokens, last)) (hlocation : cursor.location = .behind before) :
    Partition before cursor.afterOperand cursor.rest tokens := by
  fun_induction Cursor.tokenize cursor generalizing tokens last before with
  | case1 => cases h
  | case2 cursor token after hnext hend =>
    cases h
    cases step_of_next hnext with
    | last hgap =>
      rw [hlocation, ← Location.behind_append]
      exact .last hgap
    | lexeme _ _ _ hdecodes _ => exact absurd hend hdecodes.ne_end
  | case3 cursor token after hnext hend tokens' last' hrec ih =>
    cases h
    cases step_of_next hnext with
    | last hgap => exact absurd rfl hend
    | @lexeme gap lexeme rest kind hrest hgap hne hdecodes hmaximal =>
      have hbehind : (cursor.location.after gap).after lexeme =
          .behind (before ++ gap ++ lexeme) := by
        rw [Location.behind_append, Location.behind_append, hlocation]
      rw [hrest, hlocation, ← Location.behind_append, ← List.append_assoc]
      exact .lexeme hgap hne hdecodes hmaximal (ih hrec hbehind)
  | case4 cursor token after hnext hend e last' hrec ih => cases h

theorem tokenize_of_partition {before text : List Char} {afterOperand : Bool}
    {tokens : List Token} (h : Partition before afterOperand text tokens) :
    (Cursor.mk text (.behind before) afterOperand).tokenize.1 = .ok tokens := by
  induction h with
  | @last before gap afterOperand hgap =>
    have hstep : Step ⟨gap, .behind before, afterOperand⟩ _ _ := .last hgap
    rw [Cursor.tokenize_of_end (next_of_step hstep), Location.behind_append]
  | @lexeme before gap lexeme rest afterOperand kind tokens hgap hne hdecodes hmaximal _ ih =>
    have hstep : Step ⟨gap ++ lexeme ++ rest, .behind before, afterOperand⟩ _ _ :=
      .lexeme (List.append_assoc gap lexeme rest) hgap hne hdecodes hmaximal
    rw [Cursor.tokenize_of_next (next_of_step hstep) hdecodes.ne_end, ← Location.behind_append,
      ← Location.behind_append, ih]
    rfl

/-- A source text is cut into tokens exactly if it is their lexemes with gaps between them. -/
theorem tokenize_eq_ok_iff_partition {source : String} {tokens : List Token} :
    tokenize source = .ok tokens ↔ Partition [] false source.toList tokens := by
  constructor
  · intro h
    exact partition_of_tokenize (Prod.ext h rfl) rfl
  · exact tokenize_of_partition

end Source
end ImpSyntax

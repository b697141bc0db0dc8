import ImpSyntax.FrontEnd
import ImpSyntax.Proofs.Grammar.OfProgram
import ImpSyntax.Proofs.TokenStream.Accepts

/-!
# ImpSyntax.Proofs.Source.RoundTrip

The source text of a well-formed program reads as that program (`parseSource_source`). The text is
cut at its blanks into the spellings of the tokens; what is read differs from them only in the kinds
of minus, which the grammar does not tell apart.
-/

namespace ImpSyntax

open Source Grammar

/-! ## Spellings and blanks -/

/-- The kinds with a blank in front of each. -/
def behindBlanks (ks : List TokenKind) : Pieces := ks.map fun k => ([' '], k)

/-- The kinds with blanks between them. -/
def betweenBlanks : List TokenKind → Pieces
  | [] => []
  | k :: ks => ([], k) :: behindBlanks ks

theorem map_snd_behindBlanks (ks : List TokenKind) : (behindBlanks ks).map (·.2) = ks := by
  simp [behindBlanks, Function.comp_def]

theorem map_snd_betweenBlanks (ks : List TokenKind) : (betweenBlanks ks).map (·.2) = ks := by
  cases ks with
  | nil => rfl
  | cons k ks => rw [betweenBlanks, List.map_cons, map_snd_behindBlanks]

theorem textOf_behindBlanks (k : TokenKind) (ks : List TokenKind) :
    [' '].intercalate ((k :: ks).map (·.spelling.toList)) =
      k.spelling.toList ++ textOf (behindBlanks ks) [] := by
  induction ks generalizing k with
  | nil => simp [behindBlanks, textOf]
  | cons k' ks ih =>
    have htail := ih k'
    rw [List.map_cons] at htail
    rw [List.map_cons, List.map_cons, List.intercalate_cons_cons, htail]
    simp [behindBlanks, textOf]

theorem textOf_betweenBlanks (ks : List TokenKind) :
    (" ".intercalate (ks.map TokenKind.spelling)).toList = textOf (betweenBlanks ks) [] := by
  rw [String.toList_intercalate, List.map_map]
  cases ks with
  | nil => rfl
  | cons k ks => exact textOf_behindBlanks k ks

theorem isGap_blank : IsGap [' '] := isGap_nil.whiteSpace rfl

theorem separated_behindBlanks (ks : List TokenKind) :
    Separated (textOf (behindBlanks ks) []) := by
  cases ks with
  | nil =>
    intro c hc
    cases hc
  | cons k ks =>
    intro c hc
    cases hc
    rfl

theorem spaced_behindBlanks {ks : List TokenKind} (h : areSpellable ks = true) :
    Spaced [] (behindBlanks ks) := by
  induction ks with
  | nil => exact .nil isGap_nil
  | cons k ks ih =>
    rw [areSpellable_cons, Bool.and_eq_true] at h
    exact .cons isGap_blank h.1 (separated_behindBlanks ks) (ih h.2)

theorem spaced_betweenBlanks {ks : List TokenKind} (h : areSpellable ks = true) :
    Spaced [] (betweenBlanks ks) := by
  cases ks with
  | nil => exact .nil isGap_nil
  | cons k ks =>
    rw [areSpellable_cons, Bool.and_eq_true] at h
    exact .cons isGap_nil h.1 (separated_behindBlanks ks) (spaced_behindBlanks h.2)

/-! ## The kinds that are read -/

theorem recast_resolve (afterOperand : Bool) (k : TokenKind) :
    (k.resolve afterOperand).recast id = k.recast id := by
  cases k <;> cases afterOperand <;> rfl

/-- But for the kinds of minus, the kinds that are spelled are the kinds that are read. -/
theorem recast_kindsAhead_tokensOf {last : List Char} {pieces : Pieces} (h : Spaced last pieces)
    (location : Location) (afterOperand : Bool) :
    (kindsAhead (tokensOf location afterOperand pieces last)).map (TokenKind.recast id) =
      (pieces.map (·.2)).map (TokenKind.recast id) := by
  induction h generalizing location afterOperand with
  | nil _ => rw [tokensOf, kindsAhead_end rfl]; rfl
  | @cons gap k pieces _ hk _ _ ih =>
    rw [tokensOf, kindsAhead_cons (TokenKind.resolve_ne_end afterOperand hk), List.map_cons,
      List.map_cons, List.map_cons, recast_resolve, ih]

theorem tokenize_betweenBlanks {ks : List TokenKind} (h : areSpellable ks = true) :
    Source.tokenize (" ".intercalate (ks.map TokenKind.spelling)) =
      .ok (tokensOf .start false (betweenBlanks ks) []) :=
  Cursor.tokenize_textOf (spaced_betweenBlanks h) (textOf_betweenBlanks ks)

/-- A program is recovered from its source text. -/
theorem parseSource_source (p : Program) (h : p.isWellFormed = true) :
    parseSource p.source = .ok p := by
  have hspellable := Program.areSpellable_kinds h
  have htokens := tokenize_betweenBlanks hspellable
  have hkinds := recast_kindsAhead_tokensOf (spaced_betweenBlanks hspellable) .start false
  rw [map_snd_betweenBlanks] at hkinds
  obtain ⟨ts, hts⟩ := exists_kinds p.kinds
  have hparse : parse (tokensOf .start false (betweenBlanks p.kinds) []) = .ok p :=
    parse_of_ok (program_of_recast (hkinds.trans (by rw [hts])) (program_kinds h hts))
  rw [parseSource, Program.source, htokens]
  simp only [hparse]
  rfl

/-- The difference of a product and a variable; the product ends in parentheses. -/
def productMinusVariable : Program :=
  ⟨[.assign "x" (.binary .subtract
    (.binary .multiply (.identifier "a") (.binary .add (.identifier "b") (.identifier "c")))
    (.identifier "d"))]⟩

/-- The minus behind a parenthesis is lexed as a negation and read as a subtraction. -/
theorem parseSource_source_minus :
    productMinusVariable.source = "x = a * ( b + c ) - d ;" ∧
      parseSource "x = a * ( b + c ) - d ;" = .ok productMinusVariable := by
  have hsource : productMinusVariable.source = "x = a * ( b + c ) - d ;" := by decide +kernel
  have hwell : productMinusVariable.isWellFormed = true := by decide +kernel
  exact ⟨hsource, hsource ▸ parseSource_source productMinusVariable hwell⟩

end ImpSyntax

import ImpSyntax.Proofs.TokenStream.Accepts

/-!
# ImpSyntax.Proofs.TokenStream.ViablePrefix

A syntax error is found at the earliest token where it can be: the tokens in front start some
program, and no program goes on with the offending token (`parse_error_earliest`).
-/

namespace ImpSyntax

open Grammar

/-! ## The end of input -/

/-- The tokens as they are read: an end of input behind them at the place of the last one, if that
is not an end of input already. -/
def withEnd (tokens : List Token) : List Token :=
  match tokens.getLast? with
  | none => [⟨.endOfInput, .start⟩]
  | some last =>
    if last.kind = .endOfInput then tokens else tokens ++ [⟨.endOfInput, last.location⟩]

theorem ofTokens_withEnd (tokens : List Token) :
    TokenStream.ofTokens (withEnd tokens) = TokenStream.ofTokens tokens := by
  unfold withEnd
  cases hlast : tokens.getLast? with
  | none =>
    rw [List.getLast?_eq_none_iff] at hlast
    rw [hlast]
    rfl
  | some last =>
    by_cases hkind : last.kind = .endOfInput
    · simp only [hkind, if_true]
    · simp only [hkind, if_false]
      have hahead := ahead_append_end tokens last.location []
      have hstop := stop_append_end tokens last.location []
      have hplace : ((tokens.find? (·.kind = .endOfInput)).getD
          ⟨.endOfInput, last.location⟩).location = (TokenStream.ofTokens tokens).stop := by
        simp only [TokenStream.ofTokens, TokenStream.stopOf, hlast]
        cases tokens.find? (·.kind = .endOfInput) <;> rfl
      exact TokenStream.ext hahead (hstop.trans hplace)

theorem parse_withEnd (tokens : List Token) : parse (withEnd tokens) = parse tokens := by
  rw [parse, ofTokens_withEnd, parse]

theorem exists_end (tokens : List Token) :
    ∃ front stop behind, withEnd tokens = front ++ stop :: behind ∧ stop.kind = .endOfInput ∧
      ∀ t ∈ front, t.kind ≠ .endOfInput := by
  have hmem : ∃ t ∈ withEnd tokens, t.kind = .endOfInput := by
    unfold withEnd
    cases hlast : tokens.getLast? with
    | none => exact ⟨_, List.mem_singleton_self _, rfl⟩
    | some last =>
      by_cases hkind : last.kind = .endOfInput
      · simp only [hkind, if_true]
        exact ⟨last, List.mem_of_getLast? hlast, hkind⟩
      · simp only [hkind, if_false]
        exact ⟨_, List.mem_append_right _ (List.mem_singleton_self _), rfl⟩
  cases hfind : (withEnd tokens).find? (·.kind = .endOfInput) with
  | none =>
    obtain ⟨t, ht, hkind⟩ := hmem
    have hnone := List.find?_eq_none.1 hfind t ht
    simp [hkind] at hnone
  | some stop =>
    obtain ⟨hstop, front, behind, hsplit, hfront⟩ := List.find?_eq_some_iff_append.1 hfind
    exact ⟨front, stop, behind, hsplit, by simpa using hstop, by simpa using hfront⟩

/-! ## The offending token -/

/-- Tokens of given kinds. -/
theorem kindsAhead_map {ks : List TokenKind} (h : .endOfInput ∉ ks) (place : Location) :
    kindsAhead (ks.map fun k => ⟨k, place⟩) = ks := by
  have hends : ∀ t ∈ ks.map (fun k => (⟨k, place⟩ : Token)), t.kind ≠ .endOfInput := by
    intro t ht
    obtain ⟨k, hk, rfl⟩ := List.mem_map.1 ht
    exact ne_of_mem_of_not_mem hk h
  have hall := kindsAhead_append hends []
  rw [List.append_nil] at hall
  rw [hall, List.map_map]
  simp [kindsAhead, Function.comp_def]

theorem exists_completion {front : List Token} (h : ∀ t ∈ front, t.kind ≠ .endOfInput)
    {more : List TokenKind} {t : Tree} (hderives : DerivesProgram (kinds front ++ more) t) :
    ∃ behind program, parse (front ++ behind) = .ok program := by
  have hmore : .endOfInput ∉ more := fun hmem =>
    not_end_of_program hderives (List.mem_append_right _ hmem)
  refine ⟨more.map fun k => ⟨k, .start⟩, ?_⟩
  rw [← kindsAhead_map hmore .start, ← kindsAhead_append h] at hderives
  have hparse := map_parse_eq_ok_iff.2 hderives
  cases hresult : parse (front ++ more.map fun k => ⟨k, .start⟩) with
  | ok p => exact ⟨p, rfl⟩
  | error e =>
    rw [hresult] at hparse
    cases hparse

/-- Where the rule for programs fails, the error is at the token that is next, whatever comes behind
that token. -/
theorem parse_error_at {front rest : List Token} (h : ∀ t ∈ front, t.kind ≠ .endOfInput)
    {token : Token} {behind : List Token} {expected : Expected}
    (hrest : rest = (TokenStream.ofTokens (token :: behind)).ahead)
    (hsame : ∀ rest', (kinds rest').head? = (kinds rest).head? →
      programRule (front ++ rest') = ⟨.error expected, rest'⟩) (more : List Token) :
    parse (front ++ token :: more) = .error ⟨expected, token.kind, token.location⟩ := by
  have hhead : (kindsAhead (token :: more)).head? = (kinds rest).head? := by
    rw [hrest, head?_kindsAhead]
    exact (head?_kindsAhead (token :: behind)).symm
  have hprogram := hsame (TokenStream.ofTokens (token :: more)).ahead hhead
  have htokens := TokenStream.ofTokens_append h token more
  have hahead : (TokenStream.ofTokens (front ++ token :: more)).ahead =
      front ++ (TokenStream.ofTokens (token :: more)).ahead := by rw [htokens]
  have hstop : (TokenStream.ofTokens (front ++ token :: more)).stop =
      (TokenStream.ofTokens (token :: more)).stop := by rw [htokens]
  rw [← hahead] at hprogram
  rw [parse_of_error hprogram, hstop, TokenStream.head_ofTokens]

/-- Behind tokens that start some program there is one whose error does not depend on what comes
behind it. -/
theorem exists_offending {tokens : List Token} {e : SyntaxError} (h : parse tokens = .error e) :
    ∃ front token behind, withEnd tokens = front ++ token :: behind ∧
      (∀ t ∈ front, t.kind ≠ .endOfInput) ∧
      (∃ more t, DerivesProgram (kinds front ++ more) t) ∧
      e.found = token.kind ∧ e.location = token.location ∧
      ∀ more, parse (front ++ token :: more) = .error e := by
  obtain ⟨front, stop, behind, hend, hstop, hfront⟩ := exists_end tokens
  have hahead : (TokenStream.ofTokens (withEnd tokens)).ahead = front := by
    rw [hend, TokenStream.ofTokens_append_stop hfront hstop]
  rw [← parse_withEnd] at h
  cases hprogram : programRule (TokenStream.ofTokens (withEnd tokens)).ahead with
  | mk result rest =>
    cases result with
    | ok p =>
      rw [parse_of_ok hprogram] at h
      cases h
    | error expected =>
      obtain ⟨taken, hsplit, hviable, hsame⟩ := viable_of_program hprogram
      rw [hahead] at hsplit
      subst hsplit
      have htaken : ∀ t ∈ taken, t.kind ≠ .endOfInput :=
        fun t ht => hfront t (List.mem_append_left _ ht)
      have hleft : rest = (TokenStream.ofTokens (rest ++ stop :: behind)).ahead := by
        have hrest : ∀ t ∈ rest, t.kind ≠ .endOfInput :=
          fun t ht => hfront t (List.mem_append_right _ ht)
        rw [TokenStream.ofTokens_append_stop hrest hstop]
      cases hnext : rest ++ stop :: behind with
      | nil => simp at hnext
      | cons token behind' =>
        rw [hnext] at hleft
        rw [List.append_assoc, hnext] at hend
        have herror := parse_error_at htaken hleft fun rest' => hsame taken rest' rfl
        rw [hend, herror] at h
        cases h
        exact ⟨taken, token, behind', hend, htaken, hviable, rfl, rfl, herror⟩

/-- A syntax error is at one of the tokens up to the first end of input, it names that token, the
tokens in front of it start some program, and with that token in place the error is the same
whatever comes behind. -/
theorem parse_error_earliest (tokens : List Token) {e : SyntaxError} (h : parse tokens = .error e) :
    ∃ k token, (withEnd tokens)[k]? = some token ∧
      k ≤ (withEnd tokens).findIdx (·.kind = .endOfInput) ∧ e.location = token.location ∧
      (∃ wanted, e.message = wanted ++ ", found " ++ token.kind.name) ∧
      (∃ more program, parse ((withEnd tokens).take k ++ more) = .ok program) ∧
      ∀ more, parse ((withEnd tokens).take (k + 1) ++ more) = .error e := by
  obtain ⟨front, token, behind, hend, hfront, ⟨more, t, hderives⟩, hfound, hplace, herror⟩ :=
    exists_offending h
  refine ⟨front.length, token, ?_, ?_, hplace, ⟨e.expected.text, ?_⟩, ?_, ?_⟩
  · rw [hend, List.getElem?_append_right (Nat.le_refl _), Nat.sub_self]
    rfl
  · have hnone : front.findIdx (·.kind = .endOfInput) = front.length :=
      List.findIdx_eq_length_of_false (by simpa using hfront)
    have hle : front.findIdx (·.kind = .endOfInput) ≤
        (front ++ token :: behind).findIdx (·.kind = .endOfInput) :=
      (List.prefix_append front (token :: behind)).findIdx_le
    rw [hend]
    omega
  · rw [SyntaxError.message, hfound]
  · rw [hend, List.take_left]
    exact exists_completion hfront hderives
  · intro more
    rw [hend, List.take_length_add_append, List.append_assoc]
    exact herror more

/-- `x = 1 < 2 < 3;` -/
def comparisonOfComparison : List Token :=
  [⟨.identifier "x", ⟨1, 1⟩⟩, ⟨.assign, ⟨1, 3⟩⟩, ⟨.integer "1", ⟨1, 5⟩⟩, ⟨.less, ⟨1, 7⟩⟩,
    ⟨.integer "2", ⟨1, 9⟩⟩, ⟨.less, ⟨1, 11⟩⟩, ⟨.integer "3", ⟨1, 13⟩⟩, ⟨.semicolon, ⟨1, 14⟩⟩]

/-- The second comparison is the offending token: in front of it there could be an end of the
statement, and behind it nothing helps. -/
theorem parse_error_earliest_comparison :
    parse comparisonOfComparison = .error ⟨.mark .semicolon .assignment, .less, ⟨1, 11⟩⟩ ∧
      (withEnd comparisonOfComparison)[5]? = some ⟨.less, ⟨1, 11⟩⟩ ∧
      parse ((withEnd comparisonOfComparison).take 5 ++ [⟨.semicolon, ⟨1, 11⟩⟩]) =
        .ok ⟨[.assign "x" (.binary .less (.integer "1") (.integer "2"))]⟩ ∧
      ∀ more, parse ((withEnd comparisonOfComparison).take 6 ++ more) =
        .error ⟨.mark .semicolon .assignment, .less, ⟨1, 11⟩⟩ := by
  have h : parse comparisonOfComparison =
      .error ⟨.mark .semicolon .assignment, .less, ⟨1, 11⟩⟩ := by cbv
  obtain ⟨k, token, htoken, hle, hplace, -, -, hsame⟩ :=
    parse_error_earliest comparisonOfComparison h
  have honly : ∀ k ≤ 8, (withEnd comparisonOfComparison)[k]?.map (·.location) =
      some ⟨1, 11⟩ → k = 5 := by decide
  have hk : k = 5 := honly k hle (by rw [htoken, Option.map_some, ← hplace])
  subst hk
  exact ⟨h, by decide, by cbv, hsame⟩

end ImpSyntax

import ImpSyntax.Proofs.Grammar.Failure
import ImpSyntax.Proofs.Grammar.Program
import ImpSyntax.TokenStream
import ImpSyntax.Tree.OfProgram

/-!
# ImpSyntax.Proofs.TokenStream.Accepts

Which lists of tokens are programs: those whose tokens before the first end of input are derived by
the grammar, with the tree of the derivation (`parse_eq_ok_iff_derivesProgram`).
-/

namespace ImpSyntax

open Grammar

/-- The kinds of the tokens before the first end of input. -/
def kindsAhead (tokens : List Token) : List TokenKind :=
  (tokens.takeWhile (·.kind ≠ .endOfInput)).map (·.kind)

theorem kindsAhead_append {front : List Token} (h : ∀ t ∈ front, t.kind ≠ .endOfInput)
    (behind : List Token) :
    kindsAhead (front ++ behind) = front.map (·.kind) ++ kindsAhead behind := by
  have hall : ∀ t ∈ front, decide (t.kind ≠ .endOfInput) = true := by simpa using h
  rw [kindsAhead, List.takeWhile_append_of_pos hall, List.map_append, kindsAhead]

theorem kindsAhead_cons {token : Token} (h : token.kind ≠ .endOfInput) (behind : List Token) :
    kindsAhead (token :: behind) = token.kind :: kindsAhead behind := by
  have hfront : ∀ t ∈ [token], t.kind ≠ .endOfInput := by simpa using h
  exact kindsAhead_append hfront behind

theorem kindsAhead_end {stop : Token} (h : stop.kind = .endOfInput) (behind : List Token) :
    kindsAhead (stop :: behind) = [] := by
  simp [kindsAhead, h]

/-- The first token ahead is the first token, unless that is the end of input. -/
theorem head?_kindsAhead (tokens : List Token) :
    (kindsAhead tokens).head? = (tokens.head?.map (·.kind)).filter (· ≠ .endOfInput) := by
  cases tokens with
  | nil => rfl
  | cons token behind =>
    by_cases hkind : token.kind = .endOfInput
    · simp [kindsAhead_end hkind, hkind, Option.filter]
    · simp [kindsAhead_cons hkind, hkind, Option.filter]

/-! ## Streams of tokens -/

namespace TokenStream

/-- The token that comes next, the end of input if none is ahead. -/
def head (stream : TokenStream) : Token :=
  match stream.ahead with
  | [] => ⟨.endOfInput, stream.stop⟩
  | token :: _ => token

theorem head_eq (stream : TokenStream) :
    stream.head = stream.ahead.head?.getD ⟨.endOfInput, stream.stop⟩ := by
  unfold head
  cases stream.ahead <;> rfl

theorem ahead_cons {token : Token} (h : token.kind ≠ .endOfInput) (behind : List Token) :
    (ofTokens (token :: behind)).ahead = token :: (ofTokens behind).ahead := by
  simp [ofTokens, h]

theorem ahead_end {stop : Token} (h : stop.kind = .endOfInput) (behind : List Token) :
    (ofTokens (stop :: behind)).ahead = [] := by
  simp [ofTokens, h]

theorem stopOf_cons (t : Token) (tokens : List Token) :
    stopOf (t :: tokens) =
      if t.kind = .endOfInput ∨ tokens = [] then t.location else stopOf tokens := by
  by_cases hend : t.kind = .endOfInput
  · simp [stopOf, hend]
  · cases tokens with
    | nil => simp [stopOf, hend]
    | cons next tokens => simp [stopOf, hend, List.getLast?_cons_cons]

theorem head_ofTokens (token : Token) (behind : List Token) :
    (ofTokens (token :: behind)).head = token := by
  obtain ⟨kind, place⟩ := token
  by_cases hend : kind = .endOfInput
  · subst hend
    simp [head, ofTokens, stopOf_cons]
  · simp [head, ofTokens, hend]

/-- Tokens that are no end of input are in front of the stream of those behind them. -/
theorem ofTokens_append {front : List Token} (h : ∀ t ∈ front, t.kind ≠ .endOfInput)
    (token : Token) (behind : List Token) :
    ofTokens (front ++ token :: behind) =
      ⟨front ++ (ofTokens (token :: behind)).ahead, (ofTokens (token :: behind)).stop⟩ := by
  induction front with
  | nil => rfl
  | cons t front ih =>
    rw [List.forall_mem_cons] at h
    have hfront := ih h.2
    have hahead := congrArg TokenStream.ahead hfront
    have hstop := congrArg TokenStream.stop hfront
    refine TokenStream.ext ?_ ?_
    · exact (ahead_cons h.1 _).trans (congrArg (t :: ·) hahead)
    · change stopOf (t :: (front ++ token :: behind)) = _
      rw [stopOf_cons, if_neg (by simp [h.1])]
      exact hstop

/-- What is behind an end of input is not in the stream. -/
theorem ofTokens_append_stop {front : List Token} (h : ∀ t ∈ front, t.kind ≠ .endOfInput)
    {stop : Token} (hstop : stop.kind = .endOfInput) (behind : List Token) :
    ofTokens (front ++ stop :: behind) = ⟨front, stop.location⟩ := by
  have hnone : ofTokens (stop :: behind) = ⟨[], stop.location⟩ := by
    simp [ofTokens, stopOf_cons, hstop]
  rw [ofTokens_append h, hnone, List.append_nil]

/-! ## Runs of the grammar -/

theorem program_of_ok {stream : TokenStream} {p : Program} {rest : List Token}
    (h : programRule stream.ahead = ⟨.ok p, rest⟩) :
    stream.program = (.ok p, ⟨rest, stream.stop⟩) := by
  rw [programRule] at h
  rw [TokenStream.program]
  cases hprogram : Grammar.program stream.ahead with
  | ok found =>
    rw [hprogram] at h
    cases h
    rfl
  | error failure =>
    rw [hprogram] at h
    cases h

/-- The error is at the token that is next then, since the grammar names it. -/
theorem program_of_error {stream : TokenStream} {expected : Expected} {rest : List Token}
    (h : programRule stream.ahead = ⟨.error expected, rest⟩) :
    stream.program = (.error ⟨expected, (mk rest stream.stop).head.kind,
      (mk rest stream.stop).head.location⟩, ⟨rest, stream.stop⟩) := by
  have hfailure := eq_error_of_outcome (namesNext_program stream.ahead) h
  rw [TokenStream.program, hfailure, head_eq]
  rfl

end TokenStream

theorem parse_of_ok {tokens rest : List Token} {p : Program}
    (h : programRule (TokenStream.ofTokens tokens).ahead = ⟨.ok p, rest⟩) :
    parse tokens = .ok p := by
  rw [parse, TokenStream.program_of_ok h]

theorem parse_of_error {tokens rest : List Token} {expected : Expected}
    (h : programRule (TokenStream.ofTokens tokens).ahead = ⟨.error expected, rest⟩) :
    parse tokens = .error
      ⟨expected, (TokenStream.mk rest (TokenStream.ofTokens tokens).stop).head.kind,
        (TokenStream.mk rest (TokenStream.ofTokens tokens).stop).head.location⟩ := by
  rw [parse, TokenStream.program_of_error h]

theorem map_parse_eq_ok_iff {tokens : List Token} {tree : Tree} :
    (parse tokens).map Program.toTree = .ok tree ↔ DerivesProgram (kindsAhead tokens) tree := by
  refine Iff.trans ?_ (@program_eq_ok_iff (TokenStream.ofTokens tokens).ahead tree)
  cases hprogram : programRule (TokenStream.ofTokens tokens).ahead with
  | mk result rest =>
    cases result with
    | ok p =>
      rw [parse_of_ok hprogram]
      constructor <;> intro h <;> cases h <;> rfl
    | error expected =>
      rw [parse_of_error hprogram]
      constructor <;> intro h <;> cases h

theorem ahead_append_end (front : List Token) (stop : Location) (behind : List Token) :
    (TokenStream.ofTokens (front ++ ⟨.endOfInput, stop⟩ :: behind)).ahead =
      (TokenStream.ofTokens front).ahead := by
  change (front ++ ⟨.endOfInput, stop⟩ :: behind).takeWhile (·.kind ≠ .endOfInput) =
    front.takeWhile (·.kind ≠ .endOfInput)
  induction front with
  | nil => simp
  | cons t front ih =>
    by_cases ht : t.kind = .endOfInput
    · simp [ht]
    · simpa [ht] using ih

theorem stop_append_end (front : List Token) (stop : Location) (behind : List Token) :
    (TokenStream.ofTokens (front ++ ⟨.endOfInput, stop⟩ :: behind)).stop =
      ((front.find? (·.kind = .endOfInput)).getD ⟨.endOfInput, stop⟩).location := by
  simp only [TokenStream.ofTokens, TokenStream.stopOf, List.find?_append]
  cases front.find? (·.kind = .endOfInput) <;> simp

theorem ofTokens_append_end (front : List Token) (stop : Location) (behind : List Token) :
    TokenStream.ofTokens (front ++ ⟨.endOfInput, stop⟩ :: behind) =
      TokenStream.ofTokens (front ++ [⟨.endOfInput, stop⟩]) := by
  have hahead := (ahead_append_end front stop behind).trans (ahead_append_end front stop []).symm
  have hstop := (stop_append_end front stop behind).trans (stop_append_end front stop []).symm
  exact TokenStream.ext hahead hstop

/-- A list of tokens is a program with a given tree exactly if the grammar derives its tokens before
the first end of input with that tree. What is behind the first end of input does not matter. -/
theorem parse_eq_ok_iff_derivesProgram (tokens : List Token) (tree : Tree) :
    ((parse tokens).map Program.toTree = .ok tree ↔ DerivesProgram (kindsAhead tokens) tree) ∧
      ∀ (stop : Location) (behind : List Token),
        parse (tokens ++ ⟨.endOfInput, stop⟩ :: behind) =
          parse (tokens ++ [⟨.endOfInput, stop⟩]) := by
  refine ⟨map_parse_eq_ok_iff, fun stop behind => ?_⟩
  rw [parse, parse, ofTokens_append_end]

end ImpSyntax

import ImpSyntax.Proofs.Grammar.Loop
import ImpSyntax.Proofs.TokenStream.Session

/-!
# ImpSyntax.Proofs.TokenStream.Lookahead

The rules by the indices of the tokens. A rule that is started at a token and finds something has
taken at least one token, has not gone beyond the end of input, and has seen no token but those that
it took and the next one (`advances_of_le_endIndex`). A list of statements may take none, but then
it stands in front of a closing brace or the end. That is why the loops of the rules end.

* `runAt`    — a rule started at a token, and where it stops.
* `RunsTo`   — the tokens between the two indices are those that the rule takes.
* `Sees`     — a run does not depend on tokens that it has not come to.
* `Advances` — all rules at one token.
-/

namespace ImpSyntax

open Grammar

variable {α β : Type}

/-- The tokens from index `p` to the first end of input behind it. -/
def aheadAt (tokens : List Token) (p : Nat) : List Token :=
  (TokenStream.ofTokens (tokens.drop p)).ahead

/-- What a rule finds from the token with index `p` on, and the index of the token that is next
then. -/
def runAt (f : Rule α) (tokens : List Token) (p : Nat) : Except Expected α × Nat :=
  let ahead := aheadAt tokens p
  ((f ahead).result, p + (ahead.length - (f ahead).rest.length))

/-- From the token with index `p` on, the rule takes the tokens up to the one with index `q`, leaves
that one and those behind it, and finds `v`. -/
def RunsTo (f : Rule α) (tokens : List Token) (p : Nat) (v : α) (q : Nat) : Prop :=
  ∃ taken, q = p + taken.length ∧ aheadAt tokens p = taken ++ aheadAt tokens q ∧
    f (taken ++ aheadAt tokens q) = ⟨.ok v, aheadAt tokens q⟩

/-- A run from `p` to `q` is within the tokens, it takes the tokens from `p` to `q`, and it is the
same on any tokens that are of the same kinds from `p` to `q`, the token at `q` included. -/
structure Sees (f : Rule α) (tokens : List Token) (p : Nat) (v : α) (q : Nat) : Prop where
  inside : q ≤ endIndex tokens
  takes : RunsTo f (withEnd tokens) p v q
  only : ∀ other : List Token,
    (∀ i, p ≤ i → i ≤ q → other[i]?.map (·.kind) = (withEnd tokens)[i]?.map (·.kind)) →
      runAt f other p = (.ok v, q) ∧ RunsTo f other p v q

/-- Where it finds something, the rule takes a token at least. -/
def Progresses (f : Rule α) (tokens : List Token) (p : Nat) : Prop :=
  ∀ v q, runAt f (withEnd tokens) p = (.ok v, q) → p < q ∧ Sees f tokens p v q

/-- The loop that starts at `p` ends, with at most as many rounds as there are tokens in front of
the end of input, and the rule finds what the rounds find, put together. -/
def LoopEnds (round : List Token → Option (Outcome α)) (f : Rule β) (put : List α → β)
    (tokens : List Token) (p : Nat) : Prop :=
  ∃ vs out, Rounds round (aheadAt (withEnd tokens) p) vs out ∧ p + vs.length ≤ endIndex tokens ∧
    f (aheadAt (withEnd tokens) p) = ⟨out.result.map fun _ => put vs, out.rest⟩

/-- What the rules do from the token with index `p` on. -/
structure Advances (tokens : List Token) (p : Nat) : Prop where
  expr : ∀ level, Progresses (exprRule level) tokens p
  unary : Progresses unaryRule tokens p
  primary : Progresses primaryRule tokens p
  condition : ∀ word inside, Progresses (conditionRule word inside) tokens p
  item : Progresses printItemRule tokens p
  stmt : Progresses stmtRule tokens p
  /-- There may be no statement, but what ends the list is a closing brace or the end of input. -/
  stmts : ∀ body q, runAt stmtsRule (withEnd tokens) p = (.ok body, q) →
    p ≤ q ∧ Sees stmtsRule tokens p body q ∧
      ∃ token, (withEnd tokens)[q]? = some token ∧
        (token.kind = .rightBrace ∨ token.kind = .endOfInput)
  stmtLoop : LoopEnds stmtRound stmtsRule id tokens p
  /-- At a level whose operators do not chain there is no loop. -/
  operatorLoop : ∀ level left, (∀ op : BinaryOp, op.level = level + 1 → op.chains = true) →
    LoopEnds (operatorRound level) (operatorsRule level left) (joinOperators left) tokens p
  itemLoop : LoopEnds itemRound morePrintItemsRule id tokens p

/-! ## The tokens ahead -/

theorem aheadAt_withEnd {tokens : List Token} {p : Nat} (h : p ≤ endIndex tokens) :
    aheadAt (withEnd tokens) p = (TokenStream.ofTokens tokens).ahead.drop p := by
  obtain ⟨behind, hstands⟩ := TokenStream.stands_ofTokens tokens
  have hfrom := hstands.of_ahead (List.take_append_drop p _).symm
  have hposition := hfrom.position
  rw [TokenStream.endIndex_eq] at h
  rw [List.nil_append, List.length_take, Nat.min_eq_left h] at hposition
  have hfresh := hfrom.fresh
  rw [hposition] at hfresh
  exact congrArg TokenStream.ahead hfresh

theorem length_aheadAt {tokens : List Token} {p : Nat} (h : p ≤ endIndex tokens) :
    p + (aheadAt (withEnd tokens) p).length = endIndex tokens := by
  rw [aheadAt_withEnd h, List.length_drop]
  rw [TokenStream.endIndex_eq] at h ⊢
  omega

/-- Behind some of the tokens ahead, the others are ahead. -/
theorem ahead_drop {tokens taken rest : List Token}
    (h : (TokenStream.ofTokens tokens).ahead = taken ++ rest) :
    (TokenStream.ofTokens (tokens.drop taken.length)).ahead = rest := by
  induction taken generalizing tokens with
  | nil => exact h
  | cons t taken ih =>
    cases tokens with
    | nil => cases h
    | cons token tokens =>
      by_cases hkind : token.kind = .endOfInput
      · rw [TokenStream.ahead_end hkind] at h
        cases h
      · rw [TokenStream.ahead_cons hkind, List.cons_append, List.cons.injEq] at h
        exact ih h.2

theorem aheadAt_add {tokens taken rest : List Token} {p : Nat}
    (h : aheadAt tokens p = taken ++ rest) : aheadAt tokens (p + taken.length) = rest := by
  have hrest := ahead_drop h
  rwa [List.drop_drop] at hrest

/-- The kinds of some tokens and of the next one are told by their indices. -/
theorem ahead_of_same {taken rest tokens other : List Token}
    (h : (TokenStream.ofTokens tokens).ahead = taken ++ rest)
    (hsame : ∀ i ≤ taken.length, other[i]?.map (·.kind) = tokens[i]?.map (·.kind)) :
    ∃ taken' rest', (TokenStream.ofTokens other).ahead = taken' ++ rest' ∧
      kinds taken' = kinds taken ∧ (kinds rest').head? = (kinds rest).head? := by
  induction taken generalizing tokens other with
  | nil =>
    -- an end of input behind the tokens taken is one in both lists
    have hhead := hsame 0 (Nat.le_refl _)
    rw [← List.head?_eq_getElem?, ← List.head?_eq_getElem?] at hhead
    refine ⟨[], _, rfl, rfl, ?_⟩
    rw [List.nil_append] at h
    rw [← h]
    change (kindsAhead other).head? = (kindsAhead tokens).head?
    rw [head?_kindsAhead, head?_kindsAhead, hhead]
  | cons t taken ih =>
    cases tokens with
    | nil => cases h
    | cons token tokens =>
      have hkind : token.kind ≠ .endOfInput := fun hend => by
        rw [TokenStream.ahead_end hend] at h
        cases h
      rw [TokenStream.ahead_cons hkind, List.cons_append, List.cons.injEq] at h
      obtain ⟨rfl, hbehind⟩ := h
      cases other with
      | nil => cases hsame 0 (Nat.zero_le _)
      | cons token' other =>
        have hkind' : token'.kind = token.kind := by simpa using hsame 0 (Nat.zero_le _)
        obtain ⟨taken', rest', hother, htaken, hhead⟩ := ih hbehind fun i hi => by
          simpa using hsame (i + 1) (Nat.succ_le_succ hi)
        refine ⟨token' :: taken', rest', ?_, ?_, hhead⟩
        · rw [TokenStream.ahead_cons (hkind' ▸ hkind), hother, List.cons_append]
        · exact List.cons_eq_cons.2 ⟨hkind', htaken⟩

/-! ## Runs -/

theorem runsTo_of_taken {f : Rule α} {tokens : List Token} {p : Nat} {v : α}
    {taken rest : List Token} (h : aheadAt tokens p = taken ++ rest)
    (hf : f (taken ++ rest) = ⟨.ok v, rest⟩) : RunsTo f tokens p v (p + taken.length) := by
  have hrest := aheadAt_add h
  exact ⟨taken, rfl, by rw [hrest, h], by rw [hrest, hf]⟩

theorem RunsTo.runAt {f : Rule α} {tokens : List Token} {p q : Nat} {v : α}
    (h : RunsTo f tokens p v q) : runAt f tokens p = (.ok v, q) := by
  obtain ⟨taken, rfl, hahead, hf⟩ := h
  simp only [ImpSyntax.runAt, hahead, hf, List.length_append, Nat.add_sub_cancel]

section run

variable {f : Rule α} {L : Phrase α} {tokens : List Token} {p q : Nat} {v : α}

/-- A rule that reads a language stops behind the tokens that it takes. -/
theorem exists_taken_of_runAt (hf : Reads L f (aheadAt tokens p))
    (h : runAt f tokens p = (.ok v, q)) :
    ∃ taken rest, aheadAt tokens p = taken ++ rest ∧ q = p + taken.length ∧
      ∀ taken' rest', kinds taken' = kinds taken → (kinds rest').head? = (kinds rest).head? →
        f (taken' ++ rest') = ⟨.ok v, rest'⟩ := by
  obtain ⟨taken, hreading⟩ := hf
  obtain ⟨hresult, hstop⟩ := Prod.mk.inj h
  have hsplit := hreading.split
  have hlength := congrArg List.length hsplit
  rw [List.length_append] at hlength
  refine ⟨taken, _, hsplit, by omega, fun taken' rest' htaken hrest => ?_⟩
  rw [hreading.lookahead taken' rest' htaken hrest, hresult]

theorem sees_of_runAt (hp : p ≤ endIndex tokens)
    (hf : Reads L f (aheadAt (withEnd tokens) p))
    (h : runAt f (withEnd tokens) p = (.ok v, q)) : p ≤ q ∧ Sees f tokens p v q := by
  obtain ⟨taken, rest, hsplit, rfl, hlookahead⟩ := exists_taken_of_runAt hf h
  refine ⟨Nat.le_add_right _ _, ?_, runsTo_of_taken hsplit (hlookahead _ _ rfl rfl), ?_⟩
  · have hlength := length_aheadAt hp
    rw [hsplit, List.length_append] at hlength
    omega
  · intro other hsame
    have hdrop : ∀ i ≤ taken.length, (other.drop p)[i]?.map (·.kind) =
        ((withEnd tokens).drop p)[i]?.map (·.kind) := by
      intro i hi
      rw [List.getElem?_drop, List.getElem?_drop]
      exact hsame (p + i) (Nat.le_add_right _ _) (Nat.add_le_add_left hi p)
    obtain ⟨taken', rest', hother, htaken, hhead⟩ := ahead_of_same hsplit hdrop
    have hruns := runsTo_of_taken hother (hlookahead _ _ htaken hhead)
    have hlength : taken'.length = taken.length := by
      simpa using congrArg List.length htaken
    rw [hlength] at hruns
    exact ⟨hruns.runAt, hruns⟩

/-- Rules that read and leave less than they were given progress. -/
theorem progresses_of_reads (hp : p ≤ endIndex tokens)
    (hf : Reads L f (aheadAt (withEnd tokens) p))
    (hshort : ∀ ts v, (f ts).result = .ok v → (f ts).rest.length < ts.length) :
    Progresses f tokens p := by
  intro v q h
  refine ⟨?_, (sees_of_runAt hp hf h).2⟩
  obtain ⟨hresult, hstop⟩ := Prod.mk.inj h
  have hless := hshort _ v hresult
  omega

theorem loopEnds_of_takesToken {round : List Token → Option (Outcome α)} {g : Rule β}
    {put : List α → β} (hp : p ≤ endIndex tokens) (hround : TakesToken round)
    (hg : ∀ {ts vs out}, Rounds round ts vs out →
      g ts = ⟨out.result.map fun _ => put vs, out.rest⟩) : LoopEnds round g put tokens p := by
  obtain ⟨vs, out, hrounds, hle⟩ := exists_rounds hround (aheadAt (withEnd tokens) p)
  have hlength := length_aheadAt hp
  exact ⟨vs, out, hrounds, by omega, hg hrounds⟩

end run

theorem eq_of_closesStmts {token : Token} {behind : List Token}
    (h : closesStmts (kindsAhead (token :: behind)) = true) :
    token.kind = .rightBrace ∨ token.kind = .endOfInput := by
  by_cases hkind : token.kind = .endOfInput
  · exact .inr hkind
  · rw [kindsAhead_cons hkind] at h
    exact .inl (eq_of_beq h)

theorem closes_of_sees {tokens : List Token} {p q : Nat} {body : List Stmt}
    (h : Sees stmtsRule tokens p body q) :
    ∃ token, (withEnd tokens)[q]? = some token ∧
      (token.kind = .rightBrace ∨ token.kind = .endOfInput) := by
  obtain ⟨taken, -, -, hstmts⟩ := h.takes
  obtain ⟨behind, hstands⟩ := TokenStream.stands_ofTokens tokens
  have hlt := Nat.lt_of_le_of_lt h.inside hstands.endIndex_lt
  have hcloses := closesStmts_of_stmtsRule hstmts
  rw [aheadAt, List.drop_eq_getElem_cons hlt] at hcloses
  exact ⟨_, List.getElem?_eq_getElem hlt, eq_of_closesStmts hcloses⟩

/-- From every token up to the end of input, the rules advance. -/
theorem advances_of_le_endIndex (tokens : List Token) {p : Nat} (h : p ≤ endIndex tokens) :
    Advances tokens p where
  expr level := progresses_of_reads h (reads_expr level _) fun _ _ => outcome_length
  unary := progresses_of_reads h (reads_expr_all.2.2.1 _) fun _ _ => outcome_length
  primary := progresses_of_reads h (reads_expr_all.2.2.2 _) fun _ _ => outcome_length
  condition word inside :=
    progresses_of_reads h (reads_condition word inside _) fun _ _ => conditionRule_length
  item := progresses_of_reads h (reads_item _) fun _ _ => outcome_length
  stmt := progresses_of_reads h (reads_stmt_all.1 _) fun _ _ => outcome_length
  stmts _ _ hrun :=
    have ⟨hle, hsees⟩ := sees_of_runAt h (reads_stmts _) hrun
    ⟨hle, hsees, closes_of_sees hsees⟩
  stmtLoop := loopEnds_of_takesToken h takesToken_stmtRound stmtsRule_of_rounds
  operatorLoop level left hchains :=
    loopEnds_of_takesToken h (takesToken_operatorRound level) fun hrounds =>
      operatorsRule_of_rounds hchains hrounds left
  itemLoop := loopEnds_of_takesToken h takesToken_itemRound morePrintItemsRule_of_rounds

/-- A conditional without an else, between braces. -/
def bracedConditional : List Token :=
  [⟨.leftBrace, ⟨1, 1⟩⟩, ⟨.ifWord, ⟨1, 3⟩⟩, ⟨.leftParen, ⟨1, 6⟩⟩, ⟨.identifier "a", ⟨1, 7⟩⟩,
    ⟨.rightParen, ⟨1, 8⟩⟩, ⟨.semicolon, ⟨1, 9⟩⟩, ⟨.rightBrace, ⟨1, 11⟩⟩, ⟨.endOfInput, ⟨1, 12⟩⟩]

theorem advances_of_le_endIndex_conditional :
    1 ≤ endIndex bracedConditional ∧
      runAt stmtRule (withEnd bracedConditional) 1 =
        (.ok (.ifThen (.identifier "a") .empty), 6) ∧
      RunsTo stmtRule (withEnd bracedConditional) 1 (.ifThen (.identifier "a") .empty) 6 ∧
      ∀ other : List Token,
        (∀ i, 1 ≤ i → i ≤ 6 →
          other[i]?.map (·.kind) = (withEnd bracedConditional)[i]?.map (·.kind)) →
            runAt stmtRule other 1 = (.ok (.ifThen (.identifier "a") .empty), 6) ∧
              RunsTo stmtRule other 1 (.ifThen (.identifier "a") .empty) 6 := by
  have hstart : 1 ≤ endIndex bracedConditional := by decide
  have hrun : runAt stmtRule (withEnd bracedConditional) 1 =
      (.ok (.ifThen (.identifier "a") .empty), 6) := by cbv
  obtain ⟨-, hsees⟩ := (advances_of_le_endIndex bracedConditional hstart).stmt _ _ hrun
  exact ⟨hstart, hrun, hsees.takes, hsees.only⟩

end ImpSyntax

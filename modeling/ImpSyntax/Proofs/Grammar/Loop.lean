import ImpSyntax.Proofs.Grammar.Rule

/-!
# ImpSyntax.Proofs.Grammar.Loop

The rules that go on as long as they can: the statements of a list, the operators of a level, and
the items of a print statement behind the first one. Each of them is a loop, and a loop ends because
a round of it takes a token (`exists_rounds`).

* `Rounds`                     — a run of a loop, one round after the other, up to where it stops.
* `stmtRound`, `operatorRound`, `itemRound` — one round of each of the loops.
* `stmtsRule_of_rounds`, `operatorsRule_of_rounds`, `morePrintItemsRule_of_rounds` — the rules find
  what the rounds find.
-/

namespace ImpSyntax
namespace Grammar

variable {α : Type}

/-! ## Runs of a loop -/

/-- A run of a loop on the tokens ahead, with the values of its rounds in order. The loop stops
where there is no round to be made, or with the failure of a round. A loop that never stops has no
run. -/
inductive Rounds (round : List Token → Option (Outcome α)) :
    List Token → List α → Outcome Unit → Prop where
  | stop {ts : List Token} : round ts = none → Rounds round ts [] ⟨.ok (), ts⟩
  | fault {ts rest : List Token} {expected : Expected} :
      round ts = some ⟨.error expected, rest⟩ → Rounds round ts [] ⟨.error expected, rest⟩
  | next {ts rest : List Token} {v : α} {vs : List α} {out : Outcome Unit} :
      round ts = some ⟨.ok v, rest⟩ → Rounds round rest vs out → Rounds round ts (v :: vs) out

/-- Whenever a round finds something, it takes a token. -/
def TakesToken (round : List Token → Option (Outcome α)) : Prop :=
  ∀ ts v rest, round ts = some ⟨.ok v, rest⟩ → rest.length < ts.length

/-- A loop ends if its rounds take tokens, and it makes no more rounds than there are tokens. -/
theorem exists_rounds {round : List Token → Option (Outcome α)} (h : TakesToken round)
    (ts : List Token) : ∃ vs out, Rounds round ts vs out ∧ vs.length ≤ ts.length := by
  match hround : round ts with
  | none => exact ⟨[], _, .stop hround, Nat.zero_le _⟩
  | some ⟨.error expected, rest⟩ => exact ⟨[], _, .fault hround, Nat.zero_le _⟩
  | some ⟨.ok v, rest⟩ =>
    have hshort := h ts v rest hround
    obtain ⟨vs, out, hrest, hle⟩ := exists_rounds h rest
    refine ⟨v :: vs, out, .next hround hrest, ?_⟩
    rw [List.length_cons]
    omega
termination_by ts.length

/-- Behind a loop that did not fail there is no round to be made. -/
theorem Rounds.stopped {round : List Token → Option (Outcome α)} {ts : List Token}
    {vs : List α} {out : Outcome Unit} (h : Rounds round ts vs out) (hout : out.result = .ok ()) :
    round out.rest = none := by
  induction h with
  | stop hround => exact hround
  | fault => cases hout
  | next _ _ ih => exact ih hout

/-- A rule that puts the value of a round in front of those of the rounds behind it. -/
theorem bind_cons {f : Rule α} {g : Rule (List α)} {ts rest : List Token} {v : α} {vs : List α}
    {out : Outcome Unit} (hf : f ts = ⟨.ok v, rest⟩)
    (hg : g rest = ⟨out.result.map fun _ => vs, out.rest⟩) :
    f.bind (fun v => g.bind fun vs => Rule.pure (v :: vs)) ts =
      ⟨out.result.map fun _ => v :: vs, out.rest⟩ := by
  obtain ⟨result, behind⟩ := out
  rw [Rule.bind_ok hf]
  cases result with
  | ok => rw [Rule.bind_ok hg]; rfl
  | error expected => rw [Rule.bind_error hg]; rfl

/-! ## Statements -/

/-- One more statement, unless a brace or the end is next. -/
def stmtRound (ts : List Token) : Option (Outcome Stmt) :=
  if closesStmts (kinds ts) then none else some (stmtRule ts)

theorem closesStmts_of_stmtRound {ts : List Token} (h : stmtRound ts = none) :
    closesStmts (kinds ts) = true := by
  unfold stmtRound at h
  split at h
  · assumption
  · cases h

theorem stmtRule_of_stmtRound {ts : List Token} {found : Outcome Stmt}
    (h : stmtRound ts = some found) : closesStmts (kinds ts) = false ∧ stmtRule ts = found := by
  unfold stmtRound at h
  split at h
  · cases h
  · rename_i hmore
    cases h
    exact ⟨Bool.eq_false_iff.2 hmore, rfl⟩

theorem takesToken_stmtRound : TakesToken stmtRound := by
  intro ts s rest h
  exact outcome_short (stmtRule_of_stmtRound h).2

theorem stmtsRule_of_rounds {ts : List Token} {body : List Stmt} {out : Outcome Unit}
    (h : Rounds stmtRound ts body out) :
    stmtsRule ts = ⟨out.result.map fun _ => body, out.rest⟩ := by
  induction h with
  | stop hround => exact stmtsRule_stop (closesStmts_of_stmtRound hround)
  | fault hround =>
    obtain ⟨hmore, hstmt⟩ := stmtRule_of_stmtRound hround
    rw [stmtsRule_cons hmore, Rule.bind_error hstmt]
    rfl
  | next hround hrest ih =>
    obtain ⟨hmore, hstmt⟩ := stmtRule_of_stmtRound hround
    rw [stmtsRule_cons hmore]
    exact bind_cons hstmt ih

/-- Behind a list of statements is a closing brace or the end. -/
theorem closesStmts_of_stmtsRule {ts rest : List Token} {body : List Stmt}
    (h : stmtsRule ts = ⟨.ok body, rest⟩) : closesStmts (kinds rest) = true := by
  obtain ⟨vs, out, hrounds, -⟩ := exists_rounds takesToken_stmtRound ts
  obtain ⟨result, behind⟩ := out
  rw [stmtsRule_of_rounds hrounds] at h
  cases result with
  | ok =>
    cases h
    exact closesStmts_of_stmtRound (hrounds.stopped rfl)
  | error expected => cases h

/-! ## Operators -/

/-- One more operator of the level above `level`, with its right operand. -/
def operatorRound (level : Nat) : List Token → Option (Outcome (BinaryOp × Expr))
  | [] => none
  | t :: ts => (opOfLevel? (level + 1) t.kind).map fun op =>
      (exprRule level).bind (fun right => Rule.pure (op, right)) ts

/-- The operand that the operators make up with a first one, from left to right. -/
def joinOperators (left : Expr) (found : List (BinaryOp × Expr)) : Expr :=
  found.foldl (fun left behind => .binary behind.1 left behind.2) left

theorem operatorRound_eq_none {level : Nat} {ts : List Token}
    (h : operatorRound level ts = none) :
    (kinds ts).head?.bind (opOfLevel? (level + 1)) = none := by
  cases ts with
  | nil => rfl
  | cons t ts => exact Option.map_eq_none_iff.1 h

theorem operatorRound_eq_some {level : Nat} {ts : List Token}
    {found : Outcome (BinaryOp × Expr)} (h : operatorRound level ts = some found) :
    ∃ t ts' op, ts = t :: ts' ∧ opOfLevel? (level + 1) t.kind = some op ∧
      (exprRule level).bind (fun right => Rule.pure (op, right)) ts' = found := by
  cases ts with
  | nil => cases h
  | cons t ts =>
    obtain ⟨op, hop, hfound⟩ := Option.map_eq_some_iff.1 h
    exact ⟨t, ts, op, rfl, hop, hfound⟩

theorem takesToken_operatorRound (level : Nat) : TakesToken (operatorRound level) := by
  intro ts found rest h
  obtain ⟨t, ts', op, rfl, -, hbind⟩ := operatorRound_eq_some h
  obtain ⟨right, hexpr, -⟩ := Rule.eq_ok_of_bind_pure hbind
  exact Nat.lt_succ_of_lt (outcome_short hexpr)

/-- At a level whose operators chain, the rule is the loop. -/
theorem operatorsRule_of_rounds {level : Nat}
    (hchains : ∀ op : BinaryOp, op.level = level + 1 → op.chains = true) {ts : List Token}
    {found : List (BinaryOp × Expr)} {out : Outcome Unit}
    (h : Rounds (operatorRound level) ts found out) (left : Expr) :
    operatorsRule level left ts =
      ⟨out.result.map fun _ => joinOperators left found, out.rest⟩ := by
  -- every round makes the operand on the left larger
  induction h generalizing left with
  | stop hround => exact operatorsRule_stop left (operatorRound_eq_none hround)
  | fault hround =>
    obtain ⟨t, ts', op, rfl, hop, hbind⟩ := operatorRound_eq_some hround
    rw [operatorsRule_cons left ts' hop, Rule.bind_error (Rule.eq_error_of_bind_pure hbind)]
    rfl
  | @next ts rest v found out hround hrest ih =>
    obtain ⟨t, ts', op, rfl, hop, hbind⟩ := operatorRound_eq_some hround
    obtain ⟨right, hexpr, rfl⟩ := Rule.eq_ok_of_bind_pure hbind
    have hlevel : op.level = level + 1 := by
      simpa using (Option.filter_eq_some_iff.1 hop).2
    rw [operatorsRule_cons left ts' hop, Rule.bind_ok hexpr, behindOperand,
      if_pos (hchains op hlevel), ih]
    rfl

/-! ## Print items -/

/-- One more item behind a comma. -/
def itemRound : List Token → Option (Outcome PrintItem)
  | ⟨.comma, _⟩ :: ts => some (printItemRule ts)
  | _ => none

theorem itemRound_eq_none {ts : List Token} (h : itemRound ts = none) :
    (kinds ts).head? ≠ some .comma := by
  intro hcomma
  obtain ⟨place, rest, rfl⟩ := exists_of_head?_kinds hcomma
  cases h

theorem itemRound_eq_some {ts : List Token} {found : Outcome PrintItem}
    (h : itemRound ts = some found) :
    ∃ place ts', ts = ⟨.comma, place⟩ :: ts' ∧ printItemRule ts' = found := by
  unfold itemRound at h
  split at h
  · rename_i place ts'
    exact ⟨place, ts', rfl, Option.some.inj h⟩
  · cases h

theorem takesToken_itemRound : TakesToken itemRound := by
  intro ts item rest h
  obtain ⟨place, ts', rfl, hitem⟩ := itemRound_eq_some h
  exact Nat.lt_succ_of_lt (outcome_short hitem)

theorem morePrintItemsRule_of_rounds {ts : List Token} {items : List PrintItem}
    {out : Outcome Unit} (h : Rounds itemRound ts items out) :
    morePrintItemsRule ts = ⟨out.result.map fun _ => items, out.rest⟩ := by
  induction h with
  | stop hround => exact morePrintItemsRule_stop (itemRound_eq_none hround)
  | fault hround =>
    obtain ⟨place, ts', rfl, hitem⟩ := itemRound_eq_some hround
    rw [morePrintItemsRule_comma, Rule.bind_error hitem]
    rfl
  | next hround hrest ih =>
    obtain ⟨place, ts', rfl, hitem⟩ := itemRound_eq_some hround
    rw [morePrintItemsRule_comma]
    exact bind_cons hitem ih

end Grammar
end ImpSyntax

import ImpSyntax.Proofs.Grammar.Derivation
import ImpSyntax.Proofs.Grammar.Reading

/-!
# ImpSyntax.Proofs.Grammar.Expr.Completeness

The rules for expressions find every expression that the grammar derives (`recovers_of_derives`).
The induction is on the derivation.

A left operand is a case of its own. If operators of its level chain, the rule of that level does
not end behind it but goes on with the operator that comes next. So `Recovers` also says where the
rule stands behind the operand: in front of the operators, with the operand at hand.
-/

namespace ImpSyntax
namespace Grammar

/-- No operator of `level` or tighter comes next. -/
def Ends (level : Nat) (rest : List TokenKind) : Prop :=
  ∀ op, rest.head?.bind binaryOp? = some op → level < op.level

theorem ends_of_none {rest : List TokenKind} (level : Nat)
    (h : rest.head?.bind binaryOp? = none) : Ends level rest := by
  intro op hop
  rw [h] at hop
  cases hop

theorem Ends.tighter {level : Nat} {rest : List TokenKind} (h : Ends (level + 1) rest) :
    Ends level rest := fun op hop => Nat.lt_of_succ_lt (h op hop)

theorem ends_zero (rest : List TokenKind) : Ends 0 rest := by
  intro op _
  cases op <;> decide

theorem ends_operator {level : Nat} {k : TokenKind} {op : BinaryOp} (rest : List TokenKind)
    (h : IsBinary (level + 1) k op) : Ends level (k :: rest) := by
  obtain ⟨hop, hlevel⟩ := isBinary_iff.1 h
  intro op' hop'
  change binaryOp? k = some op' at hop'
  rw [hop] at hop'
  cases hop'
  omega

theorem Ends.opOfLevel?_eq_none {level : Nat} {rest : List TokenKind} (h : Ends (level + 1) rest) :
    rest.head?.bind (opOfLevel? (level + 1)) = none := by
  cases rest with
  | nil => rfl
  | cons k rest =>
    rw [Option.eq_none_iff_forall_ne_some]
    intro op hop
    obtain ⟨hop, hlevel⟩ := isBinary_iff.1 (isBinary_iff_opOfLevel?.2 hop)
    have hends := h op hop
    omega

/-- Behind tokens of the kinds `ks` the rule of the level above `level` stands in front of the
operators of that level, with `e` at hand. -/
def GoesOn (level : Nat) (ks : List TokenKind) (e : Expr) : Prop :=
  ∀ taken rest, kinds taken = ks → Ends level (kinds rest) →
    exprRule (level + 1) (taken ++ rest) = operatorsRule level e rest

/-- The rule of the level finds `e` in tokens of the kinds `ks`; and if operators of that level
chain, it goes on behind them with `e` at hand. -/
structure Recovers (level : Nat) (ks : List TokenKind) (e : Expr) : Prop where
  alone : Takes (exprRule level) (Ends level) ks e
  chain : ∀ (op : BinaryOp) (n : Nat), op.chains = true → op.level = level → level = n + 1 →
    GoesOn n ks e

theorem goesOn_of_takes {level : Nat} {ks : List TokenKind} {e : Expr}
    (h : Takes (exprRule level) (Ends level) ks e) : GoesOn level ks e := by
  intro taken rest htaken hrest
  rw [exprRule_succ, Rule.bind_ok (h taken rest htaken hrest)]

/-- In front of the operators of its level the rule is at its end if none of them is next. -/
theorem GoesOn.takes {level : Nat} {ks : List TokenKind} {e : Expr} (h : GoesOn level ks e) :
    Takes (exprRule (level + 1)) (Ends (level + 1)) ks e := by
  intro taken rest htaken hrest
  rw [h taken rest htaken hrest.tighter, operatorsRule_stop e hrest.opOfLevel?_eq_none]

theorem Recovers.zero {ks : List TokenKind} {e : Expr}
    (h : Takes unaryRule (fun _ => True) ks e) : Recovers 0 ks e := by
  refine ⟨fun taken rest htaken _ => ?_, fun op n _ _ hn => absurd hn (by omega)⟩
  rw [exprRule_zero]
  exact h taken rest htaken trivial

theorem Recovers.tighter {level : Nat} {ks : List TokenKind} {e : Expr}
    (h : Recovers level ks e) : Recovers (level + 1) ks e := by
  have hgo := goesOn_of_takes h.alone
  refine ⟨hgo.takes, ?_⟩
  intro op n _ _ hn
  cases hn
  exact hgo

/-- Behind the left operand of an operator comes the operator. -/
theorem Recovers.operand {level : Nat} {op : BinaryOp} {ks : List TokenKind} {e : Expr}
    (h : Recovers op.leftLevel ks e) (hop : op.level = level + 1) : GoesOn level ks e := by
  unfold BinaryOp.leftLevel at h
  split at h
  · rename_i hchains
    exact h.chain op level hchains rfl hop
  · rw [hop] at h
    exact goesOn_of_takes h.alone

theorem Recovers.binary {level : Nat} {k : TokenKind} {op : BinaryOp} {ls rs : List TokenKind}
    {l r : Expr} (hop : IsBinary (level + 1) k op) (hl : Recovers op.leftLevel ls l)
    (hr : Recovers level rs r) : Recovers (level + 1) (ls ++ k :: rs) (.binary op l r) := by
  have hlevel := (isBinary_iff.1 hop).2
  have hbehind : ∀ taken rest, kinds taken = ls ++ k :: rs → Ends level (kinds rest) →
      exprRule (level + 1) (taken ++ rest) = behindOperand level op l r rest := by
    intro taken rest htaken hrest
    obtain ⟨front, behind, rfl, hfront, hbehind⟩ := List.map_eq_append_iff.1 htaken
    obtain ⟨t, behind, rfl, rfl, hoperand⟩ := List.map_eq_cons_iff.1 hbehind
    rw [List.append_assoc, List.cons_append,
      hl.operand hlevel front (t :: (behind ++ rest)) hfront (ends_operator _ hop),
      operatorsRule_cons l _ (isBinary_iff_opOfLevel?.1 hop),
      Rule.bind_ok (hr.alone behind rest hoperand hrest)]
  by_cases hchains : op.chains = true
  · simp only [behindOperand, hchains, if_true] at hbehind
    have hgo : GoesOn level (ls ++ k :: rs) (.binary op l r) := hbehind
    refine ⟨hgo.takes, ?_⟩
    intro op' n _ _ hn
    cases hn
    exact hgo
  · simp only [behindOperand, hchains] at hbehind
    refine ⟨fun taken rest htaken hrest => hbehind taken rest htaken hrest.tighter, ?_⟩
    intro op' n hchains' hop'
    rw [chains_congr (hop'.trans hlevel.symm)] at hchains'
    exact absurd hchains' hchains

theorem recovers_identifier (name : String) :
    Recovers 0 [.identifier name] (.identifier name) := by
  apply Recovers.zero
  refine (Takes.pure _ _).cons fun place rest => ?_
  rw [unaryRule_primary rfl, primaryRule_identifier]
  rfl

theorem recovers_integer (digits : String) : Recovers 0 [.integer digits] (.integer digits) := by
  apply Recovers.zero
  refine (Takes.pure _ _).cons fun place rest => ?_
  rw [unaryRule_primary rfl, primaryRule_integer]
  rfl

theorem recovers_parens {ks : List TokenKind} {e : Expr} (h : Recovers topLevel ks e) :
    Recovers 0 (.leftParen :: ks ++ [.rightParen]) e := by
  apply Recovers.zero
  have hinner := h.alone.bind
    (fun e => (expectRule .rightParen .expression).bind fun _ => Rule.pure e)
    (Takes.expect .rightParen .expression (Takes.pure e fun _ => True))
    fun rest _ => ends_of_none _ rfl
  refine hinner.cons fun place rest => ?_
  rw [unaryRule_primary rfl, primaryRule_parens]

theorem recovers_unary {k : TokenKind} {op : UnaryOp} {ks : List TokenKind} {e : Expr}
    (hop : IsUnary k op) (h : Recovers 0 ks e) : Recovers 0 (k :: ks) (.unary op e) := by
  have hoperand : Takes unaryRule (fun _ => True) ks e := by
    intro taken rest htaken _
    rw [← exprRule_zero]
    exact h.alone taken rest htaken (ends_zero _)
  apply Recovers.zero
  exact (hoperand.bind_pure (Expr.unary op)).cons fun place rest =>
    unaryRule_cons rest (isUnary_iff.1 hop)

theorem recovers_of_derives {level : Nat} {ks : List TokenKind} {t : Tree}
    (h : DerivesExpr level ks t) : ∃ e : Expr, e.toTree = t ∧ Recovers level ks e := by
  induction h with
  | identifier name => exact ⟨_, rfl, recovers_identifier name⟩
  | integer digits => exact ⟨_, rfl, recovers_integer digits⟩
  | parens _ ih =>
    obtain ⟨e, rfl, he⟩ := ih
    exact ⟨e, rfl, recovers_parens he⟩
  | unary hop _ ih =>
    obtain ⟨e, rfl, he⟩ := ih
    exact ⟨_, rfl, recovers_unary hop he⟩
  | tighter _ ih =>
    obtain ⟨e, rfl, he⟩ := ih
    exact ⟨e, rfl, he.tighter⟩
  | chain hop hchains _ _ ihl ihr =>
    obtain ⟨l, rfl, hl⟩ := ihl
    obtain ⟨r, rfl, hr⟩ := ihr
    rw [← leftLevel_of_ne hop hchains] at hl
    exact ⟨_, rfl, .binary hop hl hr⟩
  | comparison hop _ _ ihl ihr =>
    obtain ⟨l, rfl, hl⟩ := ihl
    obtain ⟨r, rfl, hr⟩ := ihr
    rw [← leftLevel_of_comparison hop] at hl
    exact ⟨_, rfl, .binary hop hl hr⟩

theorem Recovers.opensExpr {level : Nat} {ks : List TokenKind} {e : Expr}
    (h : Recovers level ks e) : ∃ k rest, ks = k :: rest ∧ opensExpr k = true := by
  obtain ⟨ts, rfl⟩ := exists_kinds ks
  have hall := h.alone ts [] rfl (ends_of_none level rfl)
  rw [List.append_nil] at hall
  cases hopens : (kinds ts).head?.any Grammar.opensExpr with
  | false =>
    rw [exprRule_fail level hopens] at hall
    cases hall
  | true =>
    cases ts with
    | nil => cases hopens
    | cons t rest => exact ⟨t.kind, kinds rest, rfl, hopens⟩

end Grammar
end ImpSyntax

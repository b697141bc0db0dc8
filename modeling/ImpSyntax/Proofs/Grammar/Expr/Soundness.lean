import ImpSyntax.Proofs.Grammar.Derivation
import ImpSyntax.Proofs.Grammar.Reading

/-!
# ImpSyntax.Proofs.Grammar.Expr.Soundness

The rules for expressions read what the grammar derives (`reads_expr`). The induction is that of
the rules themselves; a case joins the readings of the parts and ends with the production that
they make up.

A chain of operators is read from the left to the right with the operand so far at hand, while the
grammar puts the last operator on top. `operatorsPhrase` says what may still come behind that
operand, whichever tokens it came from.
-/

namespace ImpSyntax
namespace Grammar

open Phrase (done after seq)

def exprPhrase (level : Nat) : Phrase Expr := fun ks e => DerivesExpr level ks e.toTree

theorem inhabited_exprPhrase (level : Nat) : (exprPhrase level).Inhabited := by
  refine ⟨[.integer ""], .integer "", ?_⟩
  induction level with
  | zero => exact .integer ""
  | succ level ih => exact .tighter ih

/-- Whether the tokens can be the left operand of every operator of the level above `level`. -/
structure LeftOperand (level : Nat) (ks : List TokenKind) (t : Tree) : Prop where
  alone : DerivesExpr (level + 1) ks t
  operand : ∀ op : BinaryOp, op.level = level + 1 → DerivesExpr op.leftLevel ks t

theorem LeftOperand.of_tighter {level : Nat} {ks : List TokenKind} {t : Tree}
    (h : DerivesExpr level ks t) : LeftOperand level ks t := by
  refine ⟨.tighter h, fun op hop => ?_⟩
  unfold BinaryOp.leftLevel
  split
  · rw [hop]; exact .tighter h
  · rw [hop]; exact h

theorem LeftOperand.of_chains {level : Nat} {ks : List TokenKind} {t : Tree} {op : BinaryOp}
    (hop : op.level = level + 1) (hchains : op.chains = true)
    (h : DerivesExpr (level + 1) ks t) : LeftOperand level ks t := by
  refine ⟨h, fun op' hop' => ?_⟩
  have hchains' : op'.chains = true := by rw [chains_congr (hop'.trans hop.symm), hchains]
  rw [BinaryOp.leftLevel, if_pos hchains', hop']
  exact h

/-- What may stand behind a left operand, with the value of the whole. -/
def operatorsPhrase (level : Nat) (left : Expr) : Phrase Expr := fun ks e =>
  ∀ ls, LeftOperand level ls left.toTree → DerivesExpr (level + 1) (ls ++ ks) e.toTree

theorem operatorsPhrase_done (level : Nat) (left : Expr) {ks : List TokenKind} {e : Expr}
    (h : done left ks e) : operatorsPhrase level left ks e := by
  obtain ⟨rfl, rfl⟩ := h
  intro ls hleft
  rw [List.append_nil]
  exact hleft.alone

/-- What may stand behind the right operand of an operator. -/
def behindPhrase (level : Nat) (op : BinaryOp) (left right : Expr) : Phrase Expr := fun ks e =>
  done (.binary op left right) ks e ∨
    op.chains = true ∧ operatorsPhrase level (.binary op left right) ks e

theorem operatorsPhrase_cons {level : Nat} {k : TokenKind} {op : BinaryOp} {left e : Expr}
    {ks : List TokenKind} (hop : opOfLevel? (level + 1) k = some op)
    (h : after k (seq (exprPhrase level) (behindPhrase level op left)) ks e) :
    operatorsPhrase level left ks e := by
  obtain ⟨_, rfl, rs, right, behind, rfl, hright, hbehind⟩ := h
  intro ls hleft
  have hop := isBinary_iff_opOfLevel?.2 hop
  have hlevel := (isBinary_iff.1 hop).2
  have hbinary := DerivesExpr.binary hop (hleft.operand op hlevel) hright
  rcases hbehind with ⟨rfl, rfl⟩ | ⟨hchains, hmore⟩
  · rw [List.append_nil]
    exact hbinary
  · have hall := hmore _ (.of_chains hlevel hchains hbinary)
    rwa [List.append_assoc, List.cons_append] at hall

theorem reads_operators_stop {level : Nat} {ts : List Token} (left : Expr)
    (h : (kinds ts).head?.bind (opOfLevel? (level + 1)) = none) :
    Reads (operatorsPhrase level left) (operatorsRule level left) ts := by
  have hstop : Reads (done left) (operatorsRule level left) ts :=
    Reads.stop fun rest hrest => operatorsRule_stop left (hrest ▸ h)
  exact hstop.mono fun _ _ => operatorsPhrase_done level left

theorem reads_operators_cons {level : Nat} {t : Token} {op : BinaryOp} {left : Expr}
    {ts : List Token} (hop : opOfLevel? (level + 1) t.kind = some op)
    (hexpr : Reads (exprPhrase level) (exprRule level) ts)
    (hoperators : ∀ right rest, rest.length < ts.length →
      Reads (operatorsPhrase level (.binary op left right))
        (operatorsRule level (.binary op left right)) rest) :
    Reads (operatorsPhrase level left) (operatorsRule level left) (t :: ts) := by
  have hbehind : ∀ right, (exprRule level ts).result = .ok right →
      Reads (behindPhrase level op left right) (behindOperand level op left right)
        (exprRule level ts).rest := by
    intro right hright
    unfold behindOperand
    split
    · rename_i hchains
      exact (hoperators right _ (outcome_length hright)).mono fun _ _ h => .inr ⟨hchains, h⟩
    · exact (Reads.pure _ _).mono fun _ _ h => .inl h
  have hbind := hexpr.bind (fun right => ⟨[], _, .inl ⟨rfl, rfl⟩⟩) hbehind
  exact (hbind.cons (fun place rest => operatorsRule_cons left rest hop) t.location).mono
    fun _ _ => operatorsPhrase_cons hop

theorem reads_unary_cons {t : Token} {op : UnaryOp} {ts : List Token}
    (hop : unaryOp? t.kind = some op) (hunary : Reads (exprPhrase 0) unaryRule ts) :
    Reads (exprPhrase 0) unaryRule (t :: ts) := by
  have hbind := hunary.bind (fun operand => Phrase.inhabited_done (Expr.unary op operand))
    fun operand _ => Reads.pure _ _
  refine (hbind.cons (fun place rest => unaryRule_cons rest hop) t.location).mono fun _ _ h => ?_
  obtain ⟨_, rfl, ks, operand, _, rfl, hoperand, rfl, rfl⟩ := h
  rw [List.append_nil]
  exact .unary (isUnary_iff.2 hop) hoperand

theorem reads_unary_primary {ts : List Token} (h : (kinds ts).head?.bind unaryOp? = none)
    (hprimary : Reads (exprPhrase 0) primaryRule ts) : Reads (exprPhrase 0) unaryRule ts :=
  hprimary.congr fun _ hrest => unaryRule_primary (hrest ▸ h)

theorem reads_primary_identifier (name : String) (place : Location) (ts : List Token) :
    Reads (exprPhrase 0) primaryRule (⟨.identifier name, place⟩ :: ts) := by
  have hread := (Reads.pure (Expr.identifier name) ts).cons (primaryRule_identifier name) place
  refine hread.mono fun _ _ h => ?_
  obtain ⟨_, rfl, rfl, rfl⟩ := h
  exact .identifier name

theorem reads_primary_integer (digits : String) (place : Location) (ts : List Token) :
    Reads (exprPhrase 0) primaryRule (⟨.integer digits, place⟩ :: ts) := by
  have hread := (Reads.pure (Expr.integer digits) ts).cons (primaryRule_integer digits) place
  refine hread.mono fun _ _ h => ?_
  obtain ⟨_, rfl, rfl, rfl⟩ := h
  exact .integer digits

theorem reads_primary_parens (place : Location) {ts : List Token}
    (hexpr : Reads (exprPhrase topLevel) (exprRule topLevel) ts) :
    Reads (exprPhrase 0) primaryRule (⟨.leftParen, place⟩ :: ts) := by
  have hbind := hexpr.bind (fun inner => (Phrase.inhabited_done inner).after .rightParen)
    fun inner _ => Reads.expect_pure .rightParen .expression inner _
  refine (hbind.cons primaryRule_parens place).mono fun _ _ h => ?_
  obtain ⟨_, rfl, ks, inner, _, rfl, hinner, _, rfl, rfl, rfl⟩ := h
  exact .parens hinner

theorem reads_primary_fail {ts : List Token} (h : (kinds ts).head?.any opensPrimary = false) :
    Reads (exprPhrase 0) primaryRule ts :=
  Reads.fail (inhabited_exprPhrase 0) fun _ hrest => primaryRule_fail (hrest ▸ h)

/-- The rules for expressions read expressions. -/
theorem reads_expr_all :
    (∀ level ts, Reads (exprPhrase level) (exprRule level) ts) ∧
      (∀ level left ts, Reads (operatorsPhrase level left) (operatorsRule level left) ts) ∧
      (∀ ts, Reads (exprPhrase 0) unaryRule ts) ∧
      ∀ ts, Reads (exprPhrase 0) primaryRule ts := by
  apply expr_induction
  case zero =>
    intro ts hunary
    rw [exprRule_zero]
    exact hunary
  case succ =>
    intro level ts hexpr hoperators
    rw [exprRule_succ]
    have hbind := hexpr.bind (fun left => ⟨[], left, operatorsPhrase_done level left ⟨rfl, rfl⟩⟩)
      fun left hleft => hoperators left _ (outcome_length hleft)
    refine hbind.mono ?_
    rintro _ e ⟨ls, left, ks, rfl, hleft, hks⟩
    exact hks ls (.of_tighter hleft)
  case stop => exact fun level left ts hstop => reads_operators_stop left hstop
  case operator => exact fun level left t ts op hop => reads_operators_cons hop
  case unary => exact fun t ts op hop => reads_unary_cons hop
  case primary => exact fun ts hop => reads_unary_primary hop
  case identifier => exact reads_primary_identifier
  case integer => exact reads_primary_integer
  case parens => exact fun place ts => reads_primary_parens place
  case other => exact fun ts => reads_primary_fail

theorem reads_expr (level : Nat) (ts : List Token) :
    Reads (exprPhrase level) (exprRule level) ts := reads_expr_all.1 level ts

end Grammar
end ImpSyntax

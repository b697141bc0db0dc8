import ImpSyntax.Proofs.Grammar.Program
import ImpSyntax.Proofs.Source.WellFormed

/-!
# ImpSyntax.Proofs.Grammar.OfProgram

The tokens of a program are read as that program (`program_kinds`). The induction is on the
program. An operand stands bare exactly if the place allows its level, and in parentheses it fits
anywhere; so the tokens of an expression are found at every level (`recovers_kinds`).
-/

namespace ImpSyntax
namespace Grammar

/-! ## Expressions -/

theorem isBinary_kind {level : Nat} {op : BinaryOp} (h : op.level = level) :
    IsBinary level op.kind op := by
  subst h
  cases op <;> constructor

theorem isUnary_kind (op : UnaryOp) : IsUnary op.kind op := by
  cases op <;> constructor

theorem level_pos (op : BinaryOp) : 0 < op.level := by
  cases op <;> decide

theorem level_le_topLevel (op : BinaryOp) : op.level ≤ topLevel := by
  cases op <;> decide

theorem Recovers.looser {m n : Nat} {ks : List TokenKind} {e : Expr} (h : Recovers m ks e)
    (hle : m ≤ n) : Recovers n ks e := by
  induction hle with
  | refl => exact h
  | step _ ih => exact ih.tighter

theorem recovers_kinds (e : Expr) (level : Nat) : Recovers level (e.kinds level) e := by
  induction e generalizing level with
  | identifier name => exact (recovers_identifier name).looser (Nat.zero_le level)
  | integer digits => exact (recovers_integer digits).looser (Nat.zero_le level)
  | unary op operand ih =>
    exact (recovers_unary (isUnary_kind op) (ih 0)).looser (Nat.zero_le level)
  | binary op left right ihl ihr =>
    obtain ⟨n, hn⟩ := Nat.exists_eq_add_one.2 (level_pos op)
    have hright := ihr (op.level - 1)
    rw [hn, Nat.add_sub_cancel] at hright
    have hbare := Recovers.binary (isBinary_kind hn) (ihl op.leftLevel) hright
    rw [← hn] at hbare
    rw [Expr.kinds]
    by_cases hlevel : op.level ≤ level
    · rw [if_pos hlevel, hn, Nat.add_sub_cancel]
      exact hbare.looser hlevel
    · rw [if_neg hlevel, hn, Nat.add_sub_cancel]
      have hparens := recovers_parens (hbare.looser (level_le_topLevel op))
      exact hparens.looser (Nat.zero_le level)

theorem takes_inParens (word inside : Place) (e : Expr) (P : List TokenKind → Prop) :
    Takes (conditionRule word inside) P e.inParens e :=
  takes_condition word inside (recovers_kinds e topLevel) P

/-! ## Statements -/

theorem takes_item_kinds (item : PrintItem) : Takes printItemRule EndsItem item.kinds item := by
  cases item with
  | string text => exact takes_string text _
  | expr value => exact takes_item (recovers_kinds value topLevel)

theorem takes_moreItems_kinds (items : List PrintItem) :
    Takes morePrintItemsRule EndsItems (items.flatMap (.comma :: ·.kinds)) items := by
  induction items with
  | nil => exact takes_moreItems_nil
  | cons item items ih => exact takes_moreItems_cons (takes_item_kinds item) ih

mutual

theorem takes_kinds {s : Stmt} (h : s.isWellFormed = true) :
    Takes stmtRule (EndsStmt s.toTree) s.kinds s := by
  cases s with
  | empty => exact takes_empty _
  | assign name value => exact takes_assign name (recovers_kinds value topLevel) _
  | ifThen test body =>
    simp only [Stmt.isWellFormed, Bool.and_eq_true] at h
    have htakes := takes_ifThen (takes_inParens .ifWord .ifCondition test) (takes_kinds h.2)
    exact fun taken rest htaken hrest => htakes taken rest htaken (hrest rfl)
  | ifElse test body other =>
    simp only [Stmt.isWellFormed, Bool.and_eq_true, Bool.not_eq_true'] at h
    obtain ⟨⟨⟨_, hbody⟩, hclosed⟩, hother⟩ := h
    have htakes := takes_ifElse (takes_inParens .ifWord .ifCondition test) (takes_kinds hbody)
      hclosed (takes_kinds hother)
    intro taken rest htaken hrest
    exact htakes taken rest (by simpa [Stmt.kinds] using htaken) hrest
  | whileLoop test body =>
    simp only [Stmt.isWellFormed, Bool.and_eq_true] at h
    exact takes_whileLoop (takes_inParens .whileWord .whileCondition test) (takes_kinds h.2)
  | print first more =>
    have htakes := takes_print (takes_item_kinds first) (takes_moreItems_kinds more)
      (EndsStmt (Stmt.print first more).toTree)
    simpa [Stmt.kinds] using htakes
  | putc value => exact takes_putc (takes_inParens .putcWord .putcArgument value) _
  | block body => exact takes_block (takes_kindsOf h) _

theorem takes_kindsOf {body : List Stmt} (h : Stmt.areWellFormed body = true) :
    Takes stmtsRule EndsStmts (Stmt.kindsOf body) body := by
  cases body with
  | nil => exact takes_stmts_nil
  | cons s body =>
    simp only [Stmt.areWellFormed, Bool.and_eq_true] at h
    exact takes_stmts_cons (takes_kinds h.1) (takes_kindsOf h.2)

end

theorem program_kinds {p : Program} (h : p.isWellFormed = true) {ts : List Token}
    (hkinds : kinds ts = p.kinds) : programRule ts = ⟨.ok p, []⟩ := by
  have htakes := takes_program (takes_kindsOf h) ts [] hkinds rfl
  rwa [List.append_nil] at htakes

end Grammar
end ImpSyntax

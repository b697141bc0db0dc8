import ImpSyntax.Proofs.TokenStream.Shape
import ImpSyntax.Proofs.Tree.Shown

/-!
# ImpSyntax.Proofs.Tree.ExprDump

The dump of an expression ends where it tells itself, whatever text is behind it
(`dump_append_eq_iff`).

Nothing is printed for a child that is absent. But a line tells its label (`tells_line`), and the
label of an expression tells its operands (`Expr.print_append_inj`).
-/

namespace ImpSyntax
namespace Tree

theorem IsExpr.exists_toTree {t : Tree} (h : IsExpr t) : ∃ e : Expr, e.toTree = t := by
  induction h with
  | identifier name => exact ⟨.identifier name, rfl⟩
  | integer digits => exact ⟨.integer digits, rfl⟩
  | unary op _ ih =>
    obtain ⟨operand, rfl⟩ := ih
    exact ⟨.unary op operand, rfl⟩
  | binary op _ _ ihl ihr =>
    obtain ⟨left, rfl⟩ := ihl
    obtain ⟨right, rfl⟩ := ihr
    exact ⟨.binary op left right, rfl⟩

theorem tells_line :
    Tells (fun label => label.line.toList) fun label => label.shown = label ∧ label.IsOneLine := by
  rintro label label' rest rest' ⟨hshown, hline⟩ ⟨hshown', hline'⟩ h
  obtain ⟨hlabel, hrest⟩ := Label.line_append_inj hline hline' h
  exact ⟨by rw [← hshown, hlabel, hshown'], hrest⟩

/-- The dumps of two expressions, whatever is behind them, are the same text only if the expressions
are the same, and so is what is behind them. So no dump of an expression goes on as that of another,
and the dump tells the expression. -/
theorem dump_append_eq_iff {e e' : Tree} (he : e.IsExpr) (he' : e'.IsExpr)
    (hline : ∀ label ∈ e.labels, label.IsOneLine) (hline' : ∀ label ∈ e'.labels, label.IsOneLine) :
    (∀ rest rest' : String, e.dump ++ rest = e'.dump ++ rest' ↔ e = e' ∧ rest = rest') ∧
      (∀ rest : String, e.dump ++ rest = e'.dump ↔ e = e' ∧ rest = "") ∧
      (e.dump = e'.dump ↔ e = e') := by
  have hall : ∀ rest rest' : String,
      e.dump ++ rest = e'.dump ++ rest' ↔ e = e' ∧ rest = rest' := by
    intro rest rest'
    constructor
    · intro h
      obtain ⟨expr, rfl⟩ := he.exists_toTree
      obtain ⟨expr', rfl⟩ := he'.exists_toTree
      have hchars := congrArg String.toList h
      rw [String.toList_append, String.toList_append, toList_dump, toList_dump] at hchars
      obtain ⟨rfl, hrest⟩ := Expr.print_append_inj tells_line
        (fun label hlabel => ⟨expr.shown_label label hlabel, hline label hlabel⟩)
        (fun label hlabel => ⟨expr'.shown_label label hlabel, hline' label hlabel⟩) hchars
      exact ⟨rfl, String.toList_inj.1 hrest⟩
    · rintro ⟨rfl, rfl⟩
      rfl
  refine ⟨hall, fun rest => ?_, ?_⟩
  · simpa using hall rest ""
  · simpa using hall "" ""

/-- The sum of the variable of that name and one. -/
def sumOf (name : String) : Tree :=
  node (.binary .add) (node (.identifier name) absent absent) (node (.integer "1") absent absent)

theorem isExpr_sumOf (name : String) : (sumOf name).IsExpr :=
  .binary .add (.identifier name) (.integer "1")

theorem isOneLine_sumOf {name : String} (h : '\n' ∉ name.toList) :
    ∀ label ∈ (sumOf name).labels, label.IsOneLine := by
  simp [sumOf, labels, Label.IsOneLine, Label.text?, h]

/-- A name that starts with another one and goes on like a line of a dump. -/
theorem dump_append_eq_iff_sumOf :
    (sumOf "a").IsExpr ∧ (sumOf "a Integer 1").IsExpr ∧
      (∀ label ∈ (sumOf "a").labels, label.IsOneLine) ∧
      (∀ label ∈ (sumOf "a Integer 1").labels, label.IsOneLine) ∧
      ∀ rest rest' : String, (sumOf "a").dump ++ rest ≠ (sumOf "a Integer 1").dump ++ rest' := by
  have hline : ∀ label ∈ (sumOf "a").labels, label.IsOneLine := isOneLine_sumOf (by decide)
  have hline' : ∀ label ∈ (sumOf "a Integer 1").labels, label.IsOneLine :=
    isOneLine_sumOf (by decide)
  have hiff := (dump_append_eq_iff (isExpr_sumOf "a") (isExpr_sumOf "a Integer 1") hline hline').1
  refine ⟨isExpr_sumOf "a", isExpr_sumOf "a Integer 1", hline, hline', fun rest rest' h => ?_⟩
  have hne : sumOf "a" ≠ sumOf "a Integer 1" := by decide
  exact hne ((hiff rest rest').1 h).1

end Tree
end ImpSyntax

import ImpSyntax.Proofs.Grammar.Derivation

/-!
# ImpSyntax.Proofs.Grammar.Leaves

No text is lost between tokens and trees: the leaves of a tree are the identifiers, integers and
strings among its tokens, in their order (`leaves_of_program`). Every other token only shapes the
tree.
-/

namespace ImpSyntax

/-- The leaf that a token becomes. -/
def TokenKind.leaf? : TokenKind → Option Label
  | .identifier name => some (.identifier name)
  | .integer digits => some (.integer digits)
  | .string text => some (.string text)
  | _ => none

def Label.isLeaf : Label → Bool
  | .identifier _ | .integer _ | .string _ => true
  | _ => false

namespace Tree

/-- The labels that carry text, in pre-order. -/
def leaves (tree : Tree) : List Label := tree.labels.filter Label.isLeaf

@[simp] theorem leaves_absent : absent.leaves = [] := rfl

@[simp] theorem leaves_empty : empty.leaves = [] := rfl

@[simp] theorem leaves_node (label : Label) (left right : Tree) :
    (node label left right).leaves =
      (if label.isLeaf then [label] else []) ++ (left.leaves ++ right.leaves) := by
  simp only [leaves, labels, List.filter_cons, List.filter_append]
  split <;> rfl

@[simp] theorem leaves_arm (body : Tree) : body.arm.leaves = body.leaves := by
  simp [arm, Label.isLeaf]

theorem leaves_chain (items : List Tree) : (chain items).leaves = items.flatMap leaves := by
  cases items with
  | nil => rfl
  | cons item items =>
    rw [leaves, labels_chain_cons, List.filter_flatMap]
    rfl

@[simp] theorem leaves_sequence (items : List Tree) :
    (sequence items).leaves = items.flatMap leaves := by
  simp [sequence, unary, leaves_chain, Label.isLeaf]

end Tree

namespace Grammar

theorem leaf?_of_isUnary {k : TokenKind} {op : UnaryOp} (h : IsUnary k op) : k.leaf? = none := by
  cases h <;> rfl

theorem leaf?_of_isBinary {level : Nat} {k : TokenKind} {op : BinaryOp} (h : IsBinary level k op) :
    k.leaf? = none := by
  cases h <;> rfl

theorem leaves_of_expr {level : Nat} {ks : List TokenKind} {t : Tree} (h : DerivesExpr level ks t) :
    t.leaves = ks.filterMap TokenKind.leaf? := by
  induction h with
  | identifier name => rfl
  | integer digits => rfl
  | parens _ ih => simpa [TokenKind.leaf?, List.filterMap_cons] using ih
  | unary hop _ ih =>
    simpa [Tree.unary, Label.isLeaf, leaf?_of_isUnary hop, List.filterMap_cons] using ih
  | tighter _ ih => exact ih
  | chain hop _ _ _ ihl ihr => simp [Label.isLeaf, leaf?_of_isBinary hop, ihl, ihr]
  | comparison hop _ _ ihl ihr => simp [Label.isLeaf, leaf?_of_isBinary hop, ihl, ihr]

theorem leaves_of_item {ks : List TokenKind} {t : Tree} (h : DerivesItem ks t) :
    t.leaves = ks.filterMap TokenKind.leaf? := by
  cases h with
  | string text => rfl
  | expr hexpr => simpa [Tree.unary, Label.isLeaf] using leaves_of_expr hexpr

theorem leaves_of_items {ks : List TokenKind} {ts : List Tree} (h : DerivesItems ks ts) :
    ts.flatMap Tree.leaves = ks.filterMap TokenKind.leaf? := by
  induction h with
  | single hitem => simpa using leaves_of_item hitem
  | cons hitem _ ih => simp [leaves_of_item hitem, ih, TokenKind.leaf?, List.filterMap_cons]

mutual

theorem leaves_of_stmt {ks : List TokenKind} {t : Tree} (h : DerivesStmt ks t) :
    t.leaves = ks.filterMap TokenKind.leaf? := by
  match h with
  | .empty => rfl
  | .assign name hvalue =>
    simp [leaves_of_expr hvalue, Tree.leaf, Label.isLeaf, TokenKind.leaf?, List.filterMap_cons]
  | .ifThen htest hbody =>
    simp [leaves_of_expr htest, leaves_of_stmt hbody, Label.isLeaf, TokenKind.leaf?,
      List.filterMap_cons]
  | .ifElse htest hbody _ hother =>
    simp [leaves_of_expr htest, leaves_of_stmt hbody, leaves_of_stmt hother, Label.isLeaf,
      TokenKind.leaf?, List.filterMap_cons]
  | .whileLoop htest hbody =>
    simp [leaves_of_expr htest, leaves_of_stmt hbody, Label.isLeaf, TokenKind.leaf?,
      List.filterMap_cons]
  | .print hitems => simp [leaves_of_items hitems, TokenKind.leaf?, List.filterMap_cons]
  | .putc hvalue =>
    simp [leaves_of_expr hvalue, Tree.unary, Label.isLeaf, TokenKind.leaf?, List.filterMap_cons]
  | .block hbody => simp [leaves_of_stmts hbody, TokenKind.leaf?, List.filterMap_cons]

theorem leaves_of_stmts {ks : List TokenKind} {ts : List Tree} (h : DerivesStmts ks ts) :
    ts.flatMap Tree.leaves = ks.filterMap TokenKind.leaf? := by
  match h with
  | .nil => rfl
  | .cons hhead htail => simp [leaves_of_stmt hhead, leaves_of_stmts htail]

end

theorem leaves_of_program {ks : List TokenKind} {t : Tree} (h : DerivesProgram ks t) :
    t.leaves = ks.filterMap TokenKind.leaf? := by
  cases h with
  | intro hstmts => rw [Tree.leaves_sequence, leaves_of_stmts hstmts]

end Grammar
end ImpSyntax

import ImpSyntax.Tree.Label

/-!
# ImpSyntax.Tree.Basic

Labelled binary trees, either child of which may be absent, and their dump: the labels in
pre-order, one on each line, nothing for an absent child.
-/

namespace ImpSyntax

inductive Tree where
  /-- No tree: the child that a node does not have. -/
  | absent
  | node (label : Label) (left right : Tree)
  deriving DecidableEq, Repr

namespace Tree

def leaf (label : Label) : Tree := node label absent absent

def unary (label : Label) (operand : Tree) : Tree := node label operand absent

def empty : Tree := leaf .empty

/-- A chain of separators to the right with an item on the left of each, or an empty statement if
there is no item. -/
def chain : List Tree → Tree
  | [] => empty
  | [item] => unary .separator item
  | item :: items => node .separator item (chain items)

def sequence (items : List Tree) : Tree := unary .sequence (chain items)

def isPresent : Tree → Bool
  | absent => false
  | node .. => true

def size : Tree → Nat
  | absent => 0
  | node _ left right => 1 + left.size + right.size

/-- The nodes in pre-order. -/
def nodes : Tree → List Tree
  | absent => []
  | node label left right => node label left right :: (left.nodes ++ right.nodes)

/-- The labels in pre-order. -/
def labels : Tree → List Label
  | absent => []
  | node label left right => label :: (left.labels ++ right.labels)

def dump (tree : Tree) : String := String.join (tree.labels.map Label.line)

theorem labels_chain_cons (item : Tree) (items : List Tree) :
    (chain (item :: items)).labels = (item :: items).flatMap (.separator :: ·.labels) := by
  induction items generalizing item with
  | nil => simp [chain, unary, labels]
  | cons next items ih =>
    change (node .separator item (chain (next :: items))).labels = _
    rw [labels, ih, List.flatMap_cons]
    rfl

end Tree
end ImpSyntax

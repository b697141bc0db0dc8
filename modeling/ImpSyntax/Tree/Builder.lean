import ImpSyntax.Tree.Basic

/-!
# ImpSyntax.Tree.Builder

Building trees step by step on a stack, operands first. A step that finds too few trees, and a step
to a child that is absent, leave the stack as it is.
-/

namespace ImpSyntax
namespace Tree

inductive BuildStep where
  /-- A node with the children that are asked for, the right one on top of the left one. -/
  | node (label : Label) (hasLeft hasRight : Bool)
  /-- The sequence over the top. -/
  | wrap
  /-- The chain of that many trees, the deepest first. -/
  | chain (count : Nat)
  | copy
  | drop
  | left
  | right
  /-- Whether the two topmost trees are the same. -/
  | compare
  deriving DecidableEq, Repr

inductive BuildResult where
  | stack (trees : List Tree)
  | noChild
  | compared (same : Bool)
  | underflow
  deriving DecidableEq, Repr

def BuildStep.run (stack : List Tree) : BuildStep → BuildResult
  | .node label false false => .stack (leaf label :: stack)
  | .node label true false =>
    match stack with
    | a :: stack => .stack (.node label a .absent :: stack)
    | _ => .underflow
  | .node label false true =>
    match stack with
    | a :: stack => .stack (.node label .absent a :: stack)
    | _ => .underflow
  | .node label true true =>
    match stack with
    | b :: a :: stack => .stack (.node label a b :: stack)
    | _ => .underflow
  | .wrap =>
    match stack with
    | a :: stack => .stack (unary .sequence a :: stack)
    | _ => .underflow
  | .chain count =>
    if count ≤ stack.length then
      .stack (Tree.chain (stack.take count).reverse :: stack.drop count)
    else .underflow
  | .copy =>
    match stack with
    | a :: stack => .stack (a :: a :: stack)
    | _ => .underflow
  | .drop =>
    match stack with
    | _ :: stack => .stack stack
    | _ => .underflow
  | .left =>
    match stack with
    | .node _ (.node label a b) _ :: stack => .stack (.node label a b :: stack)
    | _ :: _ => .noChild
    | _ => .underflow
  | .right =>
    match stack with
    | .node _ _ (.node label a b) :: stack => .stack (.node label a b :: stack)
    | _ :: _ => .noChild
    | _ => .underflow
  | .compare =>
    match stack with
    | b :: a :: _ => .compared (a = b)
    | _ => .underflow

end Tree
end ImpSyntax

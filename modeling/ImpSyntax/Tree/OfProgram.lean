import ImpSyntax.Stmt
import ImpSyntax.Tree.Basic

/-!
# ImpSyntax.Tree.OfProgram

The tree of a program.

* A program and a block are a sequence over the chain of their statements.
* The arm of a conditional and the body of a loop are a sequence of the statement and an empty one.
* A conditional is a branch over the condition and a branch over its two arms; an empty statement
  stands for the arm that is not there.
* A print statement is a sequence over a chain of one print for each item.
-/

namespace ImpSyntax

def Expr.toTree : Expr → Tree
  | .identifier name => .leaf (.identifier name)
  | .integer digits => .leaf (.integer digits)
  | .unary op operand => .unary (.unary op) operand.toTree
  | .binary op left right => .node (.binary op) left.toTree right.toTree

def PrintItem.toTree : PrintItem → Tree
  | .string text => .unary .printString (.leaf (.string text))
  | .expr value => .unary .printInteger value.toTree

/-- A statement as an arm or a body. -/
def Tree.arm (body : Tree) : Tree := .node .sequence body .empty

mutual

def Stmt.toTree : Stmt → Tree
  | .empty => .empty
  | .assign name value => .node .assign (.leaf (.identifier name)) value.toTree
  | .ifThen condition body =>
    .node .branch condition.toTree (.node .branch body.toTree.arm .empty)
  | .ifElse condition body other =>
    .node .branch condition.toTree (.node .branch body.toTree.arm other.toTree.arm)
  | .whileLoop condition body => .node .loop condition.toTree body.toTree.arm
  | .print first more => .sequence ((first :: more).map PrintItem.toTree)
  | .putc value => .unary .printChar value.toTree
  | .block body => .sequence (Stmt.toTrees body)

def Stmt.toTrees : List Stmt → List Tree
  | [] => []
  | s :: body => s.toTree :: Stmt.toTrees body

end

def Program.toTree (program : Program) : Tree := .sequence (Stmt.toTrees program.body)

end ImpSyntax

import ImpSyntax.Expr

/-!
# ImpSyntax.Stmt

Statements and programs. A print statement has at least one item; an item is a text or an
expression.
-/

namespace ImpSyntax

inductive PrintItem where
  | string (text : String)
  | expr (value : Expr)
  deriving DecidableEq, Repr

inductive Stmt where
  | empty
  | assign (name : String) (value : Expr)
  | ifThen (condition : Expr) (body : Stmt)
  | ifElse (condition : Expr) (body other : Stmt)
  | whileLoop (condition : Expr) (body : Stmt)
  | print (first : PrintItem) (more : List PrintItem)
  | putc (value : Expr)
  | block (body : List Stmt)
  deriving Repr

structure Program where
  body : List Stmt
  deriving Repr

end ImpSyntax

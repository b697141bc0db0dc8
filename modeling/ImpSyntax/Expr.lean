/-!
# ImpSyntax.Expr

Expressions over variables and integers. Integers are kept as they are written.

Operators bind by level, the tightest first: products, sums, comparisons, conjunctions and
disjunctions are the levels 1 to 5 (`BinaryOp.level`). Operators of one level group to the left,
except that a comparison is no operand of another comparison without parentheses
(`BinaryOp.chains`).
-/

namespace ImpSyntax

inductive BinaryOp where
  | multiply | divide | mod
  | add | subtract
  | less | lessEqual | greater | greaterEqual | equal | notEqual
  | and
  | or
  deriving DecidableEq, Repr

inductive UnaryOp where
  | negate
  | not
  deriving DecidableEq, Repr

inductive Expr where
  | identifier (name : String)
  | integer (digits : String)
  | unary (op : UnaryOp) (operand : Expr)
  | binary (op : BinaryOp) (left right : Expr)
  deriving DecidableEq, Repr

def BinaryOp.level : BinaryOp → Nat
  | multiply | divide | mod => 1
  | add | subtract => 2
  | less | lessEqual | greater | greaterEqual | equal | notEqual => 3
  | and => 4
  | or => 5

/-- Whether an operator of the same level may follow the right operand. -/
def BinaryOp.chains (op : BinaryOp) : Bool := op.level != 3

/-- The level that the left operand of an operator may have. -/
def BinaryOp.leftLevel (op : BinaryOp) : Nat := if op.chains then op.level else op.level - 1

/-- The level of the loosest operators. -/
def topLevel : Nat := 5

end ImpSyntax

import ImpSyntax.Stmt
import ImpSyntax.Token

/-!
# ImpSyntax.Source.OfProgram

The source text of a program: its tokens, a blank between any two of them.

Parentheses stand where they are needed and nowhere else: around an operand whose operator is
looser than the place allows. The left operand may be of the level of its operator if operators of
that level chain; the right operand is tighter, and the operand of a prefix operator has no
operator between operands at all.
-/

namespace ImpSyntax

def BinaryOp.kind : BinaryOp → TokenKind
  | multiply => .multiply
  | divide => .divide
  | mod => .mod
  | add => .add
  | subtract => .subtract
  | less => .less
  | lessEqual => .lessEqual
  | greater => .greater
  | greaterEqual => .greaterEqual
  | equal => .equal
  | notEqual => .notEqual
  | and => .and
  | or => .or

def UnaryOp.kind : UnaryOp → TokenKind
  | negate => .negate
  | not => .not

/-- The tokens of an expression where operators of `level` or tighter may stand bare. -/
def Expr.kinds (level : Nat) : Expr → List TokenKind
  | .identifier name => [.identifier name]
  | .integer digits => [.integer digits]
  | .unary op operand => op.kind :: operand.kinds 0
  | .binary op left right =>
    let bare := left.kinds op.leftLevel ++ op.kind :: right.kinds (op.level - 1)
    if op.level ≤ level then bare else .leftParen :: bare ++ [.rightParen]

def PrintItem.kinds : PrintItem → List TokenKind
  | .string text => [.string text]
  | .expr value => value.kinds topLevel

/-- The tokens of an expression in parentheses. -/
def Expr.inParens (value : Expr) : List TokenKind :=
  .leftParen :: value.kinds topLevel ++ [.rightParen]

mutual

def Stmt.kinds : Stmt → List TokenKind
  | .empty => [.semicolon]
  | .assign name value => .identifier name :: .assign :: value.kinds topLevel ++ [.semicolon]
  | .ifThen condition body => .ifWord :: condition.inParens ++ body.kinds
  | .ifElse condition body other =>
    .ifWord :: condition.inParens ++ body.kinds ++ .elseWord :: other.kinds
  | .whileLoop condition body => .whileWord :: condition.inParens ++ body.kinds
  | .print first more =>
    .printWord :: .leftParen :: first.kinds ++ more.flatMap (.comma :: ·.kinds) ++
      [.rightParen, .semicolon]
  | .putc value => .putcWord :: value.inParens ++ [.semicolon]
  | .block body => .leftBrace :: Stmt.kindsOf body ++ [.rightBrace]

def Stmt.kindsOf : List Stmt → List TokenKind
  | [] => []
  | s :: body => s.kinds ++ Stmt.kindsOf body

end

def Program.kinds (program : Program) : List TokenKind := Stmt.kindsOf program.body

def Program.source (program : Program) : String :=
  " ".intercalate (program.kinds.map TokenKind.spelling)

end ImpSyntax

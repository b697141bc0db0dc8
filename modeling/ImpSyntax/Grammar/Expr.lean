import ImpSyntax.Expr
import ImpSyntax.Grammar.Failure

/-!
# ImpSyntax.Grammar.Expr

The grammar of expressions. `expr n` reads an expression whose operators outside of parentheses
are of level `n` or tighter:

    expr 0       = unary
    expr (n + 1) = expr n, then any number of an operator of level n + 1 and expr n
    unary        = a prefix operator and unary, or primary
    primary      = an identifier, an integer, or an expression in parentheses

At a level whose operators do not chain there is at most one operator. Both kinds of minus are
read alike, between two operands as subtraction and in front of one as negation, since which kind
a source text has there depends on the spelling of the left operand.
-/

namespace ImpSyntax
namespace Grammar

/-- The operator that a token is between two operands. -/
def binaryOp? : TokenKind → Option BinaryOp
  | .multiply => some .multiply
  | .divide => some .divide
  | .mod => some .mod
  | .add => some .add
  | .subtract | .negate => some .subtract
  | .less => some .less
  | .lessEqual => some .lessEqual
  | .greater => some .greater
  | .greaterEqual => some .greaterEqual
  | .equal => some .equal
  | .notEqual => some .notEqual
  | .and => some .and
  | .or => some .or
  | _ => none

/-- The operator that a token is in front of an operand. -/
def unaryOp? : TokenKind → Option UnaryOp
  | .subtract | .negate => some .negate
  | .not => some .not
  | _ => none

def opOfLevel? (level : Nat) (t : TokenKind) : Option BinaryOp :=
  (binaryOp? t).filter (·.level == level)

mutual

def expr (level : Nat) (tokens : List Token) : Except Failure (Parsed Expr tokens.length) :=
  match level with
  | 0 => unary tokens
  | level + 1 => do
    let ⟨left, rest, h⟩ ← expr level tokens
    let found ← operators level left rest
    .ok (found.widen h)
termination_by (tokens.length, level + 2)

/-- Extends `left` by the operators of the level above `level`, from left to right. -/
def operators (level : Nat) (left : Expr) (tokens : List Token) :
    Except Failure (Parsed Expr (tokens.length + 1)) :=
  match tokens with
  | [] => .ok ⟨left, [], Nat.lt_succ_self _⟩
  | t :: tokens =>
    match opOfLevel? (level + 1) t.kind with
    | none => .ok ⟨left, t :: tokens, Nat.lt_succ_self _⟩
    | some op => do
      let ⟨right, rest, h⟩ ← expr level tokens
      if op.chains then
        let found ← operators level (.binary op left right) rest
        .ok (found.widen (succ_length_le h))
      else .ok ⟨.binary op left right, rest, length_lt_succ_succ h⟩
termination_by (tokens.length, 0)

def unary (tokens : List Token) : Except Failure (Parsed Expr tokens.length) :=
  match tokens with
  | [] => .error (unexpected .expression [])
  | t :: tokens =>
    match unaryOp? t.kind with
    | some op => do
      let ⟨operand, rest, h⟩ ← unary tokens
      .ok ⟨.unary op operand, rest, Nat.lt_succ_of_lt h⟩
    | none => primary (t :: tokens)
termination_by (tokens.length, 1)

def primary (tokens : List Token) : Except Failure (Parsed Expr tokens.length) :=
  match tokens with
  | ⟨.identifier name, _⟩ :: tokens => .ok ⟨.identifier name, tokens, Nat.lt_succ_self _⟩
  | ⟨.integer digits, _⟩ :: tokens => .ok ⟨.integer digits, tokens, Nat.lt_succ_self _⟩
  | ⟨.leftParen, _⟩ :: tokens => do
    let ⟨inner, rest, h⟩ ← expr topLevel tokens
    let ⟨_, rest, h'⟩ ← expect .rightParen .expression rest
    .ok ⟨inner, rest, by simp only [List.length_cons]; omega⟩
  | tokens => .error (unexpected .expression tokens)
termination_by (tokens.length, 0)

end

end Grammar
end ImpSyntax

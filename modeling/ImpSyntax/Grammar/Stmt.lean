import ImpSyntax.Grammar.Expr
import ImpSyntax.Stmt

/-!
# ImpSyntax.Grammar.Stmt

The grammar of statements and programs.

    program   = statements, up to the end
    statements = any number of statement, up to a closing brace or the end
    statement = ;
              | identifier = expression ;
              | if ( expression ) statement, and else statement if an else is next
              | while ( expression ) statement
              | print ( item, and any number of comma and item ) ;
              | putc ( expression ) ;
              | the statements between braces
    item      = a string or an expression

So an else belongs to the nearest if that has none yet.
-/

namespace ImpSyntax
namespace Grammar

def topExpr (tokens : List Token) : Except Failure (Parsed Expr tokens.length) :=
  expr topLevel tokens

/-- An expression in parentheses, at the given places. -/
def condition (word inside : Place) (tokens : List Token) :
    Except Failure (Parsed Expr tokens.length) := do
  let ⟨_, rest, h₁⟩ ← expect .leftParen word tokens
  let ⟨value, rest, h₂⟩ ← topExpr rest
  let ⟨_, rest, h₃⟩ ← expect .rightParen inside rest
  .ok ⟨value, rest, length_lt_of_three h₁ h₂ h₃⟩

def printItem (tokens : List Token) : Except Failure (Parsed PrintItem tokens.length) :=
  match tokens with
  | ⟨.string text, _⟩ :: tokens => .ok ⟨.string text, tokens, length_lt_succ tokens⟩
  | tokens => do
    let ⟨value, rest, h⟩ ← topExpr tokens
    .ok ⟨.expr value, rest, h⟩

/-- The items behind the first one, each behind a comma. -/
def morePrintItems (tokens : List Token) :
    Except Failure (Parsed (List PrintItem) (tokens.length + 1)) :=
  match tokens with
  | ⟨.comma, _⟩ :: tokens => do
    let ⟨item, rest, h₁⟩ ← printItem tokens
    let ⟨items, rest, h₂⟩ ← morePrintItems rest
    .ok ⟨item :: items, rest, by simp only [List.length_cons]; omega⟩
  | tokens => .ok ⟨[], tokens, Nat.lt_succ_self _⟩
termination_by tokens.length

mutual

def stmt (tokens : List Token) : Except Failure (Parsed Stmt tokens.length) :=
  match tokens with
  | ⟨.semicolon, _⟩ :: tokens => .ok ⟨.empty, tokens, Nat.lt_succ_self _⟩
  | ⟨.identifier name, _⟩ :: tokens => do
    let ⟨_, rest, h₁⟩ ← expect .assign .identifier tokens
    let ⟨value, rest, h₂⟩ ← topExpr rest
    let ⟨_, rest, h₃⟩ ← expect .semicolon .assignment rest
    .ok ⟨.assign name value, rest, by simp only [List.length_cons]; omega⟩
  | ⟨.ifWord, _⟩ :: tokens => do
    let ⟨test, rest, h₁⟩ ← condition .ifWord .ifCondition tokens
    let ⟨body, rest, h₂⟩ ← stmt rest
    match rest, h₂ with
    | ⟨.elseWord, _⟩ :: rest, h₂ => do
      have h₂ := Nat.lt_of_succ_lt h₂
      let ⟨other, rest, h₃⟩ ← stmt rest
      .ok ⟨.ifElse test body other, rest, by simp only [List.length_cons]; omega⟩
    | rest, h₂ => .ok ⟨.ifThen test body, rest, by simp only [List.length_cons]; omega⟩
  | ⟨.whileWord, _⟩ :: tokens => do
    let ⟨test, rest, h₁⟩ ← condition .whileWord .whileCondition tokens
    let ⟨body, rest, h₂⟩ ← stmt rest
    .ok ⟨.whileLoop test body, rest, by simp only [List.length_cons]; omega⟩
  | ⟨.printWord, _⟩ :: tokens => do
    let ⟨_, rest, h₁⟩ ← expect .leftParen .printWord tokens
    let ⟨first, rest, h₂⟩ ← printItem rest
    let ⟨more, rest, h₃⟩ ← morePrintItems rest
    let ⟨_, rest, h₄⟩ ← expect .rightParen .printArguments rest
    let ⟨_, rest, h₅⟩ ← expect .semicolon .printStatement rest
    .ok ⟨.print first more, rest, by simp only [List.length_cons]; omega⟩
  | ⟨.putcWord, _⟩ :: tokens => do
    let ⟨value, rest, h₁⟩ ← condition .putcWord .putcArgument tokens
    let ⟨_, rest, h₂⟩ ← expect .semicolon .putcStatement rest
    .ok ⟨.putc value, rest, by simp only [List.length_cons]; omega⟩
  | ⟨.leftBrace, _⟩ :: tokens => do
    let ⟨body, rest, h₁⟩ ← stmts tokens
    let ⟨_, rest, h₂⟩ ← expect .rightBrace .block rest
    .ok ⟨.block body, rest, by simp only [List.length_cons]; omega⟩
  | tokens => .error (unexpected .statement tokens)
termination_by 2 * tokens.length

/-- The statements up to a closing brace or the end. -/
def stmts (tokens : List Token) : Except Failure (Parsed (List Stmt) (tokens.length + 1)) :=
  match tokens with
  | [] => .ok ⟨[], [], Nat.lt_succ_self _⟩
  | ⟨.rightBrace, place⟩ :: tokens => .ok ⟨[], ⟨.rightBrace, place⟩ :: tokens, Nat.lt_succ_self _⟩
  | tokens => do
    let ⟨head, rest, h₁⟩ ← stmt tokens
    let ⟨tail, rest, h₂⟩ ← stmts rest
    .ok ⟨head :: tail, rest, by omega⟩
termination_by 2 * tokens.length + 1

end

def program (tokens : List Token) : Except Failure (Parsed Program (tokens.length + 1)) := do
  let ⟨body, rest, h⟩ ← stmts tokens
  if rest.isEmpty then .ok ⟨⟨body⟩, rest, h⟩
  else .error (unexpected .statementOrEnd rest)

end Grammar
end ImpSyntax

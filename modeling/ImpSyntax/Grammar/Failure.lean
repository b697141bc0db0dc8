import ImpSyntax.Token

/-!
# ImpSyntax.Grammar.Failure

What a grammar rule gives for the tokens ahead: a value and the tokens behind it (`Parsed`), or
what it expected, the token that is there instead, and the tokens that it leaves (`Failure`). A rule
gives up where it meets a token that does not fit (`unexpected`), and the rules around it pass the
failure on as it is.

A value of `Parsed α n` leaves fewer than `n` tokens, and every rule gives a bound in the tokens
it was given. That is what the recursion of the rules ends by.
-/

namespace ImpSyntax
namespace Grammar

/-- What stands in front of a mark that is expected. -/
inductive Place where
  | identifier | assignment
  | ifWord | ifCondition
  | whileWord | whileCondition
  | printWord | printArguments | printStatement
  | putcWord | putcArgument | putcStatement
  | block
  | expression
  deriving DecidableEq, Repr

def Place.text : Place → String
  | identifier => "identifier"
  | assignment => "assignment"
  | ifWord => "'if'"
  | ifCondition => "'if' condition"
  | whileWord => "'while'"
  | whileCondition => "'while' condition"
  | printWord => "'print'"
  | printArguments => "print arguments"
  | printStatement => "print statement"
  | putcWord => "'putc'"
  | putcArgument => "putc argument"
  | putcStatement => "putc statement"
  | block => "block"
  | expression => "expression"

inductive Expected where
  | statementOrEnd
  | statement
  | expression
  | mark (kind : TokenKind) (after : Place)
  deriving DecidableEq, Repr

def Expected.text : Expected → String
  | statementOrEnd => "Expected statement or end of input"
  | statement => "Expected statement"
  | expression => "Expected expression"
  | mark kind after => "Expected '" ++ kind.spelling ++ "' after " ++ after.text

/-- No token is found where the tokens end. -/
structure Failure where
  expected : Expected
  found : Option Token
  rest : List Token
  deriving DecidableEq, Repr

/-- Gives up in front of the tokens, on account of the first one. -/
def unexpected (expected : Expected) : List Token → Failure
  | [] => ⟨expected, none, []⟩
  | t :: tokens => ⟨expected, some t, t :: tokens⟩

structure Parsed (α : Type) (n : Nat) where
  value : α
  rest : List Token
  short : rest.length < n

def Parsed.widen {α : Type} {m n : Nat} (p : Parsed α m) (h : m ≤ n) : Parsed α n :=
  ⟨p.value, p.rest, Nat.lt_of_lt_of_le p.short h⟩

/-! The bounds of rules that are made of other rules, in the tokens that each of them leaves. -/

section

variable {α : Type} {tokens rest rest₁ rest₂ : List α}

theorem length_lt_succ (tokens : List α) : tokens.length < tokens.length + 1 :=
  Nat.lt_succ_self _

theorem length_lt_of_three (h₁ : rest₁.length < tokens.length) (h₂ : rest₂.length < rest₁.length)
    (h₃ : rest.length < rest₂.length) : rest.length < tokens.length :=
  Nat.lt_trans h₃ (Nat.lt_trans h₂ h₁)

theorem succ_length_le (h : rest.length < tokens.length) : rest.length + 1 ≤ tokens.length + 2 :=
  Nat.le_succ_of_le (Nat.succ_le_succ (Nat.le_of_lt h))

theorem length_lt_succ_succ (h : rest.length < tokens.length) : rest.length < tokens.length + 2 :=
  Nat.lt_of_succ_le (succ_length_le h)

end

/-- Takes a mark that has to come next. -/
def expect (kind : TokenKind) (after : Place) :
    (tokens : List Token) → Except Failure (Parsed Unit tokens.length)
  | [] => .error (unexpected (.mark kind after) [])
  | t :: tokens =>
    if t.kind = kind then .ok ⟨(), tokens, Nat.lt_succ_self _⟩
    else .error (unexpected (.mark kind after) (t :: tokens))

end Grammar
end ImpSyntax

import ImpSyntax.Decimal
import ImpSyntax.Location

/-!
# ImpSyntax.Diagnostic

What is shown of an error: which half of the front end found it, where, and a message.
-/

namespace ImpSyntax

/-- Cutting a text into tokens, or putting tokens together. -/
inductive Stage where
  | lexing
  | parsing
  deriving DecidableEq, Repr

def Stage.heading : Stage → String
  | .lexing => "Lexer error"
  | .parsing => "Parse error"

structure Diagnostic where
  stage : Stage
  location : Location
  message : String
  deriving DecidableEq, Repr

def Diagnostic.text (d : Diagnostic) : String :=
  d.stage.heading ++ " at line " ++ String.ofList (Decimal.write d.location.line) ++
    ", column " ++ String.ofList (Decimal.write d.location.column) ++ ": " ++ d.message

end ImpSyntax

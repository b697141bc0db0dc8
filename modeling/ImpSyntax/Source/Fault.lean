import ImpSyntax.Diagnostic

/-!
# ImpSyntax.Source.Fault

What can be wrong with a lexeme, and a fault at a place.
-/

namespace ImpSyntax

inductive LexFault where
  /-- No token starts with the character. -/
  | unexpectedCharacter (c : Char)
  /-- The character has to stand twice. -/
  | incompleteOperator (c : Char)
  | unterminatedString
  | unterminatedComment
  | unterminatedCharLiteral
  | emptyCharLiteral
  /-- The character may not follow a backslash in a character literal. -/
  | invalidEscape (c : Char)
  /-- The word starts with a digit and is no integer. -/
  | invalidNumber (word : String)
  deriving DecidableEq, Repr

def LexFault.message : LexFault → String
  | unexpectedCharacter c => "Unexpected character: '" ++ c.toString ++ "'"
  | incompleteOperator c => "Expected '" ++ c.toString ++ c.toString ++ "'"
  | unterminatedString => "Unterminated string literal"
  | unterminatedComment => "Unterminated block comment"
  | unterminatedCharLiteral => "Unterminated character literal"
  | emptyCharLiteral => "Empty character literal"
  | invalidEscape c => "Unknown escape sequence: \\" ++ c.toString
  | invalidNumber word => "Invalid integer literal: " ++ word

/-- The location is that of the first character of the lexeme. -/
structure LexError where
  fault : LexFault
  location : Location
  deriving DecidableEq, Repr

def LexError.diagnostic (e : LexError) : Diagnostic := ⟨.lexing, e.location, e.fault.message⟩

end ImpSyntax

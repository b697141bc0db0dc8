import ImpSyntax.Diagnostic
import ImpSyntax.Token

/-!
# ImpSyntax.Listing.Fault

What can be wrong with an entry of a token listing, and a fault at a place.
-/

namespace ImpSyntax

inductive ListingFault where
  | malformedLine (field : String)
  | malformedColumn (field : String)
  | missingQuote
  | unterminatedString
  | unknownKind (name : String)
  | malformedInteger (text : String)
  | malformedIdentifier (text : String)
  /-- A kind that carries no text is followed by some. -/
  | unexpectedText (text : String) (kind : TokenKind)
  deriving DecidableEq, Repr

def ListingFault.message : ListingFault → String
  | malformedLine field => "Malformed token line number '" ++ field ++ "'"
  | malformedColumn field => "Malformed token column '" ++ field ++ "'"
  | missingQuote => "Expected '\"' before string token payload"
  | unterminatedString => "Unterminated string token payload"
  | unknownKind name => "Unknown token kind '" ++ name ++ "'"
  | malformedInteger text => "Malformed integer token payload '" ++ text ++ "'"
  | malformedIdentifier text => "Malformed identifier token payload '" ++ text ++ "'"
  | unexpectedText text kind => "Unexpected text '" ++ text ++ "' after " ++ kind.name

/-- The line is that on which the entry starts. -/
structure ListingError where
  fault : ListingFault
  line : UInt64
  deriving DecidableEq, Repr

def ListingError.location (e : ListingError) : Location := ⟨e.line, 1⟩

def ListingError.diagnostic (e : ListingError) : Diagnostic :=
  ⟨.parsing, e.location, e.fault.message⟩

end ImpSyntax

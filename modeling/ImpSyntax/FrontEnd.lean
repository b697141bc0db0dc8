import ImpSyntax.Listing.Line
import ImpSyntax.Listing.Reader
import ImpSyntax.Source.Cursor
import ImpSyntax.TokenStream
import ImpSyntax.Tree.OfProgram

/-!
# ImpSyntax.FrontEnd

From a text to a program, directly or by way of a token listing.

* `listing`      — the token listing of a source text.
* `readListing`  — the tokens of a listing.
* `parseSource`  — the program of a source text.
* `parseListing` — the program of a token listing.
-/

namespace ImpSyntax

inductive Error where
  | lex (error : LexError)
  | listing (error : ListingError)
  | parse (error : SyntaxError)
  deriving DecidableEq, Repr

def Error.diagnostic : Error → Diagnostic
  | lex error => error.diagnostic
  | listing error => error.diagnostic
  | parse error => error.diagnostic

def listing (source : String) : Except LexError String :=
  match Source.tokenize source with
  | .ok tokens => .ok (String.ofList (Listing.write tokens))
  | .error e => .error e

def readListing (text : String) : Except ListingError (List Token) := Listing.read text.toList

def parseSource (source : String) : Except Error Program :=
  match Source.tokenize source with
  | .error e => .error (.lex e)
  | .ok tokens => (parse tokens).mapError .parse

def parseListing (text : String) : Except Error Program :=
  match readListing text with
  | .error e => .error (.listing e)
  | .ok tokens => (parse tokens).mapError .parse

/-- The dump of the tree of a program. -/
def Program.dump (program : Program) : String := program.toTree.dump

end ImpSyntax

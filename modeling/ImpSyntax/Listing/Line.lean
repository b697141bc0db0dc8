import ImpSyntax.Decimal
import ImpSyntax.Token

/-!
# ImpSyntax.Listing.Line

Writing token listings: one line for each token, with columns of fixed width.

    line  column kind           text

Line and column are set to the right in five places, the name of the kind to the left in fifteen.
An integer follows behind two blanks, set to the right in four places, an identifier and a string
behind one, the string in double quotes. Nothing is cut that is longer than its column, and nothing
is escaped: a string that holds line feeds takes as many lines.
-/

namespace ImpSyntax
namespace Listing

def textField : TokenKind → List Char
  | .integer digits => ' ' :: ' ' :: digits.toList.leftpad 4 ' '
  | .identifier name => ' ' :: name.toList
  | .string text => ' ' :: '"' :: text.toList ++ ['"']
  | _ => []

def line (token : Token) : List Char :=
  (Decimal.write token.location.line).leftpad 5 ' ' ++ [' ', ' '] ++
    (Decimal.write token.location.column).leftpad 5 ' ' ++ [' '] ++
    token.kind.name.toList.rightpad 15 ' ' ++ textField token.kind

/-- The lines of the tokens, a line feed between any two of them. -/
def write (tokens : List Token) : List Char := ['\n'].intercalate (tokens.map line)

end Listing
end ImpSyntax

import ImpSyntax.Unicode.WhiteSpace

/-!
# ImpSyntax.Listing.Field

The cutting of a line into fields, which white space separates.
-/

namespace ImpSyntax
namespace Listing

open Unicode (isWhiteSpace)

def isBlank (text : List Char) : Bool := text.all isWhiteSpace

def trimStart (text : List Char) : List Char := text.dropWhile isWhiteSpace

def trimEnd (text : List Char) : List Char := (text.reverse.dropWhile isWhiteSpace).reverse

def trim (text : List Char) : List Char := trimEnd (trimStart text)

/-- The first field of a line, empty if the line is blank, and the line behind it. -/
def splitField (text : List Char) : List Char × List Char :=
  ((trimStart text).takeWhile (!isWhiteSpace ·), (trimStart text).dropWhile (!isWhiteSpace ·))

end Listing
end ImpSyntax

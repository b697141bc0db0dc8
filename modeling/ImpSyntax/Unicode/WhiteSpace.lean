import ImpSyntax.Unicode.Ranges

/-!
# ImpSyntax.Unicode.WhiteSpace

The property White_Space: 25 characters in ten ranges. It is what separates lexemes in a source
text and fields in a token listing. Controls U+001C to U+001F and the zero-width characters are
outside it.
-/

namespace ImpSyntax
namespace Unicode

def whiteSpaceRanges : List (Nat × Nat) :=
  [(0x0009, 0x000D), (0x0020, 0x0020), (0x0085, 0x0085), (0x00A0, 0x00A0), (0x1680, 0x1680),
   (0x2000, 0x200A), (0x2028, 0x2029), (0x202F, 0x202F), (0x205F, 0x205F), (0x3000, 0x3000)]

def isWhiteSpace (c : Char) : Bool := inRanges whiteSpaceRanges c.toNat

end Unicode
end ImpSyntax

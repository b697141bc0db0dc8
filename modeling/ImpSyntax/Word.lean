import ImpSyntax.Decimal
import ImpSyntax.Token
import ImpSyntax.Unicode.Numeric

/-!
# ImpSyntax.Word

Words: the maximal runs of letters, digits and underscores in a source text. A word is an integer,
a reserved word or an identifier, or it is ill formed because it starts with a digit and goes on
with something else (`wordKind?`).

Letters and digits of every script belong to words, but only the digits 0 to 9 make an integer
and only they may start one.
-/

namespace ImpSyntax

def isWordStart (c : Char) : Bool := Unicode.isAlphabetic c || c.isDigit || c == '_'

def isWordChar (c : Char) : Bool := Unicode.isAlphanumeric c || c == '_'

def reservedWord? : String → Option TokenKind
  | "if" => some .ifWord
  | "else" => some .elseWord
  | "while" => some .whileWord
  | "print" => some .printWord
  | "putc" => some .putcWord
  | _ => none

/-- The kind of the word that starts with `c` and goes on with `cs`; none if it is ill formed. -/
def wordKind? (c : Char) (cs : List Char) : Option TokenKind :=
  let word := String.ofList (c :: cs)
  if Decimal.isNumeral (c :: cs) then some (.integer word)
  else if c.isDigit then none
  else some ((reservedWord? word).getD (.identifier word))

/-- A word that may name a variable. -/
def isIdentifier : List Char → Bool
  | [] => false
  | c :: cs =>
    (Unicode.isAlphabetic c || c == '_') && cs.all isWordChar &&
      (reservedWord? (String.ofList (c :: cs))).isNone

end ImpSyntax

/-!
# ImpSyntax.Decimal

Decimal numerals: the digits of a number, and the reading of a 64-bit word.

`Decimal.read?_write` says that what is written reads back. More texts are read than are written:
a single plus sign may stand in front, and so may any number of zeros.
-/

namespace ImpSyntax
namespace Decimal

/-- A nonempty run of the digits 0 to 9. -/
def isNumeral (text : List Char) : Bool := !text.isEmpty && text.all Char.isDigit

def write (n : UInt64) : List Char := Nat.toDigits 10 n.toNat

def value (digits : List Char) : Nat := Nat.ofDigitChars 10 digits 0

def dropPlus : List Char → List Char
  | '+' :: text => text
  | text => text

/-- A numeral whose value does not fit into a word is refused. -/
def read? (text : List Char) : Option UInt64 :=
  let digits := dropPlus text
  if isNumeral digits && value digits < UInt64.size then some (.ofNat (value digits)) else none

theorem isNumeral_toDigits (n : Nat) : isNumeral (Nat.toDigits 10 n) = true := by
  have hne : Nat.toDigits 10 n ≠ [] := List.ne_nil_of_length_pos Nat.length_toDigits_pos
  simp only [isNumeral, Bool.and_eq_true, List.all_eq_true, Bool.not_eq_true',
    List.isEmpty_eq_false_iff]
  exact ⟨hne, fun c hc => Nat.isDigit_of_mem_toDigits (by decide) (by decide) hc⟩

theorem isNumeral_write (n : UInt64) : isNumeral (write n) = true := isNumeral_toDigits n.toNat

theorem value_write (n : UInt64) : value (write n) = n.toNat :=
  Nat.ofDigitChars_toDigits (by decide) (by decide)

theorem dropPlus_of_isNumeral {text : List Char} (h : isNumeral text = true) :
    dropPlus text = text := by
  unfold dropPlus
  split
  · simp [isNumeral] at h
  · rfl

theorem read?_write (n : UInt64) : read? (write n) = some n := by
  simp [read?, dropPlus_of_isNumeral (isNumeral_write n), isNumeral_write, value_write,
    n.toNat_lt_size]

end Decimal
end ImpSyntax

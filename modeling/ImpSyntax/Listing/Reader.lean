import ImpSyntax.Listing.Fault
import ImpSyntax.Listing.Field
import ImpSyntax.Word

/-!
# ImpSyntax.Listing.Reader

Reading token listings. Blank lines are skipped, the columns may have any width, and a token may
have any place; its text has to be one that its kind can have. The entry of a string reaches over
as many lines as it takes to close the string.

* `Header.read`    — the place and the name at the front of an entry.
* `closesString`   — whether a string ends with the line that is read.
* `kindOf`         — the kind of a name and a text, or why there is none.
* `readEntry`      — one entry.
* `read`           — all entries of a listing, or the fault of the first bad one and its line.
-/

namespace ImpSyntax
namespace Listing

/-- A line of a text with its number. -/
structure Row where
  number : UInt64
  text : List Char
  deriving DecidableEq, Repr

def rowsFrom (number : UInt64) : List (List Char) → List Row
  | [] => []
  | text :: texts => ⟨number, text⟩ :: rowsFrom (number + 1) texts

/-- The lines of a text. Only a line feed separates them, and there is always at least one. -/
def rows (text : List Char) : List Row := rowsFrom 1 (text.splitOn '\n')

/-- The place of a token, the name of its kind, and the text behind the name. -/
structure Header where
  location : Location
  kindName : List Char
  tail : List Char
  deriving DecidableEq, Repr

def Header.read (text : List Char) : Except ListingFault Header :=
  let (line, text) := splitField text
  let (column, text) := splitField text
  let (kindName, tail) := splitField text
  match Decimal.read? line, Decimal.read? column with
  | none, _ => .error (.malformedLine (String.ofList line))
  | some _, none => .error (.malformedColumn (String.ofList column))
  | some line, some column => .ok ⟨⟨line, column⟩, kindName, tail⟩

/-- Whether the text behind an opening quote ends with a closing one, white space at the end
aside. A quote behind an odd number of backslashes does not close. -/
def closesString (text : List Char) : Bool :=
  match (trimEnd text).reverse with
  | '"' :: before => (before.takeWhile (· == '\\')).length % 2 == 0
  | _ => false

/-- The content of a string whose text behind the opening quote starts with `text` and goes on
with the rows, and the rows behind it. -/
def closeString? (text : List Char) : List Row → Option (List Char × List Row)
  | [] => if closesString text then some ((trimEnd text).dropLast, []) else none
  | row :: rows =>
    if closesString text then some ((trimEnd text).dropLast, row :: rows)
    else closeString? (text ++ '\n' :: row.text) rows

/-- The text of a token whose header has the given name and tail, and the rows behind it. -/
def readText (kindName tail : List Char) (rows : List Row) :
    Except ListingFault (List Char × List Row) :=
  if kindName = "String".toList then
    match trimStart tail with
    | '"' :: text =>
      match closeString? text rows with
      | some found => .ok found
      | none => .error .unterminatedString
    | _ => .error .missingQuote
  else .ok (trim tail, rows)

/-- Why a kind cannot have the text that an entry gives it. -/
def textFault? (kind : TokenKind) (text : List Char) : Option ListingFault :=
  match kind with
  | .string _ => none
  | .integer _ =>
    if Decimal.isNumeral text then none else some (.malformedInteger (String.ofList text))
  | .identifier _ =>
    if isIdentifier text then none else some (.malformedIdentifier (String.ofList text))
  | kind => if text.isEmpty then none else some (.unexpectedText (String.ofList text) kind)

def kindOf (kindName text : List Char) : Except ListingFault TokenKind :=
  match TokenKind.ofName? (String.ofList kindName) (String.ofList text) with
  | none => .error (.unknownKind (String.ofList kindName))
  | some kind =>
    match textFault? kind text with
    | some fault => .error fault
    | none => .ok kind

/-- The token whose entry starts with `text` and may go on with the rows, and the rows behind
it. -/
def readEntry (text : List Char) (rows : List Row) : Except ListingFault (Token × List Row) :=
  match Header.read text with
  | .error fault => .error fault
  | .ok header =>
    match readText header.kindName header.tail rows with
    | .error fault => .error fault
    | .ok (text, rows) =>
      match kindOf header.kindName text with
      | .error fault => .error fault
      | .ok kind => .ok (⟨kind, header.location⟩, rows)

theorem closeString?_suffix {text content : List Char} {rows rest : List Row}
    (h : closeString? text rows = some (content, rest)) : rest <:+ rows := by
  fun_induction closeString? text rows with
  | case1 => cases h; exact List.suffix_rfl
  | case2 => cases h
  | case3 => cases h; exact List.suffix_rfl
  | case4 _ row _ _ ih => exact (ih h).trans (List.suffix_cons row _)

theorem readText_suffix {kindName tail text : List Char} {rows rest : List Row}
    (h : readText kindName tail rows = .ok (text, rest)) : rest <:+ rows := by
  unfold readText at h
  split at h
  · split at h
    · split at h
      · rename_i hclose
        cases h
        exact closeString?_suffix hclose
      · cases h
    · cases h
  · cases h
    exact List.suffix_rfl

theorem readEntry_suffix {text : List Char} {rows rest : List Row} {token : Token}
    (h : readEntry text rows = .ok (token, rest)) : rest <:+ rows := by
  unfold readEntry at h
  split at h
  · cases h
  · split at h
    · cases h
    · rename_i htext
      split at h
      · cases h
      · cases h
        exact readText_suffix htext

def readRows (rows : List Row) : Except ListingError (List Token) :=
  match rows with
  | [] => .ok []
  | row :: rows =>
    if isBlank row.text then readRows rows
    else
      match _h : readEntry row.text rows with
      | .error fault => .error ⟨fault, row.number⟩
      | .ok (token, rest) =>
        match readRows rest with
        | .error e => .error e
        | .ok tokens => .ok (token :: tokens)
termination_by rows.length
decreasing_by
  · exact Nat.lt_succ_self _
  · exact Nat.lt_succ_of_le (readEntry_suffix ‹_›).length_le

def read (text : List Char) : Except ListingError (List Token) := readRows (rows text)

end Listing
end ImpSyntax

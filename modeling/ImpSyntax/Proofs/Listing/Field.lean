import ImpSyntax.Listing.Line
import ImpSyntax.Listing.Reader
import ImpSyntax.Proofs.Span
import ImpSyntax.Proofs.WordChars

/-!
# ImpSyntax.Proofs.Listing.Field

The columns of a listing read back. A column is padded with blanks on one side and holds a word
without white space, so cutting fields finds the word again (`splitField_append`), and the columns
in front of the text of a token give back its place and the name of its kind (`read_header`).
-/

namespace ImpSyntax
namespace Listing

open Unicode (isWhiteSpace)

/-- Whether a text has no white space in it. -/
def isSolid (text : List Char) : Bool := text.all (!isWhiteSpace ·)

/-- Whether a text is empty or starts with white space. -/
def startsBlank (text : List Char) : Bool := text.head?.all isWhiteSpace

theorem isSolid_of_isWordChar {text : List Char} (h : ∀ c ∈ text, isWordChar c = true) :
    isSolid text = true := by
  simp only [isSolid, List.all_eq_true, Bool.not_eq_true']
  exact fun c hc => isWhiteSpace_eq_false (h c hc)

theorem isSolid_of_isNumeral {text : List Char} (h : Decimal.isNumeral text = true) :
    isSolid text = true :=
  isSolid_of_isWordChar (isWordChar_of_isNumeral h)

theorem ne_nil_of_isNumeral {text : List Char} (h : Decimal.isNumeral text = true) :
    text ≠ [] := by
  rintro rfl
  cases h

theorem isBlank_replicate (n : Nat) : isBlank (List.replicate n ' ') = true := by
  simp only [isBlank, List.all_eq_true]
  intro c hc
  rw [List.eq_of_mem_replicate hc]
  rfl

theorem startsBlank_append {blanks text : List Char} (hblanks : isBlank blanks = true)
    (htext : startsBlank text = true) : startsBlank (blanks ++ text) = true := by
  cases blanks with
  | nil => exact htext
  | cons c blanks =>
    simp only [isBlank, List.all_cons, Bool.and_eq_true] at hblanks
    simp [startsBlank, hblanks.1]

/-! ## Trimming -/

theorem trimStart_append {blanks word : List Char} (tail : List Char)
    (hblanks : isBlank blanks = true) (hword : isSolid word = true) (hne : word ≠ []) :
    trimStart (blanks ++ word ++ tail) = word ++ tail := by
  simp only [isBlank, List.all_eq_true] at hblanks
  rw [trimStart, List.append_assoc, List.dropWhile_append_of_pos hblanks]
  cases word with
  | nil => exact absurd rfl hne
  | cons c word =>
    simp only [isSolid, List.all_cons, Bool.and_eq_true, Bool.not_eq_true'] at hword
    rw [List.cons_append, List.dropWhile_cons_of_neg (by simp [hword.1])]

theorem trimStart_of_isBlank {text : List Char} (h : isBlank text = true) :
    trimStart text = [] := by
  simp only [isBlank, List.all_eq_true] at h
  have hdrop : (text ++ []).dropWhile isWhiteSpace = [] := List.dropWhile_append_of_pos h
  rwa [List.append_nil] at hdrop

/-- What is cut off the end of a text is white space. -/
theorem trimEnd_append_blank (text : List Char) :
    ∃ blanks, isBlank blanks = true ∧ trimEnd text ++ blanks = text := by
  refine ⟨(text.reverse.takeWhile isWhiteSpace).reverse, ?_, ?_⟩
  · rw [isBlank, List.all_reverse]
    exact List.all_takeWhile
  · rw [trimEnd, ← List.reverse_append, List.takeWhile_append_dropWhile, List.reverse_reverse]

theorem trimEnd_append_singleton {c : Char} (text : List Char) (hc : isWhiteSpace c = false) :
    trimEnd (text ++ [c]) = text ++ [c] := by
  rw [trimEnd, List.reverse_append, List.reverse_singleton, List.singleton_append,
    List.dropWhile_cons_of_neg (by simp [hc]), List.reverse_cons, List.reverse_reverse]

theorem trimEnd_of_isSolid {word : List Char} (h : isSolid word = true) : trimEnd word = word := by
  obtain ⟨blanks, hblanks, happ⟩ := trimEnd_append_blank word
  have hnone : blanks = [] := by
    rw [← happ] at h
    simp only [isSolid, isBlank, List.all_append, List.all_eq_true, Bool.and_eq_true,
      Bool.not_eq_true'] at h hblanks
    refine List.eq_nil_iff_forall_not_mem.mpr fun c hc => ?_
    have hsolid := h.2 c hc
    rw [hblanks c hc] at hsolid
    cases hsolid
  rwa [hnone, List.append_nil] at happ

/-- A word with blanks in front is all that is left of a text. -/
theorem trim_append {blanks word : List Char} (hblanks : isBlank blanks = true)
    (hword : isSolid word = true) (hne : word ≠ []) : trim (blanks ++ word) = word := by
  have hstart := trimStart_append [] hblanks hword hne
  rw [List.append_nil, List.append_nil] at hstart
  rw [trim, hstart, trimEnd_of_isSolid hword]

theorem trim_of_isBlank {text : List Char} (h : isBlank text = true) : trim text = [] := by
  rw [trim, trimStart_of_isBlank h]
  rfl

/-! ## Columns -/

theorem splitField_append {blanks word tail : List Char} (hblanks : isBlank blanks = true)
    (hword : isSolid word = true) (hne : word ≠ []) (htail : startsBlank tail = true) :
    splitField (blanks ++ word ++ tail) = (word, tail) := by
  simp only [isSolid, List.all_eq_true] at hword
  have hstop : ∀ c ∈ tail.head?, (!isWhiteSpace c) = false := by
    simpa [startsBlank, Option.all_eq_true] using htail
  rw [splitField, trimStart_append tail hblanks (by simpa [isSolid] using hword) hne,
    takeWhile_append_of_stop hword hstop, dropWhile_append_of_stop hword hstop]

/-- The columns in front of the text of a token. -/
def header (token : Token) : List Char :=
  (Decimal.write token.location.line).leftpad 5 ' ' ++ [' ', ' '] ++
    (Decimal.write token.location.column).leftpad 5 ' ' ++ [' '] ++
    token.kind.name.toList.rightpad 15 ' '

theorem line_eq_header_append (token : Token) :
    line token = header token ++ textField token.kind := rfl

theorem isSolid_name (kind : TokenKind) : isSolid kind.name.toList = true := by
  cases kind <;> (dsimp only [TokenKind.name]; decide +kernel)

theorem name_ne_nil (kind : TokenKind) : kind.name.toList ≠ [] := by
  cases kind <;> (dsimp only [TokenKind.name]; decide +kernel)

/-- The blanks between the name of a kind and the text of a token. -/
def namePadding (kind : TokenKind) : List Char := List.replicate (15 - kind.name.toList.length) ' '

theorem isBlank_namePadding (kind : TokenKind) : isBlank (namePadding kind) = true :=
  isBlank_replicate _

theorem read_header (token : Token) {tail : List Char} (htail : startsBlank tail = true) :
    Header.read (header token ++ tail) =
      .ok ⟨token.location, token.kind.name.toList, namePadding token.kind ++ tail⟩ := by
  have hline := Decimal.isNumeral_write token.location.line
  have hcolumn := Decimal.isNumeral_write token.location.column
  have hname : startsBlank (namePadding token.kind ++ tail) = true :=
    startsBlank_append (isBlank_namePadding token.kind) htail
  have hfields : header token ++ tail =
      List.replicate (5 - (Decimal.write token.location.line).length) ' ' ++
        Decimal.write token.location.line ++
        (([' ', ' '] ++
          List.replicate (5 - (Decimal.write token.location.column).length) ' ') ++
          Decimal.write token.location.column ++
          ([' '] ++ token.kind.name.toList ++ (namePadding token.kind ++ tail))) := by
    simp [header, List.leftpad, List.rightpad, namePadding]
  have hblanks : ∀ n, isBlank ([' ', ' '] ++ List.replicate n ' ') = true := by
    intro n
    rw [isBlank, List.all_append, Bool.and_eq_true]
    exact ⟨rfl, isBlank_replicate n⟩
  rw [Header.read, hfields,
    splitField_append (isBlank_replicate _) (isSolid_of_isNumeral hline)
      (ne_nil_of_isNumeral hline) rfl]
  dsimp only
  rw [splitField_append (hblanks _) (isSolid_of_isNumeral hcolumn)
      (ne_nil_of_isNumeral hcolumn) rfl]
  dsimp only
  rw [splitField_append rfl (isSolid_name token.kind) (name_ne_nil token.kind) hname]
  simp only [Decimal.read?_write]

end Listing
end ImpSyntax

import ImpSyntax.FrontEnd
import ImpSyntax.Proofs.Listing.Content
import Mathlib.Control.Monad.Basic

/-!
# ImpSyntax.Proofs.Listing.RoundTrip

A token listing reads back as the tokens it was written from, if a listing can hold each of them
(`Listable`). So can every token of a source text.

* `readEntry_lines`        — the lines of one token read back as the token.
* `read_write_of_listable` — the lines of all tokens read back as the tokens.
* `readListing_listing`    — so the way through a listing is the direct way.
-/

namespace ImpSyntax
namespace Listing

open Unicode (isWhiteSpace)

/-! ## The lines of a token -/

theorem splitOn_append_of_not_mem {c : Char} {front text first : List Char}
    {others : List (List Char)} (hfront : c ∉ front) (htext : text.splitOn c = first :: others) :
    (front ++ text).splitOn c = (front ++ first) :: others := by
  induction front with
  | nil => exact htext
  | cons d front ih =>
    have hd : ¬ (d == c) = true := by
      rw [beq_iff_eq]
      rintro rfl
      exact hfront (List.mem_cons_self ..)
    rw [List.cons_append, List.splitOn_cons_eq_if_modifyHead, if_neg hd,
      ih (fun hc => hfront (List.mem_cons_of_mem _ hc)), List.modifyHead_cons, List.cons_append]

theorem not_mem_of_isSolid {text : List Char} (h : isSolid text = true) : '\n' ∉ text := by
  intro hc
  have hsolid := List.all_eq_true.mp h _ hc
  cases hsolid

theorem not_mem_header (token : Token) : '\n' ∉ header token := by
  have hline := not_mem_of_isSolid
    (isSolid_of_isNumeral (Decimal.isNumeral_write token.location.line))
  have hcolumn := not_mem_of_isSolid
    (isSolid_of_isNumeral (Decimal.isNumeral_write token.location.column))
  have hname := not_mem_of_isSolid (isSolid_name token.kind)
  simp [header, List.leftpad, List.rightpad, hline, hcolumn, hname]

theorem not_mem_textField {kind : TokenKind} (h : kind.isLexical = true)
    (hkind : ∀ text, kind ≠ .string text) : '\n' ∉ textField kind := by
  cases kind with
  | identifier name =>
    have hname := not_mem_of_isSolid (isSolid_of_isWordChar (isWordChar_of_isIdentifier h))
    simp [textField, hname]
  | integer digits =>
    have hdigits := not_mem_of_isSolid (isSolid_of_isNumeral h)
    simp [textField, List.leftpad, hdigits]
  | string text => exact absurd rfl (hkind text)
  | _ => exact List.not_mem_nil

/-- An entry has a place at its front, so it is no blank line. -/
theorem isBlank_header_append (token : Token) (tail : List Char) :
    isBlank (header token ++ tail) = false := by
  have hnumeral := Decimal.isNumeral_write token.location.line
  have hsolid := isSolid_of_isNumeral hnumeral
  obtain ⟨digit, hdigit⟩ := List.exists_mem_of_ne_nil _ (ne_nil_of_isNumeral hnumeral)
  have hmem : digit ∈ header token ++ tail := by simp [header, List.leftpad, hdigit]
  rw [Bool.eq_false_iff]
  intro hblank
  have hwhite := List.all_eq_true.mp hblank digit hmem
  have hblack := List.all_eq_true.mp hsolid digit hdigit
  rw [hwhite] at hblack
  cases hblack

theorem startsBlank_textField (kind : TokenKind) : startsBlank (textField kind) = true := by
  cases kind <;> rfl

theorem textFault?_of_isLexical {kind : TokenKind} (h : kind.isLexical = true) :
    textFault? kind (kind.text?.getD "").toList = none := by
  unfold textFault?
  split
  · rfl
  · exact if_pos h
  · exact if_pos h
  · cases kind <;> first | rfl | simp_all

theorem kindOf_name {kind : TokenKind}
    (h : textFault? kind (kind.text?.getD "").toList = none) :
    kindOf kind.name.toList (kind.text?.getD "").toList = .ok kind := by
  rw [kindOf, String.ofList_toList, String.ofList_toList, TokenKind.ofName?_name]
  simp only [h]

theorem trim_textField {kind : TokenKind} (h : kind.isLexical = true)
    (hkind : ∀ text, kind ≠ .string text) :
    trim (namePadding kind ++ textField kind) = (kind.text?.getD "").toList := by
  have hpad : ∀ blanks, isBlank blanks = true → isBlank (namePadding kind ++ blanks) = true := by
    intro blanks hblanks
    rw [isBlank, List.all_append, Bool.and_eq_true]
    exact ⟨isBlank_namePadding kind, hblanks⟩
  cases kind with
  | identifier name =>
    have hsolid := isSolid_of_isWordChar (isWordChar_of_isIdentifier h)
    have hne : name.toList ≠ [] := by
      intro hnil
      simp [TokenKind.isLexical, hnil, isIdentifier] at h
    have htrim := trim_append (hpad [' '] rfl) hsolid hne
    rwa [List.append_assoc] at htrim
  | integer digits =>
    have hblanks := hpad ([' ', ' '] ++ List.replicate (4 - digits.toList.length) ' ') (by
      rw [isBlank, List.all_append, Bool.and_eq_true]
      exact ⟨rfl, isBlank_replicate _⟩)
    have htrim := trim_append hblanks (isSolid_of_isNumeral h) (ne_nil_of_isNumeral h)
    rwa [List.append_assoc, List.append_assoc] at htrim
  | string text => exact absurd rfl (hkind text)
  | _ => exact trim_of_isBlank (hpad [] rfl)

theorem name_eq_string {kind : TokenKind} (h : kind.name.toList = "String".toList) :
    ∃ text, kind = .string text := by
  have hname : kind.name = "String" := String.toList_inj.mp h
  have hkind := TokenKind.ofName?_name kind
  rw [hname] at hkind
  exact ⟨kind.text?.getD "", (Option.some.inj hkind).symm⟩

theorem readEntry_plain {token : Token} (h : token.kind.isLexical = true)
    (hkind : ∀ text, token.kind ≠ .string text) (more : List Row) :
    readEntry (line token) more = .ok (token, more) := by
  have hname : token.kind.name.toList ≠ "String".toList := by
    intro heq
    obtain ⟨text, hstring⟩ := name_eq_string heq
    exact hkind text hstring
  rw [line_eq_header_append, readEntry, read_header token (startsBlank_textField token.kind)]
  simp only [readText, if_neg hname, trim_textField h hkind,
    kindOf_name (textFault?_of_isLexical h)]

theorem readEntry_string {text : String} (h : IsContent text.toList)
    (location : Location) {first : List Char} {others : List (List Char)}
    (hlines : (text.toList ++ ['"']).splitOn '\n' = first :: others) (number : UInt64)
    (more : List Row) :
    readEntry (header ⟨.string text, location⟩ ++ ' ' :: '"' :: first)
      (rowsFrom number others ++ more) = .ok (⟨.string text, location⟩, more) := by
  have hall : ['\n'].intercalate (first :: others) = text.toList ++ ['"'] := by
    rw [← hlines, List.intercalate_splitOn]
  have htail : trimStart (namePadding (.string text) ++ ' ' :: '"' :: first) = '"' :: first := by
    have hblanks : isBlank (namePadding (.string text) ++ [' ']) = true := by
      rw [isBlank, List.all_append, Bool.and_eq_true]
      exact ⟨isBlank_namePadding _, rfl⟩
    have hquote : isSolid ['"'] = true := by decide
    have htrim := trimStart_append first hblanks hquote (List.cons_ne_nil _ _)
    rwa [List.append_assoc, List.append_assoc] at htrim
  have hkind : kindOf (TokenKind.string text).name.toList text.toList = .ok (.string text) :=
    @kindOf_name (.string text) rfl
  have hname : (TokenKind.string text).name.toList = "String".toList := rfl
  have htext : readText (TokenKind.string text).name.toList
      (namePadding (.string text) ++ ' ' :: '"' :: first) (rowsFrom number others ++ more) =
        .ok (text.toList, more) := by
    rw [readText, if_pos hname, htail]
    simp only [closeString?_lines h others first number more hall]
  rw [readEntry, read_header ⟨.string text, location⟩ rfl]
  simp only [htext, hkind]

/-- The lines of a token start with one that is not blank and read back as the token. -/
theorem readEntry_lines {kind : TokenKind} (h : Listable kind) (location : Location) :
    ∃ first others, (line ⟨kind, location⟩).splitOn '\n' = first :: others ∧
      isBlank first = false ∧ ∀ number more,
        readEntry first (rowsFrom number others ++ more) = .ok (⟨kind, location⟩, more) := by
  have hline := line_eq_header_append ⟨kind, location⟩
  cases h with
  | @string text hcontent =>
    have hfront : '\n' ∉ header ⟨.string text, location⟩ ++ [' ', '"'] := by
      simp [not_mem_header]
    cases hlines : (text.toList ++ ['"']).splitOn '\n' with
    | nil => exact absurd hlines (List.splitOn_ne_nil _ _)
    | cons first others =>
      have hsplit := splitOn_append_of_not_mem hfront hlines
      refine ⟨_, others, ?_, ?_, readEntry_string hcontent location hlines⟩
      · simpa [hline, textField] using hsplit
      · exact isBlank_header_append _ _
  | plain hkind hlexical =>
    refine ⟨line ⟨kind, location⟩, [], ?_, ?_, ?_⟩
    · apply List.splitOn_eq_singleton
      rw [hline, List.mem_append, not_or]
      exact ⟨not_mem_header _, not_mem_textField hlexical hkind⟩
    · rw [hline]
      exact isBlank_header_append _ _
    · intro number more
      exact readEntry_plain hlexical hkind more

/-! ## All lines -/

theorem rowsFrom_append (number : UInt64) (front behind : List (List Char)) :
    rowsFrom number (front ++ behind) =
      rowsFrom number front ++ rowsFrom (number + .ofNat front.length) behind := by
  induction front generalizing number with
  | nil => simp [rowsFrom]
  | cons text front ih =>
    have hnext : number + 1 + .ofNat front.length = number + .ofNat (front.length + 1) := by
      rw [UInt64.ofNat_add, UInt64.add_assoc, UInt64.add_comm 1]
      rfl
    rw [List.cons_append, rowsFrom, ih, hnext]
    rfl

theorem splitOn_write {tokens : List Token} (hne : tokens ≠ []) :
    (write tokens).splitOn '\n' = tokens.flatMap fun token => (line token).splitOn '\n' := by
  induction tokens with
  | nil => exact absurd rfl hne
  | cons token tokens ih =>
    cases tokens with
    | nil => simp [write, List.intercalate_singleton]
    | cons next tokens =>
      have hwrite : write (token :: next :: tokens) =
          line token ++ '\n' :: write (next :: tokens) := by
        simp [write, List.intercalate_cons_cons]
      rw [hwrite, List.splitOn_append_cons_self, ih (List.cons_ne_nil _ _)]
      rfl

theorem readRows_blank (row : Row) (h : isBlank row.text = true) (rows : List Row) :
    readRows (row :: rows) = readRows rows := by
  rw [readRows, if_pos h]

theorem readRows_fault (row : Row) (hblank : ¬ isBlank row.text = true) {rows : List Row}
    {fault : ListingFault} (h : readEntry row.text rows = .error fault) :
    readRows (row :: rows) = .error ⟨fault, row.number⟩ := by
  rw [readRows, if_neg hblank]
  split
  · rename_i hentry
    rw [h] at hentry
    cases hentry
    rfl
  · rename_i hentry
    rw [h] at hentry
    cases hentry

theorem readRows_entry (row : Row) (hblank : ¬ isBlank row.text = true) {rows rest : List Row}
    {token : Token} (h : readEntry row.text rows = .ok (token, rest)) :
    readRows (row :: rows) = (readRows rest).map (token :: ·) := by
  rw [readRows, if_neg hblank]
  split
  · rename_i hentry
    rw [h] at hentry
    cases hentry
  · rename_i hentry
    rw [h] at hentry
    cases hentry
    cases readRows rest <;> rfl

theorem readRows_lines {tokens : List Token}
    (h : ∀ token ∈ tokens, Listable token.kind) (number : UInt64) :
    readRows (rowsFrom number (tokens.flatMap fun token => (line token).splitOn '\n')) =
      .ok tokens := by
  induction tokens generalizing number with
  | nil => simp [rowsFrom, readRows]
  | cons token tokens ih =>
    obtain ⟨first, others, hlines, hblank, hread⟩ :=
      readEntry_lines (h token (by simp)) token.location
    have hrest := ih fun t ht => h t (List.mem_cons_of_mem _ ht)
    rw [List.flatMap_cons, hlines, List.cons_append, rowsFrom, rowsFrom_append,
      readRows_entry ⟨number, first⟩ (by simp [hblank]) (hread _ _), hrest]
    rfl

theorem read_write_of_listable {tokens : List Token}
    (h : ∀ token ∈ tokens, Listable token.kind) : read (write tokens) = .ok tokens := by
  cases tokens with
  | nil => simp [read, rows, write, rowsFrom, readRows, isBlank]
  | cons token tokens =>
    rw [read, rows, splitOn_write (List.cons_ne_nil _ _)]
    exact readRows_lines h 1

theorem read_write {tokens : List Token}
    (h : ∀ token ∈ tokens, token.kind.isLexical = true) : read (write tokens) = .ok tokens :=
  read_write_of_listable fun token hmem => listable_of_isLexical (h token hmem)

end Listing

/-! ## Two ways from a source text to a program -/

/-- A source text that can be cut into tokens has a listing, the listing holds the very tokens,
and what comes of the listing, a program or an error, is what comes of the source text. -/
theorem readListing_listing {source : String} {tokens : List Token}
    (h : Source.tokenize source = .ok tokens) :
    ∃ text, listing source = .ok text ∧ readListing text = .ok tokens ∧
      parseListing text = parseSource source ∧
      (parseListing text).map Program.dump = (parseSource source).map Program.dump := by
  have hread : readListing (String.ofList (Listing.write tokens)) = .ok tokens := by
    rw [readListing, String.toList_ofList]
    exact Listing.read_write (Source.isLexical_of_tokenize h)
  have hparse : parseListing (String.ofList (Listing.write tokens)) = parseSource source := by
    simp only [parseListing, parseSource, hread, h]
  refine ⟨String.ofList (Listing.write tokens), ?_, hread, hparse, ?_⟩
  · simp only [listing, h]
  · rw [hparse]

/-- A print statement whose string has an escaped quote and a line end in it, and ends in an escaped
backslash. -/
def escapedQuote : String := "print(\"a\\\" \n b\\\\\");"

def escapedQuoteTokens : List Token :=
  [⟨.printWord, ⟨1, 1⟩⟩, ⟨.leftParen, ⟨1, 6⟩⟩, ⟨.string "a\\\" \n b\\\\", ⟨1, 7⟩⟩,
    ⟨.rightParen, ⟨2, 6⟩⟩, ⟨.semicolon, ⟨2, 7⟩⟩, ⟨.endOfInput, ⟨2, 8⟩⟩]

/-- The entry of the string takes two lines. -/
def escapedQuoteListing : String :=
  "    1      1 Keyword_print  \n" ++
  "    1      6 LeftParen      \n" ++
  "    1      7 String          \"a\\\" \n" ++
  " b\\\\\"\n" ++
  "    2      6 RightParen     \n" ++
  "    2      7 Semicolon      \n" ++
  "    2      8 End_of_input   "

theorem readListing_listing_escapedQuote :
    Source.tokenize escapedQuote = .ok escapedQuoteTokens ∧
      listing escapedQuote = .ok escapedQuoteListing ∧
      readListing escapedQuoteListing = .ok escapedQuoteTokens ∧
      parseListing escapedQuoteListing = parseSource escapedQuote ∧
      (parseListing escapedQuoteListing).map Program.dump =
        (parseSource escapedQuote).map Program.dump := by
  have htokens : Source.tokenize escapedQuote = .ok escapedQuoteTokens := by decide +kernel
  have hlisting : listing escapedQuote = .ok escapedQuoteListing := by decide +kernel
  obtain ⟨text, htext, hread, hparse, hdump⟩ := readListing_listing htokens
  rw [hlisting] at htext
  cases htext
  exact ⟨htokens, hlisting, hread, hparse, hdump⟩

end ImpSyntax

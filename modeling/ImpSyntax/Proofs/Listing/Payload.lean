import ImpSyntax.Proofs.Listing.Reread
import ImpSyntax.Proofs.Source.Spelling

/-!
# ImpSyntax.Proofs.Listing.Payload

The texts that the tokens of a listing carry. An integer and an identifier have the text of a
lexeme. So has a string, unless more text is behind its closing quote on the same line: the end of a
string is looked for at the ends of lines only, and such a quote is taken into the content
(`HasTextBehindQuote`), together with the lines up to the next one that ends in a quote.

* `isStringText_or_quote` — a content is that of a string, or a bare quote is in it.
* `hasTextBehindQuote`    — behind such a quote there is more, since no line of it looked like its
  end (`StaysOpen`).
* `isPayload_of_listable` — so for every kind that a listing can hold.
* `textFault?_eq_none_iff_tokenize` — an entry and the lexer agree on identifiers and integers.
-/

namespace ImpSyntax
namespace Listing

/-- An unescaped quote is in the content of a string, and behind it, on the same line, something
besides white space, if only the closing quote. -/
def HasTextBehindQuote (content : List Char) : Prop :=
  ∃ before behind, content ++ ['"'] = before ++ '"' :: behind ∧ isStringText before = true ∧
    isBlank (behind.takeWhile (· != '\n')) = false

theorem not_hasTextBehindQuote {content : List Char} (h : isStringText content = true) :
    ¬ HasTextBehindQuote content := by
  rintro ⟨before, behind, happend, hbefore, hblank⟩
  have hwhole := splitString?_append_quote h []
  rw [happend, splitString?_append_quote hbefore behind] at hwhole
  cases hwhole
  cases hblank

/-! ## Contents with a bare quote -/

theorem isStringText_or_quote {content : List Char} (h : escapes content = false) :
    isStringText content = true ∨
      ∃ before behind, content = before ++ '"' :: behind ∧ isStringText before = true := by
  induction content using pairwise_induction with
  | nil => exact .inl rfl
  | quote cs => exact .inr ⟨[], cs, rfl, rfl⟩
  | lone => cases h
  | pair c cs ih =>
    rcases ih h with htext | ⟨before, behind, rfl, hbefore⟩
    · exact .inl htext
    · exact .inr ⟨'\\' :: c :: before, behind, rfl, hbefore⟩
  | plain c cs hquote hslash ih =>
    rw [escapes_cons cs hslash] at h
    rcases ih h with htext | ⟨before, behind, rfl, hbefore⟩
    · exact .inl (by rwa [isStringText_cons cs hquote hslash])
    · refine .inr ⟨c :: before, behind, rfl, ?_⟩
      rwa [isStringText_cons before hquote hslash]

theorem trimEnd_append_of_isBlank (text : List Char) {blanks : List Char}
    (h : isBlank blanks = true) : trimEnd (text ++ blanks) = trimEnd text := by
  have hall : ∀ c ∈ blanks.reverse, Unicode.isWhiteSpace c = true := by
    simpa [isBlank] using h
  rw [trimEnd, List.reverse_append, List.dropWhile_append_of_pos hall, trimEnd]

/-- A line closes a string that ends with its last character besides white space. -/
theorem closesString_of_isBlank {before blanks : List Char} (hbefore : isStringText before = true)
    (hblanks : isBlank blanks = true) : closesString (before ++ '"' :: blanks) = true := by
  refine closesString_iff.mpr ⟨before, ?_, escapes_of_isStringText hbefore⟩
  rw [List.append_cons, trimEnd_append_of_isBlank _ hblanks, trimEnd_append_quote]

/-- The line that ends with a bare quote and white space would have ended the string. -/
theorem hasTextBehindQuote {before behind : List Char}
    (hopen : StaysOpen (before ++ '"' :: behind)) (hbefore : isStringText before = true) :
    HasTextBehindQuote (before ++ '"' :: behind) := by
  refine ⟨before, behind ++ ['"'], by simp, hbefore, Bool.eq_false_iff.mpr fun hblank => ?_⟩
  by_cases hline : '\n' ∈ behind
  · obtain ⟨line, more, rfl, hfirst⟩ := List.eq_append_cons_of_mem hline
    have htake : (line ++ '\n' :: more ++ ['"']).takeWhile (· != '\n') = line := by
      rw [List.append_assoc]
      exact takeWhile_append_of_stop (bne_of_not_mem hfirst) (by simp)
    rw [htake] at hblank
    have hclose := closesString_of_isBlank hbefore hblank
    rw [hopen (before ++ '"' :: line) more (by simp)] at hclose
    cases hclose
  · have hquote : '\n' ∉ behind ++ ['"'] := by simp [hline]
    have htake := @takeWhile_append_of_stop _ _ _ [] (bne_of_not_mem hquote) (by simp)
    rw [List.append_nil] at htake
    rw [htake, isBlank, List.all_append, Bool.and_eq_true] at hblank
    cases hblank.2

/-! ## Entries -/

/-- The kinds that an entry of a listing can have. -/
inductive IsPayload : TokenKind → Prop where
  | lexical {kind : TokenKind} : kind.isLexical = true → IsPayload kind
  | string {content : List Char} : escapes content = false → HasTextBehindQuote content →
      IsPayload (.string (String.ofList content))

theorem isPayload_of_isContent {content : List Char} (h : IsContent content) :
    IsPayload (.string (String.ofList content)) := by
  rcases isStringText_or_quote h.unescaped with htext | ⟨before, behind, rfl, hbefore⟩
  · exact .lexical (by simpa [TokenKind.isLexical] using htext)
  · exact .string h.unescaped (hasTextBehindQuote h.staysOpen hbefore)

theorem isPayload_of_listable {kind : TokenKind} (h : Listable kind) : IsPayload kind := by
  cases h with
  | plain _ hlexical => exact .lexical hlexical
  | string hcontent => simpa using isPayload_of_isContent hcontent

theorem isPayload_read {text : List Char} {tokens : List Token} (h : read text = .ok tokens) :
    ∀ token ∈ tokens, IsPayload token.kind :=
  fun token hmem => isPayload_of_listable (listable_read h token hmem)

end Listing

open Listing

theorem Source.tokenize_quoted {content : String} (h : isStringText content.toList = true) :
    ∃ stop, Source.tokenize ("\"" ++ content ++ "\"") =
      .ok [⟨.string content, .start⟩, ⟨.endOfInput, stop⟩] := by
  exact (isLexical_iff_tokenize (k := .string content) (by simp) rfl).1 h

/-- An entry may give a text to an identifier or to an integer exactly if the text, read as a source
text, is that one token. -/
theorem textFault?_eq_none_iff_tokenize (word : String) :
    (textFault? (.identifier word) word.toList = none ↔
        ∃ stop, Source.tokenize word = .ok [⟨.identifier word, .start⟩, ⟨.endOfInput, stop⟩]) ∧
      (textFault? (.integer word) word.toList = none ↔
        ∃ stop, Source.tokenize word = .ok [⟨.integer word, .start⟩, ⟨.endOfInput, stop⟩]) := by
  constructor
  · refine Iff.trans ?_ (Source.isLexical_iff_tokenize (k := .identifier word) (by simp) rfl)
    simp [textFault?, TokenKind.isLexical]
  · refine Iff.trans ?_ (Source.isLexical_iff_tokenize (k := .integer word) (by simp) rfl)
    simp [textFault?, TokenKind.isLexical]

/-- What a listing gives to a token is what a source text could give it, but for strings that have
text behind a closing quote. No string ends in a backslash that keeps its closing quote. -/
theorem readListing_payload {text : String} {tokens : List Token}
    (h : readListing text = .ok tokens) : ∀ token ∈ tokens,
      (∀ digits, token.kind = .integer digits → Decimal.isNumeral digits.toList = true) ∧
      (∀ name, token.kind = .identifier name → isIdentifier name.toList = true) ∧
      ∀ content, token.kind = .string content → escapes content.toList = false ∧
        ((isStringText content.toList = true ∧
          ∃ stop, Source.tokenize ("\"" ++ content ++ "\"") =
            .ok [⟨.string content, .start⟩, ⟨.endOfInput, stop⟩]) ↔
          ¬ HasTextBehindQuote content.toList) := by
  intro token hmem
  have hpayload := isPayload_read h token hmem
  refine ⟨fun digits hkind => ?_, fun name hkind => ?_, fun content hkind => ?_⟩
  all_goals rw [hkind] at hpayload
  · cases hpayload with
    | lexical hlexical => exact hlexical
  · cases hpayload with
    | lexical hlexical => exact hlexical
  · cases hpayload with
    | lexical hlexical =>
      exact ⟨escapes_of_isStringText hlexical, fun _ => not_hasTextBehindQuote hlexical,
        fun _ => ⟨hlexical, Source.tokenize_quoted hlexical⟩⟩
    | @string content hescapes hbehind =>
      rw [String.toList_ofList]
      exact ⟨hescapes, fun htext => absurd hbehind (not_hasTextBehindQuote htext.1),
        fun hnone => absurd hbehind hnone⟩

/-- A string with text behind its closing quote, and another string on the next line. -/
def runaway : String := "1 1 String \"a\" b\n1 8 String \"c\""

/-- The content that is read, up to the last quote of the listing. -/
def runawayContent : String := "a\" b\n1 8 String \"c"

theorem readListing_runaway :
    readListing runaway = .ok [⟨.string runawayContent, ⟨1, 1⟩⟩] := by
  decide +kernel

theorem isStringText_runaway : isStringText runawayContent.toList = false := by
  decide +kernel

theorem readListing_payload_runaway :
    readListing runaway = .ok [⟨.string runawayContent, ⟨1, 1⟩⟩] ∧
      HasTextBehindQuote runawayContent.toList := by
  obtain ⟨_, _, hstring⟩ := readListing_payload readListing_runaway _ (List.mem_singleton_self _)
  have hiff := (hstring runawayContent rfl).2
  refine ⟨readListing_runaway, Classical.byContradiction fun hnone => ?_⟩
  have htext := (hiff.mpr hnone).1
  rw [isStringText_runaway] at htext
  cases htext

/-- A listing can hold a string that no source text can hold. -/
theorem readListing_not_lexical :
    ¬ ∀ text tokens, readListing text = .ok tokens →
      ∀ token ∈ tokens, token.kind.isLexical = true := by
  intro h
  have hlexical := h _ _ readListing_runaway _ (List.mem_singleton_self _)
  rw [TokenKind.isLexical, isStringText_runaway] at hlexical
  cases hlexical

end ImpSyntax

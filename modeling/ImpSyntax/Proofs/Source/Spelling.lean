import ImpSyntax.Proofs.Source.Lexical
import ImpSyntax.Proofs.Span
import ImpSyntax.Proofs.WordChars

/-!
# ImpSyntax.Proofs.Source.Spelling

The spelling of a token reads back as that token, if nothing of the text behind it belongs to it
(`cuts_spelling`); and so does a text of spellings with gaps between them (`tokenize_textOf`). Only
the kind of a minus is decided anew, by the token in front of it (`TokenKind.resolve`). What no
source text can hold does not read back from its spelling (`isLexical_iff_tokenize`).
-/

namespace ImpSyntax

open Unicode (isWhiteSpace)

/-- The kind that the spelling has behind the end of an operand or elsewhere. -/
def TokenKind.resolve (afterOperand : Bool) : TokenKind → TokenKind
  | .subtract | .negate => if afterOperand then .subtract else .negate
  | k => k

/-- Whether the spelling of the kind is a lexeme. -/
def TokenKind.isSpellable (k : TokenKind) : Bool := k.isLexical && k != .endOfInput

theorem TokenKind.resolve_eq_end {k : TokenKind} {afterOperand : Bool} :
    k.resolve afterOperand = .endOfInput ↔ k = .endOfInput := by
  cases k <;> cases afterOperand <;> simp [resolve]

theorem TokenKind.resolve_ne_end {k : TokenKind} (afterOperand : Bool)
    (h : k.isSpellable = true) : k.resolve afterOperand ≠ .endOfInput := by
  refine mt resolve_eq_end.mp ?_
  rintro rfl
  cases h

theorem TokenKind.endsOperand_resolve (afterOperand : Bool) (k : TokenKind) :
    (k.resolve afterOperand).endsOperand = k.endsOperand := by
  cases k <;> cases afterOperand <;> rfl

namespace Source

/-- The text ends or goes on with white space. -/
def Separated (rest : List Char) : Prop := ∀ c ∈ rest.head?, isWhiteSpace c = true

instance (rest : List Char) : Decidable (Separated rest) :=
  decidable_of_iff (rest.head?.all isWhiteSpace = true) (by cases rest <;> simp [Separated])

theorem Separated.ne {rest : List Char} {c : Char} (h : Separated rest)
    (hc : isWhiteSpace c = false) : rest.head? ≠ some c := by
  intro hhead
  have hspace := h c hhead
  rw [hc] at hspace
  cases hspace

/-- Nothing of the text behind a lexeme belongs to it: a word has all its characters, a mark that
may take an equals sign is in front of none, and a slash does not open a comment. -/
structure Maximal (lexeme rest : List Char) : Prop where
  word : lexeme.all isWordChar = true → ∀ c ∈ rest.head?, isWordChar c = false
  mark : lexeme ∈ [['='], ['<'], ['>'], ['!']] → rest.head? ≠ some '='
  slash : lexeme = ['/'] → rest.head? ≠ some '/' ∧ rest.head? ≠ some '*'

theorem Separated.maximal {rest : List Char} (h : Separated rest) (lexeme : List Char) :
    Maximal lexeme rest :=
  ⟨fun _ c hc => isWordChar_of_isWhiteSpace (h c hc), fun _ => h.ne (by decide),
    fun _ => ⟨h.ne (by decide), h.ne (by decide)⟩⟩

/-! ## Gaps -/

theorem splitGap_of_none {cs : List Char} (h : splitGapItem? cs = none) :
    splitGap cs = ([], cs) := by
  rw [splitGap]
  split
  · rfl
  · rename_i hsome
    rw [h] at hsome
    cases hsome

theorem splitGap_of_some {cs item rest : List Char} (h : splitGapItem? cs = some (item, rest)) :
    splitGap cs = (item ++ (splitGap rest).1, (splitGap rest).2) := by
  rw [splitGap]
  split
  · rename_i hnone
    rw [h] at hnone
    cases hnone
  · rename_i hsome
    rw [h] at hsome
    cases hsome
    rfl

theorem splitGapItem?_of_ne {c : Char} (cs : List Char) (hc : c ≠ '/') :
    splitGapItem? (c :: cs) = if isWhiteSpace c then some ([c], cs) else none := by
  rw [splitGapItem?]
  · intro _ h _
    exact hc h
  · intro _ h _
    exact hc h

/-- In front of a lexeme, the text is the longest gap. -/
def IsGap (gap : List Char) : Prop :=
  ∀ rest, splitGapItem? rest = none → splitGap (gap ++ rest) = (gap, rest)

theorem isGap_nil : IsGap [] := fun _ h => splitGap_of_none h

theorem splitGap_whiteSpace {c : Char} (hc : isWhiteSpace c = true) (rest : List Char) :
    splitGap (c :: rest) = (c :: (splitGap rest).1, (splitGap rest).2) := by
  have hne : c ≠ '/' := by
    rintro rfl
    revert hc
    decide
  have hitem : splitGapItem? (c :: rest) = some ([c], rest) := by
    rw [splitGapItem?_of_ne _ hne, if_pos hc]
  rw [splitGap_of_some hitem]
  rfl

theorem IsGap.whiteSpace {gap : List Char} {c : Char} (h : IsGap gap)
    (hc : isWhiteSpace c = true) : IsGap (c :: gap) := by
  intro rest hrest
  rw [List.cons_append, splitGap_whiteSpace hc, h rest hrest]

/-! ## Words -/

theorem Lead.of_word {c : Char} (h : isWordStart c = true) : Lead.of c = .word := by
  unfold Lead.of
  split
  case h_20 => rw [if_pos h]
  all_goals
    revert h
    decide +kernel

theorem isWordStart_of_isIdentifier {c : Char} {cs : List Char}
    (h : isIdentifier (c :: cs) = true) : isWordStart c = true ∧ c.isDigit = false := by
  simp only [isIdentifier, Bool.and_eq_true, Bool.or_eq_true, beq_iff_eq] at h
  rcases h.1.1 with halpha | rfl
  · exact ⟨by simp [isWordStart, halpha], isDigit_of_isAlphabetic halpha⟩
  · exact ⟨by simp [isWordStart], rfl⟩

theorem wordKind?_of_isIdentifier {c : Char} {cs : List Char} (h : isIdentifier (c :: cs) = true) :
    wordKind? c cs = some (.identifier (String.ofList (c :: cs))) := by
  have hdigit := (isWordStart_of_isIdentifier h).2
  have hnumeral : Decimal.isNumeral (c :: cs) = false := by simp [Decimal.isNumeral, hdigit]
  simp only [isIdentifier, Bool.and_eq_true, Option.isNone_iff_eq_none] at h
  simp only [wordKind?, hnumeral, hdigit, h.2]
  rfl

theorem wordKind?_of_isNumeral {c : Char} {cs : List Char}
    (h : Decimal.isNumeral (c :: cs) = true) :
    wordKind? c cs = some (.integer (String.ofList (c :: cs))) := by
  simp [wordKind?, h]

namespace Lexeme

variable (afterOperand : Bool) {c : Char} {rest : List Char}

theorem scan_word {cs : List Char} {k : TokenKind} (hstart : isWordStart c = true)
    (hword : ∀ d ∈ cs, isWordChar d = true) (hkind : wordKind? c cs = some k)
    (hrest : ∀ d ∈ rest.head?, isWordChar d = false) :
    scan afterOperand c (cs ++ rest) = ⟨.ok k, c :: cs, rest⟩ := by
  simp only [scan, Lead.of_word hstart, word, takeWhile_append_of_stop hword hrest,
    dropWhile_append_of_stop hword hrest, hkind]

theorem scan_alone {alone withEqual : TokenKind} (h : Lead.of c = .maybeEqual alone withEqual)
    (hrest : rest.head? ≠ some '=') : scan afterOperand c rest = ⟨.ok alone, [c], rest⟩ := by
  simp only [scan, h]
  split
  · exact absurd rfl hrest
  · rfl

theorem scan_withEqual {alone withEqual : TokenKind} (h : Lead.of c = .maybeEqual alone withEqual)
    (rest : List Char) :
    scan afterOperand c ('=' :: rest) = ⟨.ok withEqual, [c, '='], rest⟩ := by
  simp only [scan, h]

theorem scan_doubled {k : TokenKind} (h : Lead.of c = .doubled k) (rest : List Char) :
    scan afterOperand c (c :: rest) = ⟨.ok k, [c, c], rest⟩ := by
  simp only [scan, h, if_true]

theorem scan_slash (hrest : rest.head? ≠ some '*') :
    scan afterOperand '/' rest = ⟨.ok .divide, ['/'], rest⟩ := by
  have hlead : Lead.of '/' = .slash := rfl
  simp only [scan, hlead]
  split
  · exact absurd rfl hrest
  · rfl

theorem scan_string {text : List Char} (h : isStringText text = true) (rest : List Char) :
    scan afterOperand '"' (text ++ '"' :: rest) =
      ⟨.ok (.string (String.ofList text)), '"' :: text ++ ['"'], rest⟩ := by
  have hlead : Lead.of '"' = .stringQuote := rfl
  simp only [scan, hlead, stringLiteral, splitString?_append_quote h]

end Lexeme

/-! ## Spellings -/

/-- In front of `rest`, the text is a lexeme of the kind, with no gap in front. -/
structure Cuts (k : TokenKind) (text rest : List Char) : Prop where
  gap : splitGapItem? (text ++ rest) = none
  lexeme : ∀ afterOperand, ∃ c cs, text = c :: cs ∧
    Lexeme.scan afterOperand c (cs ++ rest) = ⟨.ok (k.resolve afterOperand), text, rest⟩

/-- Neither a character of a gap nor the first one of a comment. -/
def startsLexeme (c : Char) : Bool := c != '/' && !isWhiteSpace c

theorem Cuts.of_scan {k : TokenKind} {c : Char} {cs rest : List Char}
    (hc : startsLexeme c = true) (h : ∀ afterOperand,
      Lexeme.scan afterOperand c (cs ++ rest) = ⟨.ok (k.resolve afterOperand), c :: cs, rest⟩) :
    Cuts k (c :: cs) rest := by
  simp only [startsLexeme, Bool.and_eq_true, bne_iff_ne, Bool.not_eq_true'] at hc
  refine ⟨?_, fun afterOperand => ⟨c, cs, rfl, h afterOperand⟩⟩
  rw [List.cons_append, splitGapItem?_of_ne _ hc.1, hc.2]
  rfl

section marks

variable {k other : TokenKind} {c : Char} {rest : List Char}

theorem Cuts.mark (hlead : Lead.of c = .mark k) (hc : startsLexeme c = true)
    (hk : ∀ afterOperand, k.resolve afterOperand = k) : Cuts k [c] rest := by
  refine .of_scan hc fun afterOperand => ?_
  rw [hk, List.nil_append]
  simp only [Lexeme.scan, hlead]

theorem Cuts.alone (hlead : Lead.of c = .maybeEqual k other) (hc : startsLexeme c = true)
    (hk : ∀ afterOperand, k.resolve afterOperand = k) (hrest : rest.head? ≠ some '=') :
    Cuts k [c] rest := by
  refine .of_scan hc fun afterOperand => ?_
  rw [hk]
  exact Lexeme.scan_alone afterOperand hlead hrest

theorem Cuts.withEqual (hlead : Lead.of c = .maybeEqual other k) (hc : startsLexeme c = true)
    (hk : ∀ afterOperand, k.resolve afterOperand = k) : Cuts k [c, '='] rest := by
  refine .of_scan hc fun afterOperand => ?_
  rw [hk]
  exact Lexeme.scan_withEqual afterOperand hlead rest

theorem Cuts.doubled (hlead : Lead.of c = .doubled k) (hc : startsLexeme c = true)
    (hk : ∀ afterOperand, k.resolve afterOperand = k) : Cuts k [c, c] rest := by
  refine .of_scan hc fun afterOperand => ?_
  rw [hk]
  exact Lexeme.scan_doubled afterOperand hlead rest

end marks

theorem cuts_minus {k : TokenKind}
    (hk : ∀ afterOperand, k.resolve afterOperand = if afterOperand then .subtract else .negate)
    (rest : List Char) : Cuts k ['-'] rest := by
  refine .of_scan (by decide) fun afterOperand => ?_
  rw [hk]
  rfl

theorem cuts_divide {rest : List Char} (hslash : rest.head? ≠ some '/')
    (hstar : rest.head? ≠ some '*') : Cuts .divide ['/'] rest := by
  refine ⟨?_, fun afterOperand => ⟨'/', [], rfl, Lexeme.scan_slash afterOperand hstar⟩⟩
  cases rest with
  | nil => decide
  | cons d rest =>
    rw [List.singleton_append, splitGapItem?]
    · rfl
    · rintro rest _ ⟨rfl, rfl⟩
      exact hslash rfl
    · rintro rest _ ⟨rfl, rfl⟩
      exact hstar rfl

theorem Cuts.word {k : TokenKind} {c : Char} {cs rest : List Char}
    (hstart : isWordStart c = true) (hword : ∀ d ∈ cs, isWordChar d = true)
    (hkind : wordKind? c cs = some k) (hresolve : ∀ afterOperand, k.resolve afterOperand = k)
    (hrest : Maximal (c :: cs) rest) : Cuts k (c :: cs) rest := by
  have hfirst := isWordChar_of_isWordStart hstart
  have hstop := hrest.word (by simpa [hfirst] using hword)
  have hne : c ≠ '/' := by
    rintro rfl
    revert hfirst
    decide +kernel
  have hc : startsLexeme c = true := by simp [startsLexeme, hne, isWhiteSpace_eq_false hfirst]
  refine .of_scan hc fun afterOperand => ?_
  rw [hresolve, Lexeme.scan_word afterOperand hstart hword hkind hstop]

theorem cuts_identifier {name : String} (h : isIdentifier name.toList = true) {rest : List Char}
    (hrest : Maximal name.toList rest) : Cuts (.identifier name) name.toList rest := by
  have hword := isWordChar_of_isIdentifier h
  cases hname : name.toList with
  | nil =>
    rw [hname] at h
    cases h
  | cons c cs =>
    rw [hname] at h hword hrest
    have hkind := wordKind?_of_isIdentifier h
    rw [← hname, String.ofList_toList] at hkind
    exact .word (isWordStart_of_isIdentifier h).1 (fun d hd => hword d (List.mem_cons_of_mem c hd))
      hkind (fun _ => rfl) hrest

theorem cuts_integer {digits : String} (h : Decimal.isNumeral digits.toList = true)
    {rest : List Char} (hrest : Maximal digits.toList rest) :
    Cuts (.integer digits) digits.toList rest := by
  have hword := isWordChar_of_isNumeral h
  cases hdigits : digits.toList with
  | nil =>
    rw [hdigits] at h
    cases h
  | cons c cs =>
    rw [hdigits] at h hword hrest
    have hkind := wordKind?_of_isNumeral h
    rw [← hdigits, String.ofList_toList] at hkind
    have hstart : isWordStart c = true := by
      simp only [Decimal.isNumeral, Bool.and_eq_true, List.all_cons] at h
      simp [isWordStart, h.2.1]
    exact .word hstart (fun d hd => hword d (List.mem_cons_of_mem c hd)) hkind (fun _ => rfl) hrest

theorem cuts_string {text : String} (h : isStringText text.toList = true) (rest : List Char) :
    Cuts (.string text) ('"' :: text.toList ++ ['"']) rest := by
  refine .of_scan (by decide) fun afterOperand => ?_
  have hscan := Lexeme.scan_string afterOperand h rest
  rw [String.ofList_toList] at hscan
  simpa [TokenKind.resolve] using hscan

theorem cuts_reserved {k : TokenKind} {c : Char} {cs rest : List Char}
    (hkind : wordKind? c cs = some k) (hword : (isWordStart c && cs.all isWordChar) = true)
    (hk : ∀ afterOperand, k.resolve afterOperand = k) (hrest : Maximal (c :: cs) rest) :
    Cuts k (c :: cs) rest := by
  simp only [Bool.and_eq_true, List.all_eq_true] at hword
  exact .word hword.1 hword.2 hkind hk hrest

/-- A spelling is one lexeme, and its kind is the one that is spelled but for a minus. -/
theorem cuts_spelling {k : TokenKind} (hk : k.isSpellable = true) {rest : List Char}
    (hrest : Maximal k.spelling.toList rest) : Cuts k k.spelling.toList rest := by
  simp only [TokenKind.isSpellable, Bool.and_eq_true, bne_iff_ne] at hk
  obtain ⟨hlexical, hend⟩ := hk
  cases k with
  | endOfInput => exact absurd rfl hend
  | identifier name => exact cuts_identifier hlexical hrest
  | integer digits => exact cuts_integer hlexical hrest
  | string text =>
    have hcuts := cuts_string hlexical rest
    simpa [TokenKind.spelling] using hcuts
  | subtract => exact cuts_minus (fun _ => rfl) rest
  | negate => exact cuts_minus (fun _ => rfl) rest
  | divide =>
    obtain ⟨hslash, hstar⟩ := hrest.slash rfl
    exact cuts_divide hslash hstar
  | multiply => exact .mark (c := '*') rfl rfl fun _ => rfl
  | mod => exact .mark (c := '%') rfl rfl fun _ => rfl
  | add => exact .mark (c := '+') rfl rfl fun _ => rfl
  | leftParen => exact .mark (c := '(') rfl rfl fun _ => rfl
  | rightParen => exact .mark (c := ')') rfl rfl fun _ => rfl
  | leftBrace => exact .mark (c := '\x7b') rfl rfl fun _ => rfl
  | rightBrace => exact .mark (c := '\x7d') rfl rfl fun _ => rfl
  | semicolon => exact .mark (c := ';') rfl rfl fun _ => rfl
  | comma => exact .mark (c := ',') rfl rfl fun _ => rfl
  | not => exact .alone (c := '!') rfl rfl (fun _ => rfl) (hrest.mark (by decide))
  | less => exact .alone (c := '<') rfl rfl (fun _ => rfl) (hrest.mark (by decide))
  | greater => exact .alone (c := '>') rfl rfl (fun _ => rfl) (hrest.mark (by decide))
  | assign => exact .alone (c := '=') rfl rfl (fun _ => rfl) (hrest.mark (by decide))
  | lessEqual => exact .withEqual (c := '<') rfl rfl fun _ => rfl
  | greaterEqual => exact .withEqual (c := '>') rfl rfl fun _ => rfl
  | equal => exact .withEqual (c := '=') rfl rfl fun _ => rfl
  | notEqual => exact .withEqual (c := '!') rfl rfl fun _ => rfl
  | and => exact .doubled (c := '&') rfl rfl fun _ => rfl
  | or => exact .doubled (c := '|') rfl rfl fun _ => rfl
  | ifWord => exact cuts_reserved rfl rfl (fun _ => rfl) hrest
  | elseWord => exact cuts_reserved rfl rfl (fun _ => rfl) hrest
  | whileWord => exact cuts_reserved rfl rfl (fun _ => rfl) hrest
  | printWord => exact cuts_reserved rfl rfl (fun _ => rfl) hrest
  | putcWord => exact cuts_reserved rfl rfl (fun _ => rfl) hrest

/-! ## Texts of spellings -/

/-- Spellings with a gap in front of each. -/
abbrev Pieces := List (List Char × TokenKind)

/-- The text of the pieces, and a gap behind them. -/
def textOf : Pieces → List Char → List Char
  | [], last => last
  | (gap, k) :: pieces, last => gap ++ (k.spelling.toList ++ textOf pieces last)

/-- The tokens of the text, the end of input last. -/
def tokensOf (location : Location) (afterOperand : Bool) : Pieces → List Char → List Token
  | [], last => [⟨.endOfInput, location.after last⟩]
  | (gap, k) :: pieces, last =>
    ⟨k.resolve afterOperand, location.after gap⟩ ::
      tokensOf ((location.after gap).after k.spelling.toList) k.endsOperand pieces last

/-- Each spelling is one of a token, and a gap or the end keeps it apart from the next one. -/
inductive Spaced (last : List Char) : Pieces → Prop where
  | nil : IsGap last → Spaced last []
  | cons {gap : List Char} {k : TokenKind} {pieces : Pieces} :
      IsGap gap → k.isSpellable = true → Separated (textOf pieces last) → Spaced last pieces →
        Spaced last ((gap, k) :: pieces)

namespace Cursor

theorem next_of_cuts {cursor : Cursor} {gap text rest : List Char} {k : TokenKind}
    (hcursor : cursor.rest = gap ++ (text ++ rest)) (hgap : IsGap gap) (hcuts : Cuts k text rest) :
    cursor.next = (.ok ⟨k.resolve cursor.afterOperand, cursor.location.after gap⟩,
      ⟨rest, (cursor.location.after gap).after text, k.endsOperand⟩) := by
  obtain ⟨c, cs, rfl, hscan⟩ := hcuts.lexeme cursor.afterOperand
  have hskip : cursor.skipGap =
      ⟨c :: cs ++ rest, cursor.location.after gap, cursor.afterOperand⟩ := by
    rw [skipGap, hcursor, hgap _ hcuts.gap]
  rw [next, hskip, nextLexeme]
  simp only [List.cons_append, take, hscan, TokenKind.endsOperand_resolve]

theorem next_of_end {cursor : Cursor} (hgap : splitGap cursor.rest = (cursor.rest, [])) :
    cursor.next = (.ok ⟨.endOfInput, cursor.location.after cursor.rest⟩,
      ⟨[], cursor.location.after cursor.rest, false⟩) := by
  rw [next, skipGap, hgap, nextLexeme]

theorem tokenize_of_end {cursor after : Cursor} {location : Location}
    (h : cursor.next = (.ok ⟨.endOfInput, location⟩, after)) :
    cursor.tokenize = (.ok [⟨.endOfInput, location⟩], after) := by
  rw [tokenize]
  split
  · rename_i hnext
    rw [h] at hnext
    cases hnext
  · rename_i hnext
    rw [h] at hnext
    cases hnext
    rfl

theorem tokenize_of_error {cursor after : Cursor} {e : LexError}
    (h : cursor.next = (.error e, after)) : cursor.tokenize = (.error e, after) := by
  rw [tokenize]
  split
  · rename_i hnext
    rw [h] at hnext
    cases hnext
    rfl
  · rename_i hnext
    rw [h] at hnext
    cases hnext

theorem tokenize_of_next {cursor after : Cursor} {token : Token}
    (h : cursor.next = (.ok token, after)) (hend : token.kind ≠ .endOfInput) :
    cursor.tokenize.1 = after.tokenize.1.map (token :: ·) := by
  rw [tokenize]
  split
  · rename_i hnext
    rw [h] at hnext
    cases hnext
  · rename_i hnext
    rw [h] at hnext
    cases hnext
    rw [if_neg hend]
    split <;> rename_i htokens <;> rw [htokens] <;> rfl

/-- A text of spellings reads as the tokens that are spelled. -/
theorem tokenize_textOf {last : List Char} {pieces : Pieces} (h : Spaced last pieces)
    {cursor : Cursor} (hcursor : cursor.rest = textOf pieces last) :
    cursor.tokenize.1 = .ok (tokensOf cursor.location cursor.afterOperand pieces last) := by
  induction h generalizing cursor with
  | nil hgap =>
    have hall := hgap [] rfl
    rw [List.append_nil] at hall
    rw [textOf] at hcursor
    rw [← hcursor] at hall
    rw [tokenize_of_end (next_of_end hall), hcursor]
    rfl
  | @cons gap k pieces hgap hk hseparated _ ih =>
    have hnext := next_of_cuts hcursor hgap (cuts_spelling hk (hseparated.maximal _))
    rw [tokenize_of_next hnext (TokenKind.resolve_ne_end _ hk), ih rfl]
    rfl

end Cursor

theorem tokenize_spelling {k : TokenKind} (hk : k.isSpellable = true) :
    tokenize k.spelling = .ok [⟨k.resolve false, .start⟩,
      ⟨.endOfInput, Location.start.after k.spelling.toList⟩] := by
  have hspaced : Spaced [] [([], k)] :=
    .cons isGap_nil hk (fun c hc => by cases hc) (.nil isGap_nil)
  exact Cursor.tokenize_textOf hspaced (by simp [textOf, Cursor.ofText])

/-- A spelling alone reads as that token alone exactly if a source text can hold the token. -/
theorem isLexical_iff_tokenize {k : TokenKind} (hend : k ≠ .endOfInput)
    (hminus : k.resolve false = k) : k.isLexical = true ↔
      ∃ stop, tokenize k.spelling = .ok [⟨k, .start⟩, ⟨.endOfInput, stop⟩] := by
  constructor
  · intro hlexical
    have hk : k.isSpellable = true := by simp [TokenKind.isSpellable, hlexical, hend]
    have htokens := tokenize_spelling hk
    rw [hminus] at htokens
    exact ⟨_, htokens⟩
  · rintro ⟨stop, htokens⟩
    exact isLexical_of_tokenize htokens _ List.mem_cons_self

end Source
end ImpSyntax

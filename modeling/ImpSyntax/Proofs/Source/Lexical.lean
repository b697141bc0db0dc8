import ImpSyntax.Proofs.StringText
import ImpSyntax.Source.Cursor

/-!
# ImpSyntax.Proofs.Source.Lexical

The texts that tokens of a source text carry: `TokenKind.isLexical` says which text a kind can
have, and `isLexical_of_tokenize` that every token found has such a text.
-/

namespace ImpSyntax

/-- Whether a source text can hold a token of the kind, with the text that the kind carries. -/
def TokenKind.isLexical : TokenKind → Bool
  | .identifier name => isIdentifier name.toList
  | .integer digits => Decimal.isNumeral digits.toList
  | .string text => isStringText text.toList
  | _ => true

theorem TokenKind.isLexical_of_text? {kind : TokenKind} (h : kind.text? = none) :
    kind.isLexical = true := by
  cases kind <;> first | rfl | cases h

namespace Source

/-- Whether the kinds that a first character announces carry no text. -/
def Lead.isBare : Lead → Bool
  | .mark kind => kind.text?.isNone
  | .maybeEqual alone withEqual => alone.text?.isNone && withEqual.text?.isNone
  | .doubled kind => kind.text?.isNone
  | _ => true

theorem Lead.isBare_of (c : Char) : (Lead.of c).isBare = true := by
  unfold Lead.of
  split
  case h_20 => split <;> rfl
  all_goals rfl

theorem Lead.isWordStart_of_word {c : Char} (h : Lead.of c = .word) : isWordStart c = true := by
  unfold Lead.of at h
  split at h
  case h_20 =>
    split at h
    · assumption
    · cases h
  all_goals cases h

namespace Lexeme

theorem text?_reservedWord? {word : String} {kind : TokenKind}
    (h : reservedWord? word = some kind) : kind.text? = none := by
  unfold reservedWord? at h
  split at h
  case h_6 => cases h
  all_goals cases h; rfl

theorem isLexical_wordKind? {c : Char} {cs : List Char} {kind : TokenKind}
    (hstart : isWordStart c = true) (hmore : cs.all isWordChar = true)
    (h : wordKind? c cs = some kind) : kind.isLexical = true := by
  unfold wordKind? at h
  split at h
  · rename_i hnumeral
    cases h
    simpa [TokenKind.isLexical] using hnumeral
  · split at h
    · cases h
    · rename_i hdigit
      cases h
      cases hword : reservedWord? (String.ofList (c :: cs)) with
      | some kind => exact TokenKind.isLexical_of_text? (text?_reservedWord? hword)
      | none =>
        have hfirst : (Unicode.isAlphabetic c || c == '_') = true := by
          simpa [isWordStart, hdigit] using hstart
        simp only [TokenKind.isLexical, Option.getD_none, String.toList_ofList, isIdentifier,
          hfirst, hmore, hword, Option.isNone_none, Bool.and_self]

theorem isLexical_word {c : Char} {cs : List Char} {kind : TokenKind}
    (hstart : isWordStart c = true) (h : (word c cs).outcome = .ok kind) :
    kind.isLexical = true := by
  simp only [word] at h
  split at h
  · rename_i kind' hkind
    cases h
    exact isLexical_wordKind? hstart List.all_takeWhile hkind
  · cases h

theorem isLexical_closeChar {code : Nat} {opening cs : List Char} {kind : TokenKind}
    (h : (closeChar code opening cs).outcome = .ok kind) : kind.isLexical = true := by
  unfold closeChar at h
  split at h
  · cases h
  · cases h
    simpa [TokenKind.isLexical] using Decimal.isNumeral_toDigits code
  · cases h

theorem isLexical_charLiteral {cs : List Char} {kind : TokenKind}
    (h : (charLiteral cs).outcome = .ok kind) : kind.isLexical = true := by
  unfold charLiteral at h
  split at h
  case h_4 => exact isLexical_closeChar h
  case h_5 => exact isLexical_closeChar h
  case h_7 => exact isLexical_closeChar h
  all_goals cases h

theorem isLexical_stringLiteral {cs : List Char} {kind : TokenKind}
    (h : (stringLiteral cs).outcome = .ok kind) : kind.isLexical = true := by
  unfold stringLiteral at h
  split at h
  · rename_i text rest hsplit
    cases h
    simpa [TokenKind.isLexical] using isStringText_of_splitString? hsplit
  · cases h

theorem isLexical_scan {afterOperand : Bool} {c : Char} {cs : List Char} {kind : TokenKind}
    (h : (scan afterOperand c cs).outcome = .ok kind) : kind.isLexical = true := by
  have hbare := Lead.isBare_of c
  unfold scan at h
  split at h
  · rename_i hlead
    cases h
    simp only [hlead, Lead.isBare, Option.isNone_iff_eq_none] at hbare
    exact TokenKind.isLexical_of_text? hbare
  · rename_i hlead
    simp only [hlead, Lead.isBare, Bool.and_eq_true, Option.isNone_iff_eq_none] at hbare
    split at h
    · cases h; exact TokenKind.isLexical_of_text? hbare.2
    · cases h; exact TokenKind.isLexical_of_text? hbare.1
  · rename_i hlead
    simp only [hlead, Lead.isBare, Option.isNone_iff_eq_none] at hbare
    split at h
    · split at h
      · cases h; exact TokenKind.isLexical_of_text? hbare
      · cases h
    · cases h
  · cases h
    split <;> rfl
  · split at h
    · cases h
    · cases h; rfl
  · exact isLexical_charLiteral h
  · exact isLexical_stringLiteral h
  · rename_i hlead
    exact isLexical_word (Lead.isWordStart_of_word hlead) h
  · cases h

end Lexeme

theorem Cursor.isLexical_next {cursor after : Cursor} {token : Token}
    (h : cursor.next = (.ok token, after)) : token.kind.isLexical = true := by
  unfold next nextLexeme at h
  split at h
  · cases h; rfl
  · unfold take at h
    split at h
    · rename_i hscan
      cases h
      exact Lexeme.isLexical_scan hscan
    · cases h

theorem Cursor.isLexical_tokenize {cursor last : Cursor} {tokens : List Token}
    (h : cursor.tokenize = (.ok tokens, last)) :
    ∀ token ∈ tokens, token.kind.isLexical = true := by
  fun_induction Cursor.tokenize cursor generalizing tokens last with
  | case1 => cases h
  | case2 cursor token after hnext hend =>
    cases h
    intro t ht
    rw [List.mem_singleton.mp ht]
    exact isLexical_next hnext
  | case3 cursor token after hnext hend tokens' last' hrec ih =>
    cases h
    intro t ht
    rcases List.mem_cons.mp ht with rfl | hmore
    · exact isLexical_next hnext
    · exact ih hrec t hmore
  | case4 cursor token after hnext hend e last' hrec ih =>
    cases h

theorem isLexical_of_tokenize {source : String} {tokens : List Token}
    (h : tokenize source = .ok tokens) : ∀ token ∈ tokens, token.kind.isLexical = true := by
  unfold tokenize at h
  exact Cursor.isLexical_tokenize (Prod.ext h rfl)

end Source
end ImpSyntax

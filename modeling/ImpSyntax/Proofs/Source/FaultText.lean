import ImpSyntax.Proofs.Source.Run
import Mathlib.Control.Monad.Basic

/-!
# ImpSyntax.Proofs.Source.FaultText

The texts that faults are found in, told without scanning anything (`Shows`), and where an error
lies in a source text: the text in front of it is cut into the same tokens without it, and the text
from there on shows the fault (`tokenize_error_split`).

* `shows_scan`         — one lemma for each way a lexeme can start, joined by `Lead.of`.
* `Maximal.of_append`  — what is cut off behind a lexeme does not change where it ends.
* `split_of_finds`     — by induction on the tokens in front of the error.
-/

namespace ImpSyntax
namespace Source

open Unicode (isWhiteSpace)

/-- The text starts with what the fault names. -/
inductive Shows : LexFault → List Char → Prop where
  /-- A character that is no white space and that no lexeme starts with. -/
  | unexpectedCharacter {c : Char} {rest : List Char} : isWhiteSpace c = false →
      (∀ afterOperand lexeme kind, Decodes afterOperand lexeme kind → lexeme.head? ≠ some c) →
      Shows (.unexpectedCharacter c) (c :: rest)
  | incompleteOperator {c : Char} {rest : List Char} : c = '&' ∨ c = '|' →
      rest.head? ≠ some c → Shows (.incompleteOperator c) (c :: rest)
  | unterminatedComment {rest : List Char} : ¬ ['*', '/'] <:+: rest →
      Shows .unterminatedComment ('/' :: '*' :: rest)
  /-- Every quote behind the opening one is kept by a backslash. -/
  | unterminatedString {rest : List Char} :
      (∀ before behind, rest = before ++ '"' :: behind → escapes before = true) →
      Shows .unterminatedString ('"' :: rest)
  | emptyCharLiteral {rest : List Char} : Shows .emptyCharLiteral ('\'' :: '\'' :: rest)
  | invalidEscape {c : Char} {rest : List Char} : c ≠ 'n' → c ≠ '\\' →
      Shows (.invalidEscape c) ('\'' :: '\\' :: c :: rest)
  /-- The text ends behind the opening quote. -/
  | quoteAtEnd : Shows .unterminatedCharLiteral ['\'']
  /-- The text ends behind the backslash. -/
  | escapeAtEnd : Shows .unterminatedCharLiteral ['\'', '\\']
  | openCharacter {c : Char} {rest : List Char} : c ≠ '\'' → c ≠ '\\' →
      rest.head? ≠ some '\'' → Shows .unterminatedCharLiteral ('\'' :: c :: rest)
  | openEscape {c : Char} {rest : List Char} : c = 'n' ∨ c = '\\' →
      rest.head? ≠ some '\'' → Shows .unterminatedCharLiteral ('\'' :: '\\' :: c :: rest)
  /-- A word, up to its last character, that starts with a digit and has other characters too. -/
  | invalidNumber {c : Char} {cs rest : List Char} : c.isDigit = true →
      (∀ d ∈ c :: cs, isWordChar d = true) → (∃ d ∈ cs, d.isDigit = false) →
      (∀ d ∈ rest.head?, isWordChar d = false) →
      Shows (.invalidNumber (String.ofList (c :: cs))) (c :: cs ++ rest)

/-! ## Faulty lexemes -/

section faulty

variable {c : Char} {cs : List Char} {fault : LexFault}

/-- A character that announces no lexeme is the first one of none. -/
theorem not_decodes_of_unexpected (hlead : Lead.of c = .unexpected) {afterOperand : Bool}
    {lexeme : List Char} {kind : TokenKind} (h : Decodes afterOperand lexeme kind) :
    lexeme.head? ≠ some c := by
  intro hhead
  have hend : Separated [] := fun d hd => by cases hd
  obtain ⟨d, ds, rfl, hscan⟩ := (h.cuts (hend.maximal lexeme)).lexeme afterOperand
  cases hhead
  simp only [Lexeme.scan, hlead] at hscan
  cases hscan

theorem shows_unexpected (hlead : Lead.of c = .unexpected)
    (hgap : splitGapItem? (c :: cs) = none) : Shows (.unexpectedCharacter c) (c :: cs) := by
  have hslash : c ≠ '/' := by
    rintro rfl
    cases hlead
  have hspace : isWhiteSpace c = false := by
    rw [splitGapItem?_of_ne cs hslash] at hgap
    simpa using hgap
  exact .unexpectedCharacter hspace fun _ _ _ => not_decodes_of_unexpected hlead

theorem not_infix_of_splitComment? (h : splitComment? cs = none) : ¬ ['*', '/'] <:+: cs := by
  fun_induction splitComment? cs with
  | case1 => simp
  | case2 => cases h
  | case3 c cs hclose ih =>
    simp only [Option.map_eq_none_iff] at h
    rw [List.infix_cons_iff, not_or]
    refine ⟨?_, ih h⟩
    rintro ⟨rest, hrest⟩
    cases hrest
    exact hclose rest rfl rfl

/-- A quote that no backslash keeps would have ended the string. -/
theorem escapes_of_splitString? {before behind : List Char}
    (h : Lexeme.splitString? (before ++ '"' :: behind) = none) : escapes before = true := by
  induction before using pairwise_induction with
  | nil => cases h
  | quote cs => cases h
  | lone => rfl
  | pair c cs ih =>
    simp only [List.cons_append, Lexeme.splitString?, Option.map_eq_none_iff] at h
    exact ih h
  | plain c cs hquote hslash ih =>
    rw [List.cons_append, splitString?_cons _ hquote hslash, Option.map_eq_none_iff] at h
    rw [escapes_cons cs hslash]
    exact ih h

theorem shows_stringLiteral (h : (Lexeme.stringLiteral cs).outcome = .error fault) :
    Shows fault ('"' :: cs) := by
  unfold Lexeme.stringLiteral at h
  split at h
  · cases h
  · rename_i hsplit
    cases h
    refine .unterminatedString ?_
    rintro before behind rfl
    exact escapes_of_splitString? hsplit

theorem closeChar_error {code : Nat} {opening : List Char}
    (h : (Lexeme.closeChar code opening cs).outcome = .error fault) :
    fault = .unterminatedCharLiteral ∧ cs.head? ≠ some '\'' := by
  unfold Lexeme.closeChar at h
  split at h
  · cases h
    exact ⟨rfl, by simp⟩
  · cases h
  · rename_i hquote
    cases h
    refine ⟨rfl, fun hhead => ?_⟩
    cases hhead
    exact hquote rfl

theorem shows_charLiteral (h : (Lexeme.charLiteral cs).outcome = .error fault) :
    Shows fault ('\'' :: cs) := by
  unfold Lexeme.charLiteral at h
  split at h
  · cases h
    exact .quoteAtEnd
  · cases h
    exact .emptyCharLiteral
  · cases h
    exact .escapeAtEnd
  · obtain ⟨rfl, hhead⟩ := closeChar_error h
    exact .openEscape (.inl rfl) hhead
  · obtain ⟨rfl, hhead⟩ := closeChar_error h
    exact .openEscape (.inr rfl) hhead
  · rename_i hn hslash
    cases h
    exact .invalidEscape hn hslash
  · rename_i c cs hquote hlone _ _ hpair
    obtain ⟨rfl, hhead⟩ := closeChar_error h
    exact .openCharacter hquote (ne_backslash hlone hpair) hhead

/-- Only a word that starts with a digit can be ill formed, and then not all are digits. -/
theorem digits_of_wordKind? (h : wordKind? c cs = none) :
    c.isDigit = true ∧ ∃ d ∈ cs, d.isDigit = false := by
  unfold wordKind? at h
  split at h
  · cases h
  · rename_i hnumeral
    split at h
    · rename_i hdigit
      exact ⟨hdigit, by simpa [Decimal.isNumeral, hdigit] using hnumeral⟩
    · cases h

theorem shows_word (hstart : isWordStart c = true)
    (h : (Lexeme.word c cs).outcome = .error fault) : Shows fault (c :: cs) := by
  simp only [Lexeme.word] at h
  split at h
  · cases h
  · rename_i hnone
    cases h
    obtain ⟨hdigit, hother⟩ := digits_of_wordKind? hnone
    have hword : ∀ d ∈ c :: cs.takeWhile isWordChar, isWordChar d = true := by
      intro d hd
      rcases List.mem_cons.mp hd with rfl | hmore
      · exact isWordChar_of_isWordStart hstart
      · exact List.all_eq_true.mp List.all_takeWhile d hmore
    have hstop : ∀ d ∈ (cs.dropWhile isWordChar).head?, isWordChar d = false := by
      intro d hd
      have hhead := List.head?_dropWhile_not isWordChar cs
      rwa [hd] at hhead
    have hshows := Shows.invalidNumber hdigit hword hother hstop
    rwa [List.cons_append, List.takeWhile_append_dropWhile] at hshows

theorem Lead.eq_of_doubled {kind : TokenKind} (h : Lead.of c = .doubled kind) :
    c = '&' ∨ c = '|' := by
  unfold Lead.of at h
  split at h
  case h_14 => exact .inl rfl
  case h_15 => exact .inr rfl
  case h_20 => split at h <;> cases h
  all_goals cases h

/-- A faulty lexeme, with no gap in front, shows its fault. -/
theorem shows_scan {afterOperand : Bool} (hgap : splitGapItem? (c :: cs) = none)
    (h : (Lexeme.scan afterOperand c cs).outcome = .error fault) : Shows fault (c :: cs) := by
  have hfits := Lead.fits_of c
  unfold Lexeme.scan at h
  split at h <;> rename_i hlead
  · cases h
  · split at h <;> cases h
  · split at h
    · rename_i hd
      split at h
      · cases h
      · rename_i hne
        cases h
        exact .incompleteOperator (Lead.eq_of_doubled hlead) fun hhead => hne (by simpa using hhead)
    · cases h
      exact .incompleteOperator (Lead.eq_of_doubled hlead) (by simp)
  · cases h
  · rw [hlead] at hfits
    cases hfits
    split at h
    · cases h
      rw [splitGapItem?, Option.map_eq_none_iff] at hgap
      exact .unterminatedComment (not_infix_of_splitComment? hgap)
    · cases h
  · rw [Lead.eq_of_charQuote hlead]
    exact shows_charLiteral h
  · rw [Lead.eq_of_stringQuote hlead]
    exact shows_stringLiteral h
  · exact shows_word (Lead.isWordStart_of_word hlead) h
  · cases h
    exact shows_unexpected hlead hgap

end faulty

/-! ## The text in front of an error -/

/-- Nothing behind a lexeme belongs to it, wherever the text is cut off. -/
theorem Maximal.of_append {lexeme front behind : List Char}
    (h : Maximal lexeme (front ++ behind)) : Maximal lexeme front := by
  have hhead : ∀ d, front.head? = some d → (front ++ behind).head? = some d := by
    intro d hd
    rw [List.head?_append, hd]
    rfl
  refine ⟨fun hword d hd => h.word hword d (hhead d hd), fun hmark hd => ?_, fun hslash => ?_⟩
  · exact h.mark hmark (hhead _ hd)
  · exact ⟨fun hd => (h.slash hslash).1 (hhead _ hd), fun hd => (h.slash hslash).2 (hhead _ hd)⟩

/-- An error is found behind a gap, in a text that shows the fault. -/
theorem fault_of_next {cursor after : Cursor} {e : LexError}
    (h : cursor.next = (.error e, after)) :
    ∃ gap behind, cursor.rest = gap ++ behind ∧ ClosedGap gap ∧
      e.location = cursor.location.after gap ∧ Shows e.fault behind := by
  rcases next_cases cursor with ⟨_, hnext⟩ | ⟨gap, c, cs, hrest, hclosed, hstop, hnext⟩
  · rw [hnext] at h
    cases h
  · rw [hnext, Cursor.take] at h
    split at h
    · cases h
    · rename_i fault hfault
      cases h
      exact ⟨gap, c :: cs, hrest, hclosed, rfl, shows_scan hstop hfault⟩

/-- The text from the cursor on is cut in front of the lexeme at fault, and what is in front has the
tokens that are found before the error. -/
theorem split_of_finds {cursor last after : Cursor} {tokens : List Token} {e : LexError}
    {before : List Char} (h : Finds cursor tokens last) (herror : last.next = (.error e, after))
    (hlocation : cursor.location = .behind before) :
    ∃ front behind, cursor.rest = front ++ behind ∧ e.location = .behind (before ++ front) ∧
      Shows e.fault behind ∧
      Partition before cursor.afterOperand front (tokens ++ [⟨.endOfInput, e.location⟩]) := by
  induction h generalizing before with
  | @nil cursor =>
    obtain ⟨gap, behind, hrest, hgap, hplace, hshows⟩ := fault_of_next herror
    rw [hlocation, ← Location.behind_append] at hplace
    refine ⟨gap, behind, hrest, hplace, hshows, ?_⟩
    rw [hplace]
    exact .last (.closed hgap)
  | @cons cursor after' last token tokens hnext hend _ ih =>
    cases step_of_next hnext with
    | last _ => exact absurd rfl hend
    | @lexeme gap lexeme rest kind hrest hgap hne hdecodes hmaximal =>
      have hbehind : (cursor.location.after gap).after lexeme =
          .behind (before ++ gap ++ lexeme) := by
        rw [Location.behind_append, Location.behind_append, hlocation]
      obtain ⟨front, behind, hfront, hplace, hshows, hpartition⟩ := ih herror hbehind
      have hrest' : rest = front ++ behind := hfront
      rw [hrest'] at hrest hmaximal
      refine ⟨gap ++ lexeme ++ front, behind, ?_, ?_, hshows, ?_⟩
      · rw [hrest]
        simp
      · rw [hplace]
        simp
      · rw [hlocation, ← Location.behind_append]
        exact .lexeme hgap hne hdecodes hmaximal.of_append hpartition

/-- An error is at the first character of a lexeme at fault, in a text that shows the fault. The
text in front of it is without fault: it is cut into the tokens that were found before the error,
and its end of input is at the place of the error. -/
theorem tokenize_error_split {source : String} {e : LexError} (h : tokenize source = .error e) :
    ∃ before behind tokens, source.toList = before ++ behind ∧
      tokenize (String.ofList before) = .ok (tokens ++ [⟨.endOfInput, e.location⟩]) ∧
      (∃ last, Finds (Cursor.ofText source.toList) tokens last ∧ last.next.1 = .error e) ∧
      e.location = .behind before ∧ Shows e.fault behind := by
  obtain ⟨tokens, last, hfinds, hleaves⟩ := finds_of_tokenize (Cursor.ofText source.toList)
  unfold tokenize at h
  generalize (Cursor.ofText source.toList).tokenize = found at h hleaves
  cases hleaves with
  | stop _ => cases h
  | fault herror =>
    cases h
    have hlocation : (Cursor.ofText source.toList).location = .behind [] := rfl
    obtain ⟨front, behind, hsource, hplace, hshows, hpartition⟩ :=
      split_of_finds hfinds herror hlocation
    refine ⟨front, behind, tokens, hsource, ?_, ⟨last, hfinds, by rw [herror]⟩, hplace, hshows⟩
    rw [tokenize_eq_ok_iff_partition, String.toList_ofList]
    exact hpartition

/-- A comment that is closed, and one that is not. -/
def openComment : String := "a\n-/* '*/ /*/ 1"

theorem tokenize_error_split_comment :
    tokenize openComment = .error ⟨.unterminatedComment, ⟨2, 9⟩⟩ ∧
      openComment.toList = "a\n-/* '*/ ".toList ++ "/*/ 1".toList ∧
      tokenize "a\n-/* '*/ " = .ok
        [⟨.identifier "a", ⟨1, 1⟩⟩, ⟨.subtract, ⟨2, 1⟩⟩, ⟨.endOfInput, ⟨2, 9⟩⟩] ∧
      (∃ last, Finds (Cursor.ofText openComment.toList)
          [⟨.identifier "a", ⟨1, 1⟩⟩, ⟨.subtract, ⟨2, 1⟩⟩] last ∧
        last.next.1 = .error ⟨.unterminatedComment, ⟨2, 9⟩⟩) ∧
      Shows .unterminatedComment "/*/ 1".toList := by
  have h : tokenize openComment = .error ⟨.unterminatedComment, ⟨2, 9⟩⟩ := by decide +kernel
  have htext : tokenize "a\n-/* '*/ " = .ok
      [⟨.identifier "a", ⟨1, 1⟩⟩, ⟨.subtract, ⟨2, 1⟩⟩, ⟨.endOfInput, ⟨2, 9⟩⟩] := by decide +kernel
  obtain ⟨before, behind, tokens, hsource, htokens, hfinds, hplace, hshows⟩ :=
    tokenize_error_split h
  -- of the texts that the source starts with, only one ends at the place of the error
  have honly : ∀ n ≤ 15, Location.behind (openComment.toList.take n) = ⟨2, 9⟩ → n = 10 := by
    decide +kernel
  have hle : before.length ≤ openComment.toList.length := by
    rw [hsource, List.length_append]
    exact Nat.le_add_right _ _
  have hlength : before.length = 10 :=
    honly _ hle (by rw [hsource, List.take_left]; exact hplace.symm)
  have hbefore : openComment.toList.take 10 = before := by rw [hsource, ← hlength, List.take_left]
  have hbehind : openComment.toList.drop 10 = behind := by rw [hsource, ← hlength, List.drop_left]
  have hfront : openComment.toList.take 10 = "a\n-/* '*/ ".toList := by decide +kernel
  have hopen : openComment.toList.drop 10 = "/*/ 1".toList := by decide +kernel
  rw [← hbefore, hfront, String.ofList_toList, htext] at htokens
  rw [← hbehind, hopen] at hshows
  have hfound : tokens = [⟨.identifier "a", ⟨1, 1⟩⟩, ⟨.subtract, ⟨2, 1⟩⟩] :=
    List.append_cancel_right (Except.ok.inj htokens).symm
  rw [hfound] at hfinds
  exact ⟨h, by decide +kernel, htext, hfinds, hshows⟩

end Source
end ImpSyntax

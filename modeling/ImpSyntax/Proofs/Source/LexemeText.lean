import ImpSyntax.Proofs.Source.Spelling

/-!
# ImpSyntax.Proofs.Source.LexemeText

The texts that lexemes are, told without scanning anything: the spelling of a token, or a character
literal (`Decodes`).

* `decodes_scan`  — a lexeme that is found stands for its kind, and it is maximal.
* `Decodes.cuts`  — such a lexeme is found again.
-/

namespace ImpSyntax
namespace Source

/-- The kind that a lexeme stands for, behind the end of an operand or elsewhere: what is spelled,
or the code of the character in a character literal. -/
inductive Decodes (afterOperand : Bool) : List Char → TokenKind → Prop where
  | spelling {kind : TokenKind} : kind.isSpellable = true → kind.resolve afterOperand = kind →
      Decodes afterOperand kind.spelling.toList kind
  | character {c : Char} : c ≠ '\'' → c ≠ '\\' →
      Decodes afterOperand ['\'', c, '\''] (.integer (toString c.toNat))
  | lineFeed : Decodes afterOperand ['\'', '\\', 'n', '\''] (.integer "10")
  | backslash : Decodes afterOperand ['\'', '\\', '\\', '\''] (.integer "92")

/-- A kind that is spelled alike wherever it stands. -/
structure Fixed (kind : TokenKind) (text : List Char) : Prop where
  spelling : kind.spelling.toList = text
  spellable : kind.isSpellable = true
  resolve : ∀ afterOperand, kind.resolve afterOperand = kind

theorem Fixed.decodes {kind : TokenKind} {text : List Char} (h : Fixed kind text)
    (afterOperand : Bool) : Decodes afterOperand text kind := by
  rw [← h.spelling]
  exact .spelling h.spellable (h.resolve afterOperand)

/-- Whether a mark may be a part of another one, or of the opening of a comment. -/
def mayGrow (lexeme : List Char) : Bool := lexeme ∈ [['='], ['<'], ['>'], ['!'], ['/']]

theorem maximal_of_mayGrow {lexeme rest : List Char} (hgrow : mayGrow lexeme = false)
    (hword : lexeme.all isWordChar = true → ∀ c ∈ rest.head?, isWordChar c = false) :
    Maximal lexeme rest := by
  refine ⟨hword, fun hmem => ?_, fun hslash => ?_⟩
  · exact absurd (List.mem_append_left [['/']] hmem) (of_decide_eq_false hgrow)
  · rw [hslash] at hgrow
    cases hgrow

theorem maximal_of_mark {c : Char} {cs rest : List Char} (hc : isWordChar c = false)
    (hgrow : mayGrow (c :: cs) = false) : Maximal (c :: cs) rest :=
  maximal_of_mayGrow hgrow fun hword => by simp [hc] at hword

theorem mayGrow_cons_cons (c d : Char) (cs : List Char) : mayGrow (c :: d :: cs) = false := by
  simp [mayGrow]

theorem mayGrow_of_isWordStart {c : Char} (cs : List Char) (hc : isWordStart c = true) :
    mayGrow (c :: cs) = false := by
  refine decide_eq_false fun hmem => ?_
  simp only [List.mem_cons, List.cons.injEq, List.not_mem_nil, or_false] at hmem
  rcases hmem with ⟨rfl, _⟩ | ⟨rfl, _⟩ | ⟨rfl, _⟩ | ⟨rfl, _⟩ | ⟨rfl, _⟩
  all_goals
    revert hc
    decide +kernel

/-- What a first character announces is spelled with it. -/
def Lead.Fits (c : Char) : Lead → Prop
  | .mark kind => Fixed kind [c] ∧ isWordChar c = false ∧ mayGrow [c] = false
  | .maybeEqual alone withEqual =>
    Fixed alone [c] ∧ Fixed withEqual [c, '='] ∧ isWordChar c = false ∧ c ≠ '/'
  | .doubled kind => Fixed kind [c, c] ∧ isWordChar c = false
  | .minus => c = '-'
  | .slash => c = '/'
  | .charQuote => c = '\''
  | .stringQuote => c = '"'
  | .word => isWordStart c = true
  | .unexpected => True

theorem Lead.fits_of (c : Char) : (Lead.of c).Fits c := by
  unfold Lead.of
  split
  case h_1 | h_2 | h_3 | h_4 | h_5 | h_6 | h_7 | h_8 | h_9 =>
    exact ⟨⟨rfl, rfl, fun _ => rfl⟩, by decide +kernel, rfl⟩
  case h_10 | h_11 | h_12 | h_13 =>
    exact ⟨⟨rfl, rfl, fun _ => rfl⟩, ⟨rfl, rfl, fun _ => rfl⟩, by decide +kernel, by decide⟩
  case h_14 | h_15 => exact ⟨⟨rfl, rfl, fun _ => rfl⟩, by decide +kernel⟩
  case h_20 =>
    split
    · assumption
    · trivial
  all_goals rfl

/-! ## Lexemes that are found -/

theorem fixed_reservedWord? {word : String} {kind : TokenKind}
    (h : reservedWord? word = some kind) : Fixed kind word.toList := by
  unfold reservedWord? at h
  split at h
  case h_6 => cases h
  all_goals
    cases h
    exact ⟨rfl, rfl, fun _ => rfl⟩

theorem fixed_wordKind? {c : Char} {cs : List Char} {kind : TokenKind}
    (hstart : isWordStart c = true) (hmore : cs.all isWordChar = true)
    (h : wordKind? c cs = some kind) : Fixed kind (c :: cs) := by
  have hlexical := Lexeme.isLexical_wordKind? hstart hmore h
  unfold wordKind? at h
  split at h
  · cases h
    exact ⟨by simp [TokenKind.spelling], by rw [TokenKind.isSpellable, hlexical]; rfl,
      fun _ => rfl⟩
  · split at h
    · cases h
    · cases h
      cases hword : reservedWord? (String.ofList (c :: cs)) with
      | some kind => simpa using fixed_reservedWord? hword
      | none =>
        rw [hword] at hlexical
        exact ⟨by simp [TokenKind.spelling], by rw [TokenKind.isSpellable, hlexical]; rfl,
          fun _ => rfl⟩

section found

variable {c : Char} {cs lexeme rest : List Char} {kind : TokenKind} (afterOperand : Bool)

theorem decodes_word (hstart : isWordStart c = true)
    (h : Lexeme.word c cs = ⟨.ok kind, lexeme, rest⟩) :
    Decodes afterOperand lexeme kind ∧ Maximal lexeme rest := by
  have hword : wordKind? c (cs.takeWhile isWordChar) = some kind ∧
      c :: cs.takeWhile isWordChar = lexeme ∧ cs.dropWhile isWordChar = rest := by
    simp only [Lexeme.word, Lexeme.mk.injEq] at h
    obtain ⟨houtcome, hlexeme, hrest⟩ := h
    split at houtcome
    · cases houtcome
      exact ⟨‹_›, hlexeme, hrest⟩
    · cases houtcome
  obtain ⟨hkind, rfl, rfl⟩ := hword
  refine ⟨(fixed_wordKind? hstart List.all_takeWhile hkind).decodes afterOperand, ?_⟩
  refine maximal_of_mayGrow (mayGrow_of_isWordStart _ hstart) fun _ d hd => ?_
  have hstop := List.head?_dropWhile_not isWordChar cs
  rwa [hd] at hstop

theorem closeChar_ok {code : Nat} {opening : List Char}
    (h : Lexeme.closeChar code opening cs = ⟨.ok kind, lexeme, rest⟩) :
    kind = .integer (toString code) ∧ lexeme = opening ++ ['\''] := by
  unfold Lexeme.closeChar at h
  split at h
  · cases h
  · cases h
    exact ⟨rfl, rfl⟩
  · cases h

theorem decodes_charLiteral (h : Lexeme.charLiteral cs = ⟨.ok kind, lexeme, rest⟩) :
    Decodes afterOperand lexeme kind ∧ Maximal lexeme rest := by
  unfold Lexeme.charLiteral at h
  split at h
  case h_4 =>
    obtain ⟨rfl, rfl⟩ := closeChar_ok h
    exact ⟨.lineFeed, maximal_of_mark (by decide +kernel) rfl⟩
  case h_5 =>
    obtain ⟨rfl, rfl⟩ := closeChar_ok h
    exact ⟨.backslash, maximal_of_mark (by decide +kernel) rfl⟩
  case h_7 c cs hquote hlone hn hslash hpair =>
    obtain ⟨rfl, rfl⟩ := closeChar_ok h
    have hc := ne_backslash hlone hpair
    exact ⟨.character hquote hc, maximal_of_mark (by decide +kernel) (mayGrow_cons_cons _ _ _)⟩
  all_goals cases h

theorem decodes_stringLiteral (h : Lexeme.stringLiteral cs = ⟨.ok kind, lexeme, rest⟩) :
    Decodes afterOperand lexeme kind ∧ Maximal lexeme rest := by
  unfold Lexeme.stringLiteral at h
  split at h
  · rename_i text rest' hsplit
    cases h
    have htext := isStringText_of_splitString? hsplit
    have hfixed : Fixed (.string (String.ofList text)) ('"' :: text ++ ['"']) :=
      ⟨by simp [TokenKind.spelling], by simp [TokenKind.isSpellable, TokenKind.isLexical, htext],
        fun _ => rfl⟩
    refine ⟨hfixed.decodes afterOperand, maximal_of_mark (by decide +kernel) ?_⟩
    cases text <;> rfl
  · cases h

theorem decodes_minus (afterOperand : Bool) :
    Decodes afterOperand ['-'] (if afterOperand then .subtract else .negate) := by
  cases afterOperand with
  | false => exact @Decodes.spelling false .negate rfl rfl
  | true => exact @Decodes.spelling true .subtract rfl rfl

/-- A lexeme that is found where no gap is in front stands for its kind, and nothing behind it
belongs to it. -/
theorem decodes_scan (hgap : splitGapItem? (c :: cs) = none)
    (h : Lexeme.scan afterOperand c cs = ⟨.ok kind, lexeme, rest⟩) :
    Decodes afterOperand lexeme kind ∧ Maximal lexeme rest := by
  have hfits := Lead.fits_of c
  unfold Lexeme.scan at h
  split at h <;> rename_i hlead <;> rw [hlead] at hfits
  · cases h
    obtain ⟨hfixed, hword, hgrow⟩ := hfits
    exact ⟨hfixed.decodes afterOperand, maximal_of_mark hword hgrow⟩
  · obtain ⟨halone, hequal, hword, hslash⟩ := hfits
    split at h
    · cases h
      exact ⟨hequal.decodes afterOperand, maximal_of_mark hword (mayGrow_cons_cons _ _ _)⟩
    · rename_i hne
      cases h
      refine ⟨halone.decodes afterOperand, by simp [hword], fun _ hhead => ?_, by simp [hslash]⟩
      obtain ⟨more, rfl⟩ := List.head?_eq_some_iff.mp hhead
      exact hne more rfl
  · obtain ⟨hfixed, hword⟩ := hfits
    split at h
    · split at h
      · rename_i hd
        cases h
        subst hd
        exact ⟨hfixed.decodes afterOperand, maximal_of_mark hword (mayGrow_cons_cons _ _ _)⟩
      · cases h
    · cases h
  · cases hfits
    cases h
    exact ⟨decodes_minus afterOperand, maximal_of_mark (by decide +kernel) rfl⟩
  · cases hfits
    split at h
    · cases h
    · rename_i hne
      cases h
      have hfixed : Fixed .divide ['/'] := ⟨rfl, rfl, fun _ => rfl⟩
      have hword : ['/'].all isWordChar = false := by decide +kernel
      refine ⟨hfixed.decodes afterOperand, by simp [hword], by simp, fun _ => ⟨?_, ?_⟩⟩
      · intro hhead
        obtain ⟨more, rfl⟩ := List.head?_eq_some_iff.mp hhead
        simp [splitGapItem?] at hgap
      · intro hhead
        obtain ⟨more, rfl⟩ := List.head?_eq_some_iff.mp hhead
        exact hne more rfl
  · exact decodes_charLiteral afterOperand h
  · exact decodes_stringLiteral afterOperand h
  · exact decodes_word afterOperand hfits h
  · cases h

end found

/-! ## Lexemes are found again -/

section decodes

variable {afterOperand : Bool} {lexeme rest : List Char} {kind : TokenKind}

theorem charLiteral_cons {c : Char} (cs : List Char) (hquote : c ≠ '\'') (hslash : c ≠ '\\') :
    Lexeme.charLiteral (c :: cs) = Lexeme.closeChar c.toNat ['\'', c] cs := by
  rw [Lexeme.charLiteral]
  · exact hquote
  · intro h _; exact hslash h
  · intro _ h _; exact hslash h
  · intro _ h _; exact hslash h
  · intro _ _ h _; exact hslash h

theorem Decodes.ne_end (h : Decodes afterOperand lexeme kind) : kind ≠ .endOfInput := by
  rintro rfl
  cases h with
  | spelling hspellable _ => cases hspellable

theorem Decodes.cuts (h : Decodes afterOperand lexeme kind) (hmaximal : Maximal lexeme rest) :
    Cuts kind lexeme rest := by
  cases h with
  | spelling hspellable _ => exact cuts_spelling hspellable hmaximal
  | character hquote hslash =>
    refine .of_scan (by decide) fun _ => ?_
    have hlead : Lead.of '\'' = .charQuote := rfl
    simp only [Lexeme.scan, hlead, List.cons_append, charLiteral_cons _ hquote hslash]
    rfl
  | lineFeed => exact .of_scan (by decide) fun _ => rfl
  | backslash => exact .of_scan (by decide) fun _ => rfl

theorem Decodes.resolve (h : Decodes afterOperand lexeme kind) :
    kind.resolve afterOperand = kind := by
  cases h with
  | spelling _ hresolve => exact hresolve
  | character _ _ => rfl
  | lineFeed => rfl
  | backslash => rfl

end decodes

end Source
end ImpSyntax

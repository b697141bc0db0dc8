import ImpSyntax.Unicode.WhiteSpace
import ImpSyntax.Word

/-!
# ImpSyntax.Proofs.WordChars

No character of a word is white space. Both properties are tables, so the 25 white space code
points are enumerated once (`mem_codes_of_inRanges`) and looked up in the tables of letters and
digits; everything else about words and gaps goes through `isWhiteSpace_eq_false`.
-/

namespace ImpSyntax

open Unicode

/-- The numbers in the ranges of a table. -/
def codes (ranges : List (Nat × Nat)) : List Nat :=
  ranges.flatMap fun (low, high) => List.range' low (high + 1 - low)

theorem mem_codes_of_inRanges {ranges : List (Nat × Nat)} {n : Nat}
    (h : inRanges ranges n = true) : n ∈ codes ranges := by
  induction ranges with
  | nil => cases h
  | cons range ranges ih =>
    obtain ⟨low, high⟩ := range
    simp only [inRanges] at h
    split at h
    · cases h
    · rename_i hlow
      simp only [codes, List.flatMap_cons, List.mem_append, List.mem_range'_1]
      simp only [Bool.or_eq_true, decide_eq_true_eq] at h
      rcases h with hhigh | hrest
      · exact .inl (by omega)
      · exact .inr (ih hrest)

theorem whiteSpace_not_in_words : ∀ n ∈ codes whiteSpaceRanges,
    inRanges alphabeticRanges n = false ∧ inRanges numericRanges n = false ∧
      n ≠ '_'.toNat := by
  decide +kernel

theorem isWordChar_of_isWhiteSpace {c : Char} (h : isWhiteSpace c = true) :
    isWordChar c = false := by
  obtain ⟨halpha, hnum, hne⟩ := whiteSpace_not_in_words c.toNat (mem_codes_of_inRanges h)
  have hc : c ≠ '_' := fun heq => hne (heq ▸ rfl)
  simp [isWordChar, isAlphanumeric, isAlphabetic, isNumeric, halpha, hnum, hc]

theorem isWhiteSpace_eq_false {c : Char} (h : isWordChar c = true) : isWhiteSpace c = false := by
  cases hw : isWhiteSpace c with
  | false => rfl
  | true => rw [isWordChar_of_isWhiteSpace hw] at h; cases h

theorem inRanges_head {low high n : Nat} (ranges : List (Nat × Nat)) (hlow : low ≤ n)
    (hhigh : n ≤ high) : inRanges ((low, high) :: ranges) n = true := by
  rw [inRanges, if_neg (Nat.not_lt.mpr hlow), decide_eq_true hhigh, Bool.true_or]

theorem inRanges_below {low high n : Nat} (ranges : List (Nat × Nat)) (h : n < low) :
    inRanges ((low, high) :: ranges) n = false := by
  rw [inRanges, if_pos h]

theorem isDigit_of_isAlphabetic {c : Char} (h : isAlphabetic c = true) : c.isDigit = false := by
  cases hdigit : c.isDigit with
  | false => rfl
  | true =>
    obtain ⟨_, hhigh⟩ := Char.isDigit_iff_toNat.mp hdigit
    have hbelow : isAlphabetic c = false :=
      inRanges_below alphabeticRanges.tail (Nat.lt_of_le_of_lt hhigh (by decide))
    rw [hbelow] at h
    cases h

theorem isWordChar_of_isDigit {c : Char} (h : c.isDigit = true) : isWordChar c = true := by
  obtain ⟨hlow, hhigh⟩ := Char.isDigit_iff_toNat.mp h
  have hnum : isNumeric c = true := inRanges_head numericRanges.tail hlow hhigh
  simp [isWordChar, isAlphanumeric, hnum]

theorem isWordChar_of_isWordStart {c : Char} (h : isWordStart c = true) :
    isWordChar c = true := by
  simp only [isWordStart, Bool.or_eq_true, beq_iff_eq] at h
  rcases h with (halpha | hdigit) | hline
  · simp [isWordChar, isAlphanumeric, halpha]
  · exact isWordChar_of_isDigit hdigit
  · simp [isWordChar, hline]

theorem isWordChar_of_isNumeral {text : List Char} (h : Decimal.isNumeral text = true) :
    ∀ c ∈ text, isWordChar c = true := by
  intro c hc
  simp only [Decimal.isNumeral, Bool.and_eq_true, List.all_eq_true] at h
  exact isWordChar_of_isDigit (h.2 c hc)

theorem isWordChar_of_isIdentifier {text : List Char} (h : isIdentifier text = true) :
    ∀ c ∈ text, isWordChar c = true := by
  cases text with
  | nil => cases h
  | cons first more =>
    simp only [isIdentifier, Bool.and_eq_true, List.all_eq_true] at h
    have hfirst : isWordStart first = true := by
      simp only [isWordStart, Bool.or_eq_true] at h ⊢
      rcases h.1.1 with halpha | hline
      · exact .inl (.inl halpha)
      · exact .inr hline
    intro c hc
    rcases List.mem_cons.mp hc with rfl | hmore
    · exact isWordChar_of_isWordStart hfirst
    · exact h.1.2 c hmore

end ImpSyntax

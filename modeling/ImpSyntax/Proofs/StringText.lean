import ImpSyntax.Listing.Reader
import ImpSyntax.Source.Lexeme

/-!
# ImpSyntax.Proofs.StringText

The contents that string literals can have, and the two ways to find the closing quote. A source
text is scanned forward and pairs each backslash with the character behind it. A token listing is
scanned backward from the end of a line and counts backslashes.

* `isStringText`              — no quote stands bare, and each backslash has a partner.
* `splitString?_append_quote` — forward scanning finds every such content, and only such contents
  (`isStringText_of_splitString?`).
* `escapes`                   — whether a text keeps the character behind it from closing; both
  scans come down to it (`escapes_of_quote`, `closesString_iff`).
-/

namespace ImpSyntax

open Unicode (isWhiteSpace)
open Source.Lexeme (splitString?)
open Listing (trimEnd closesString)

/-- Whether a text can stand between the quotes of a string. -/
def isStringText : List Char → Bool
  | [] => true
  | '"' :: _ => false
  | ['\\'] => false
  | '\\' :: _ :: cs => isStringText cs
  | _ :: cs => isStringText cs

/-- A character that is neither a backslash at the end of a text nor one with a partner is none. -/
theorem ne_backslash {c : Char} {cs : List Char} (hlone : c = '\\' → cs = [] → False)
    (hpair : ∀ d ds, c = '\\' → cs = d :: ds → False) : c ≠ '\\' := by
  intro hc
  cases cs with
  | nil => exact hlone hc rfl
  | cons d cs => exact hpair d cs hc rfl

/-- A text read forward, a backslash together with the character behind it. -/
@[elab_as_elim]
theorem pairwise_induction {motive : List Char → Prop} (nil : motive [])
    (quote : ∀ cs, motive ('"' :: cs)) (lone : motive ['\\'])
    (pair : ∀ c cs, motive cs → motive ('\\' :: c :: cs))
    (plain : ∀ c cs, c ≠ '"' → c ≠ '\\' → motive cs → motive (c :: cs)) (text : List Char) :
    motive text := by
  fun_induction isStringText text with
  | case1 => exact nil
  | case2 cs => exact quote cs
  | case3 => exact lone
  | case4 c cs ih => exact pair c cs ih
  | case5 c cs hquote hlone hpair ih => exact plain c cs hquote (ne_backslash hlone hpair) ih

theorem isStringText_cons {c : Char} (cs : List Char) (hquote : c ≠ '"') (hslash : c ≠ '\\') :
    isStringText (c :: cs) = isStringText cs := by
  rw [isStringText]
  · exact hquote
  · intro h _; exact hslash h
  · intro _ _ h _; exact hslash h

theorem splitString?_cons {c : Char} (cs : List Char) (hquote : c ≠ '"') (hslash : c ≠ '\\') :
    splitString? (c :: cs) = (splitString? cs).map fun (text, rest) => (c :: text, rest) := by
  rw [splitString?]
  · exact hquote
  · intro h _; exact hslash h
  · intro _ _ h _; exact hslash h

theorem isStringText_of_splitString? {cs text rest : List Char}
    (h : splitString? cs = some (text, rest)) : isStringText text = true := by
  induction cs using pairwise_induction generalizing text rest with
  | nil => cases h
  | quote cs => cases h; rfl
  | lone => cases h
  | pair c cs ih =>
    simp only [splitString?, Option.map_eq_some_iff, Prod.mk.injEq] at h
    obtain ⟨⟨text', rest'⟩, h', rfl, rfl⟩ := h
    rw [isStringText]
    exact ih h'
  | plain c cs hquote hslash ih =>
    rw [splitString?_cons cs hquote hslash] at h
    simp only [Option.map_eq_some_iff, Prod.mk.injEq] at h
    obtain ⟨⟨text', rest'⟩, h', rfl, rfl⟩ := h
    rw [isStringText_cons text' hquote hslash]
    exact ih h'

theorem splitString?_append_quote {text : List Char} (h : isStringText text = true)
    (rest : List Char) : splitString? (text ++ '"' :: rest) = some (text, rest) := by
  induction text using pairwise_induction with
  | nil => rfl
  | quote cs => cases h
  | lone => cases h
  | pair c cs ih =>
    rw [isStringText] at h
    simp [splitString?, ih h]
  | plain c cs hquote hslash ih =>
    rw [isStringText_cons cs hquote hslash] at h
    simp [splitString?_cons _ hquote hslash, ih h]

/-! ## Backslashes in front of a quote -/

/-- Whether a backslash at the end of the text keeps the character behind it. -/
def escapes (text : List Char) : Bool :=
  text.foldl (fun escaped c => !escaped && c == '\\') false

theorem escapes_cons {c : Char} (cs : List Char) (hslash : c ≠ '\\') :
    escapes (c :: cs) = escapes cs := by
  have hc : (c == '\\') = false := beq_eq_false_iff_ne.mpr hslash
  simp only [escapes, List.foldl_cons, hc, Bool.and_false]

/-- In the content of a string every quote is kept. -/
theorem escapes_of_quote {before behind : List Char}
    (h : isStringText (before ++ '"' :: behind) = true) : escapes before = true := by
  induction before using pairwise_induction with
  | nil => cases h
  | quote cs => cases h
  | lone => rfl
  | pair c cs ih =>
    rw [List.cons_append, List.cons_append, isStringText] at h
    exact ih h
  | plain c cs hquote hslash ih =>
    rw [List.cons_append, isStringText_cons _ hquote hslash] at h
    rw [escapes_cons cs hslash]
    exact ih h

/-- The quote behind the content of a string is not kept. -/
theorem escapes_of_isStringText {text : List Char} (h : isStringText text = true) :
    escapes text = false := by
  induction text using pairwise_induction with
  | nil => rfl
  | quote cs => cases h
  | lone => cases h
  | pair c cs ih =>
    rw [isStringText] at h
    exact ih h
  | plain c cs hquote hslash ih =>
    rw [isStringText_cons cs hquote hslash] at h
    rw [escapes_cons cs hslash]
    exact ih h

/-- The last character is kept iff an odd number of backslashes stands in front of it. -/
theorem escapes_reverse (text : List Char) :
    escapes text.reverse = ((text.takeWhile (· == '\\')).length % 2 == 1) := by
  induction text with
  | nil => rfl
  | cons c cs ih =>
    have hstep : escapes (c :: cs).reverse = (!escapes cs.reverse && c == '\\') := by
      simp [escapes, List.foldl_append]
    rw [hstep, ih]
    by_cases hslash : c = '\\'
    · subst hslash
      have hparity := Nat.mod_two_eq_zero_or_one (cs.takeWhile (· == '\\')).length
      rcases hparity with heven | hodd
      · simp [heven, Nat.add_mod]
      · simp [hodd, Nat.add_mod]
    · simp [hslash]

theorem closesString_iff {text : List Char} :
    closesString text = true ↔
      ∃ before, trimEnd text = before ++ ['"'] ∧ escapes before = false := by
  constructor
  · intro h
    unfold closesString at h
    split at h
    · rename_i before hrev
      refine ⟨before.reverse, ?_, ?_⟩
      · rw [← List.reverse_reverse (trimEnd text), hrev, List.reverse_cons]
      · rw [escapes_reverse]
        simpa using h
    · cases h
  · rintro ⟨before, htrim, hescapes⟩
    rw [← List.reverse_reverse before, escapes_reverse] at hescapes
    simp only [closesString, htrim, List.reverse_append, List.reverse_singleton,
      List.singleton_append]
    simpa using hescapes

end ImpSyntax

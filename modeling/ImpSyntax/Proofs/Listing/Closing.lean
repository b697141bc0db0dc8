import ImpSyntax.Proofs.Listing.Payload

/-!
# ImpSyntax.Proofs.Listing.Closing

The end of a string, looked for from both sides. A source text is scanned forward, with a backslash
and the character behind it taken together, and the first quote left over closes the string. A line
of a listing is looked at from its end: white space is cut off, and the quote in front of it closes
if an even number of backslashes is in front of that. Both find the same end, unless the forward
scan closes before the last character that is no white space (`closesString_agrees`).

* `ClosesLast`, `ClosesEarly` — where the forward scan closes.
* `ClosesLast.closesString`, `closesLast_or_closesEarly` — from the forward scan to the end of the
  line, and back.
-/

namespace ImpSyntax
namespace Listing

open Source.Lexeme (splitString? splitString?_append)

/-- The forward scan closes the string with the last character that is no white space. -/
def ClosesLast (text : List Char) : Prop :=
  ∃ content behind, splitString? text = some (content, behind) ∧ isBlank behind = true

/-- The forward scan closes the string, and more than white space is behind the quote. -/
def ClosesEarly (text : List Char) : Prop :=
  ∃ content behind, splitString? text = some (content, behind) ∧ isBlank behind = false

theorem ClosesLast.closesString {text : List Char} (h : ClosesLast text) :
    closesString text = true := by
  obtain ⟨content, behind, hsplit, hblank⟩ := h
  rw [← splitString?_append hsplit]
  exact closesString_of_isBlank (isStringText_of_splitString? hsplit) hblank

/-- The quote at the end that is not kept closes the string, or an earlier one does. -/
theorem closesLast_or_closesEarly {text : List Char} (h : closesString text = true) :
    ClosesLast text ∨ ClosesEarly text := by
  obtain ⟨before, htrim, hescapes⟩ := closesString_iff.mp h
  obtain ⟨blanks, hblanks, happend⟩ := trimEnd_append_blank text
  rw [htrim, ← List.append_cons] at happend
  subst happend
  rcases isStringText_or_quote hescapes with hbefore | ⟨front, behind, rfl, hfront⟩
  · exact .inl ⟨before, blanks, splitString?_append_quote hbefore blanks, hblanks⟩
  · -- the quote at the end is behind the one that closes
    refine .inr ⟨front, behind ++ '"' :: blanks, ?_, ?_⟩
    · rw [List.append_assoc, List.cons_append]
      exact splitString?_append_quote hfront _
    · rw [Bool.eq_false_iff, isBlank]
      intro hblank
      have hquote := List.all_eq_true.mp hblank '"' (by simp)
      cases hquote

/-- The two ways to find the end of a string agree, if the forward scan does not close before the
last character that is no white space. So no line of the content of a string looks like its end but
the last one, which does. -/
theorem closesString_agrees :
    (∀ text, ¬ ClosesEarly text → (closesString text = true ↔ ClosesLast text)) ∧
      ∀ (cursor after : Source.Cursor) (content : String) (place : Location),
        cursor.next = (.ok ⟨.string content, place⟩, after) →
          (∀ front more, content.toList = front ++ '\n' :: more → closesString front = false) ∧
            closesString (content.toList ++ ['"']) = true := by
  refine ⟨fun text hlate => ⟨fun h => ?_, ClosesLast.closesString⟩, ?_⟩
  · exact (closesLast_or_closesEarly h).resolve_right hlate
  · intro cursor after content place hnext
    have hcontent := isContent_of_isStringText (Source.Cursor.isLexical_next hnext)
    exact ⟨hcontent.staysOpen, hcontent.closesString⟩

/-- Two backslashes, a quote and a blank. -/
def pairOfSlashes : List Char := ['\\', '\\', '"', ' ']

theorem closesString_agrees_escapes :
    (¬ ClosesEarly pairOfSlashes ∧ closesString pairOfSlashes = true ∧ ClosesLast pairOfSlashes) ∧
      closesString "a\\\" ".toList = false ∧ closesString "a\\\" \nb\"".toList = true := by
  have hsplit : splitString? pairOfSlashes = some (['\\', '\\'], [' ']) := by decide
  have hlate : ¬ ClosesEarly pairOfSlashes := by
    rintro ⟨content, behind, hfound, hblank⟩
    rw [hsplit] at hfound
    cases hfound
    cases hblank
  have hnext : (Source.Cursor.ofText "\"a\\\" \nb\"".toList).next =
      (.ok ⟨.string "a\\\" \nb", ⟨1, 1⟩⟩, ⟨[], ⟨2, 3⟩, false⟩) := by
    decide +kernel
  have hclose : closesString pairOfSlashes = true := by decide
  have hlast := (closesString_agrees.1 pairOfSlashes hlate).1 hclose
  obtain ⟨hlines, hwhole⟩ := closesString_agrees.2 _ _ _ _ hnext
  exact ⟨⟨hlate, hclose, hlast⟩, hlines "a\\\" ".toList ['b'] rfl, hwhole⟩

/-- Where the forward scan closes early, the two may differ. -/
example : closesString "a\" b\"".toList = true ∧
    splitString? "a\" b\"".toList = some (['a'], " b\"".toList) := by
  decide

end Listing
end ImpSyntax

import ImpSyntax.Proofs.Listing.Field
import ImpSyntax.Proofs.Source.Lexical

/-!
# ImpSyntax.Proofs.Listing.Content

What can stand between the quotes of a string in a listing, over one line or several (`IsContent`):
no line of it but the last one may look like the end of the string. That is less than what a source
text asks for, but it is just what makes a content read back as it was read.

* `isContent_of_isStringText` — the contents that source texts have.
* `isContent_of_closeString?` — only contents are read.
* `closeString?_lines`        — the lines of a content read as the content.
* `Listable`                  — the kinds of token that a listing can hold.
-/

namespace ImpSyntax
namespace Listing

/-- No line of the text but the last one ends a string. -/
def StaysOpen (text : List Char) : Prop :=
  ∀ front more, text = front ++ '\n' :: more → closesString front = false

structure IsContent (content : List Char) : Prop where
  /-- A quote behind it closes. -/
  unescaped : escapes content = false
  staysOpen : StaysOpen content

/-! ## Contents that are read -/

theorem staysOpen_of_not_mem {text : List Char} (h : '\n' ∉ text) : StaysOpen text := by
  rintro front more rfl
  exact absurd (by simp) h

theorem StaysOpen.of_append {text more : List Char} (h : StaysOpen (text ++ more)) :
    StaysOpen text := by
  rintro front behind rfl
  exact h front (behind ++ more) (by simp)

theorem StaysOpen.append_row {text row : List Char} (h : StaysOpen text)
    (hopen : closesString text = false) (hrow : '\n' ∉ row) :
    StaysOpen (text ++ '\n' :: row) := by
  intro front more happend
  rcases List.append_eq_append_iff.mp happend with ⟨behind, rfl, hbehind⟩ | ⟨behind, rfl, hbehind⟩
  · cases behind with
    | nil => rwa [List.append_nil]
    | cons c behind =>
      cases hbehind
      exact absurd (by simp) hrow
  · cases behind with
    | nil => rwa [List.append_nil] at hopen
    | cons c behind =>
      cases hbehind
      exact h front behind rfl

theorem isContent_of_closesString {text : List Char} (hclose : closesString text = true)
    (h : StaysOpen text) : IsContent (trimEnd text).dropLast := by
  obtain ⟨before, htrim, hescapes⟩ := closesString_iff.mp hclose
  obtain ⟨blanks, _, happend⟩ := trimEnd_append_blank text
  rw [htrim, List.append_assoc] at happend
  rw [htrim, List.dropLast_concat]
  rw [← happend] at h
  exact ⟨hescapes, h.of_append⟩

theorem isContent_of_closeString? {text content : List Char} {rows rest : List Row}
    (h : closeString? text rows = some (content, rest)) (htext : StaysOpen text)
    (hrows : ∀ row ∈ rows, '\n' ∉ row.text) : IsContent content := by
  fun_induction closeString? text rows with
  | case1 text hclose =>
    cases h
    exact isContent_of_closesString hclose htext
  | case2 => cases h
  | case3 text row rows hclose =>
    cases h
    exact isContent_of_closesString hclose htext
  | case4 text row rows hclose ih =>
    have hrow := hrows row (List.mem_cons_self ..)
    exact ih h (htext.append_row (Bool.eq_false_iff.mpr hclose) hrow)
      fun r hr => hrows r (List.mem_cons_of_mem _ hr)

/-! ## Contents that are written -/

theorem closesString_of_line {done behind : List Char}
    (h : isStringText (done ++ '\n' :: behind) = true) : closesString done = false := by
  rw [Bool.eq_false_iff]
  intro hclose
  obtain ⟨before, htrim, hescapes⟩ := closesString_iff.mp hclose
  obtain ⟨blanks, _, happ⟩ := trimEnd_append_blank done
  rw [← happ, htrim] at h
  have hbare : isStringText (before ++ '"' :: (blanks ++ '\n' :: behind)) = true := by
    simpa using h
  rw [escapes_of_quote hbare] at hescapes
  cases hescapes

theorem isContent_of_isStringText {content : List Char} (h : isStringText content = true) :
    IsContent content := by
  refine ⟨escapes_of_isStringText h, ?_⟩
  rintro front more rfl
  exact closesString_of_line h

theorem trimEnd_append_quote (text : List Char) : trimEnd (text ++ ['"']) = text ++ ['"'] :=
  trimEnd_append_singleton text (by decide)

theorem IsContent.closesString {content : List Char} (h : IsContent content) :
    closesString (content ++ ['"']) = true :=
  closesString_iff.mpr ⟨content, trimEnd_append_quote content, h.unescaped⟩

theorem closeString?_of_closesString {text : List Char} (rows : List Row)
    (h : closesString text = true) :
    closeString? text rows = some ((trimEnd text).dropLast, rows) := by
  cases rows with
  | nil => rw [closeString?, if_pos h]
  | cons row rows => rw [closeString?, if_pos h]

/-- The lines of a content, the first ones already put together, read as the content. -/
theorem closeString?_lines {content : List Char} (h : IsContent content)
    (lines : List (List Char)) (done : List Char) (number : UInt64) (more : List Row)
    (hall : ['\n'].intercalate (done :: lines) = content ++ ['"']) :
    closeString? done (rowsFrom number lines ++ more) = some (content, more) := by
  induction lines generalizing done number with
  | nil =>
    rw [List.intercalate_singleton] at hall
    rw [rowsFrom, List.nil_append, closeString?_of_closesString more (hall ▸ h.closesString), hall,
      trimEnd_append_quote, List.dropLast_concat]
  | cons line lines ih =>
    rw [List.intercalate_cons_cons] at hall
    have hopen : closesString done = false := by
      rw [List.append_assoc, List.append_eq_append_iff] at hall
      rcases hall with ⟨behind, rfl, hbehind⟩ | ⟨behind, _, hbehind⟩
      · cases behind with
        | nil => cases hbehind
        | cons c behind =>
          rw [List.cons_append, List.cons_append, List.cons.injEq] at hbehind
          rw [← hbehind.1] at h
          exact h.staysOpen done behind rfl
      · cases behind with
        | nil => cases hbehind
        | cons c behind => cases behind <;> cases hbehind
    rw [rowsFrom, List.cons_append, closeString?, if_neg (by simp [hopen])]
    apply ih
    cases lines with
    | nil => simpa using hall
    | cons next lines => simpa [List.intercalate_cons_cons] using hall

/-! ## Kinds -/

/-- The kinds that a listing can hold: those that a source text can hold, and strings with any
content that reads back. -/
inductive Listable : TokenKind → Prop where
  | plain {kind : TokenKind} : (∀ text, kind ≠ .string text) → kind.isLexical = true →
      Listable kind
  | string {text : String} : IsContent text.toList → Listable (.string text)

theorem listable_of_isLexical {kind : TokenKind} (h : kind.isLexical = true) : Listable kind := by
  cases kind with
  | string text => exact .string (isContent_of_isStringText h)
  | _ => exact .plain (fun _ heq => by cases heq) h

end Listing
end ImpSyntax

import ImpSyntax.Proofs.Source.Spelling

/-!
# ImpSyntax.Proofs.Source.GapText

The texts that gaps are made of, told without cutting anything: white space and comments, each
comment with its end (`ClosedGap`), and behind the last lexeme perhaps a line comment that the end
of the text ends (`LastGap`).

* `splitGap_closed`, `splitGap_last` — such texts are cut off whole.
* `gap_of_splitGap`                  — and nothing else is cut off.
-/

namespace ImpSyntax
namespace Source

open Unicode (isWhiteSpace)

/-- Whether a text can stand between the opening and the end of a block comment: the first `*/`
behind the opening is the end. -/
def IsCommentBody (body : List Char) : Prop := ¬ ['*', '/'] <:+: body ++ ['*']

/-- A white space character, or a comment with its end. -/
inductive GapItem : List Char → Prop where
  | whiteSpace {c : Char} : isWhiteSpace c = true → GapItem [c]
  | lineComment {body : List Char} : '\n' ∉ body → GapItem ('/' :: '/' :: body ++ ['\n'])
  | blockComment {body : List Char} :
      IsCommentBody body → GapItem ('/' :: '*' :: body ++ ['*', '/'])

/-- A run of white space and comments with their ends. -/
inductive ClosedGap : List Char → Prop where
  | nil : ClosedGap []
  | cons {item gap : List Char} : GapItem item → ClosedGap gap → ClosedGap (item ++ gap)

/-- A run of white space and comments at the end of a text. -/
inductive LastGap : List Char → Prop where
  | closed {gap : List Char} : ClosedGap gap → LastGap gap
  | lineComment {gap body : List Char} :
      ClosedGap gap → '\n' ∉ body → LastGap (gap ++ '/' :: '/' :: body)

theorem ClosedGap.append {gap gap' : List Char} (h : ClosedGap gap) (h' : ClosedGap gap') :
    ClosedGap (gap ++ gap') := by
  induction h with
  | nil => exact h'
  | cons hitem _ ih =>
    rw [List.append_assoc]
    exact .cons hitem ih

theorem ClosedGap.item {gap : List Char} (h : GapItem gap) : ClosedGap gap := by
  simpa using ClosedGap.cons h .nil

theorem LastGap.cons {item gap : List Char} (hitem : GapItem item) (h : LastGap gap) :
    LastGap (item ++ gap) := by
  cases h with
  | closed hgap => exact .closed (.cons hitem hgap)
  | lineComment hgap hbody =>
    rw [← List.append_assoc]
    exact .lineComment (.cons hitem hgap) hbody

theorem ClosedGap.of_lineFeed {gap : List Char} (h : ClosedGap ('\n' :: gap)) : ClosedGap gap := by
  generalize htext : '\n' :: gap = text at h
  cases h with
  | nil => cases htext
  | cons hitem hgap =>
    cases hitem with
    | whiteSpace _ =>
      cases htext
      exact hgap
    | lineComment _ => cases htext
    | blockComment _ => cases htext

theorem LastGap.of_lineFeed {gap : List Char} (h : LastGap ('\n' :: gap)) : LastGap gap := by
  generalize htext : '\n' :: gap = text at h
  cases h with
  | closed hgap => exact .closed (htext ▸ hgap).of_lineFeed
  | @lineComment before body hgap hbody =>
    cases before with
    | nil => cases htext
    | cons c before =>
      cases htext
      exact .lineComment hgap.of_lineFeed hbody

/-! ## Block comments -/

theorem isCommentBody_nil : IsCommentBody [] := by
  intro h
  have hlength := h.length_le
  simp at hlength

theorem isCommentBody_cons {c : Char} {body : List Char} :
    IsCommentBody (c :: body) ↔ (c = '*' → body.head? ≠ some '/') ∧ IsCommentBody body := by
  rw [IsCommentBody, IsCommentBody, List.cons_append, List.infix_cons_iff, not_or]
  refine and_congr_left fun _ => ?_
  cases body with
  | nil => simp
  | cons d body => simp [eq_comm]

theorem splitComment?_cons {c : Char} {cs : List Char} (h : c = '*' → cs.head? ≠ some '/') :
    splitComment? (c :: cs) = (splitComment? cs).map fun (body, rest) => (c :: body, rest) := by
  rw [splitComment?]
  rintro rest rfl rfl
  exact h rfl rfl

theorem splitComment?_append_end {body : List Char} (h : IsCommentBody body) (rest : List Char) :
    splitComment? (body ++ '*' :: '/' :: rest) = some (body ++ ['*', '/'], rest) := by
  induction body with
  | nil => rfl
  | cons c body ih =>
    obtain ⟨hc, hbody⟩ := isCommentBody_cons.mp h
    have hhead : c = '*' → (body ++ '*' :: '/' :: rest).head? ≠ some '/' := by
      cases body with
      | nil => simp
      | cons d body => exact hc
    rw [List.cons_append, splitComment?_cons hhead, ih hbody]
    rfl

theorem isCommentBody_of_splitComment? {cs item rest : List Char}
    (h : splitComment? cs = some (item, rest)) :
    ∃ body, item = body ++ ['*', '/'] ∧ IsCommentBody body := by
  fun_induction splitComment? cs generalizing item rest with
  | case1 => cases h
  | case2 =>
    cases h
    exact ⟨[], rfl, isCommentBody_nil⟩
  | case3 c cs hclose ih =>
    simp only [Option.map_eq_some_iff, Prod.mk.injEq] at h
    obtain ⟨⟨item', rest'⟩, h', rfl, rfl⟩ := h
    obtain ⟨body, rfl, hbody⟩ := ih h'
    refine ⟨c :: body, rfl, isCommentBody_cons.mpr ⟨?_, hbody⟩⟩
    rintro rfl hhead
    have hcs := splitComment?_append h'
    cases body with
    | nil => cases hhead
    | cons d body =>
      cases hhead
      exact hclose _ rfl hcs.symm

/-! ## Gaps are cut off -/

theorem splitGapItem?_line {body : List Char} (hbody : '\n' ∉ body) {rest : List Char}
    (hrest : ∀ c ∈ rest.head?, c = '\n') :
    splitGapItem? ('/' :: '/' :: body ++ rest) = some ('/' :: '/' :: body, rest) := by
  have hline := bne_of_not_mem hbody
  have hstop : ∀ c ∈ rest.head?, (c != '\n') = false := by simpa using hrest
  rw [List.cons_append, List.cons_append, splitGapItem?, takeWhile_append_of_stop hline hstop,
    dropWhile_append_of_stop hline hstop]

/-- The line feed of a line comment is cut off as white space. -/
theorem splitGap_item {item : List Char} (h : GapItem item) (rest : List Char) :
    splitGap (item ++ rest) = (item ++ (splitGap rest).1, (splitGap rest).2) := by
  cases h with
  | whiteSpace hc => exact splitGap_whiteSpace hc rest
  | @lineComment body hbody =>
    have hitem := @splitGapItem?_line body hbody ('\n' :: rest) (by simp)
    have hline := splitGap_of_some hitem
    rw [splitGap_whiteSpace rfl rest] at hline
    simpa using hline
  | @blockComment body hbody =>
    have hitem : splitGapItem? ('/' :: '*' :: body ++ ['*', '/'] ++ rest) =
        some ('/' :: '*' :: body ++ ['*', '/'], rest) := by
      simp [splitGapItem?, splitComment?_append_end hbody]
    exact splitGap_of_some hitem

theorem splitGap_closed {gap : List Char} (h : ClosedGap gap) (rest : List Char) :
    splitGap (gap ++ rest) = (gap ++ (splitGap rest).1, (splitGap rest).2) := by
  induction h with
  | nil => rfl
  | cons hitem _ ih => rw [List.append_assoc, splitGap_item hitem, ih, List.append_assoc]

theorem ClosedGap.isGap {gap : List Char} (h : ClosedGap gap) : IsGap gap := by
  intro rest hrest
  rw [splitGap_closed h, splitGap_of_none hrest, List.append_nil]

theorem splitGap_last {gap : List Char} (h : LastGap gap) : splitGap gap = (gap, []) := by
  cases h with
  | closed hgap =>
    have hall := hgap.isGap [] rfl
    rwa [List.append_nil] at hall
  | lineComment hgap hbody =>
    have hitem := @splitGapItem?_line _ hbody [] (by simp)
    rw [List.append_nil] at hitem
    rw [splitGap_closed hgap, splitGap_of_some hitem, splitGap_of_none rfl, List.append_nil]

/-! ## What is cut off is a gap -/

/-- A gap is cut off whole. -/
theorem splitGapItem?_splitGap (cs : List Char) : splitGapItem? (splitGap cs).2 = none := by
  fun_induction splitGap cs with
  | case1 cs h => exact h
  | case2 cs item rest h gap behind hrest ih =>
    rw [hrest] at ih
    exact ih

/-- A line comment is cut off without its line feed, any other item whole. -/
theorem gapItem_of_splitGapItem? {cs item rest : List Char}
    (h : splitGapItem? cs = some (item, rest)) :
    GapItem item ∨
      ∃ body, item = '/' :: '/' :: body ∧ '\n' ∉ body ∧ ∀ c ∈ rest.head?, c = '\n' := by
  fun_cases splitGapItem? cs with
  | case1 => cases h
  | case2 cs =>
    cases h
    have hbody : '\n' ∉ cs.takeWhile (· != '\n') := by
      intro hmem
      have hne := List.all_eq_true.mp List.all_takeWhile _ hmem
      simp at hne
    have hrest : ∀ c ∈ (cs.dropWhile (· != '\n')).head?, c = '\n' := by
      intro c hc
      have hstop := List.head?_dropWhile_not (· != '\n') cs
      rw [hc] at hstop
      simpa using hstop
    exact .inr ⟨_, rfl, hbody, hrest⟩
  | case3 cs =>
    simp only [splitGapItem?, Option.map_eq_some_iff, Prod.mk.injEq] at h
    obtain ⟨⟨item', rest'⟩, h', rfl, rfl⟩ := h
    obtain ⟨body, rfl, hbody⟩ := isCommentBody_of_splitComment? h'
    exact .inl (.blockComment hbody)
  | case4 c cs _ _ hc =>
    simp only [splitGapItem?, hc] at h
    cases h
    exact .inl (.whiteSpace hc)
  | case5 c cs _ _ hc =>
    simp only [splitGapItem?, hc] at h
    cases h

theorem gap_of_splitGap (cs : List Char) :
    ClosedGap (splitGap cs).1 ∨ (splitGap cs).2 = [] ∧ LastGap (splitGap cs).1 := by
  fun_induction splitGap cs with
  | case1 cs h => exact .inl .nil
  | case2 cs item rest h gap behind hrest ih =>
    rw [hrest] at ih
    rcases gapItem_of_splitGapItem? h with hitem | ⟨body, rfl, hbody, hend⟩
    · rcases ih with hclosed | ⟨hbehind, hlast⟩
      · exact .inl (.cons hitem hclosed)
      · exact .inr ⟨hbehind, hlast.cons hitem⟩
    · cases rest with
      | nil =>
        rw [splitGap_of_none rfl] at hrest
        cases hrest
        exact .inr ⟨rfl, by simpa using LastGap.lineComment .nil hbody⟩
      | cons c rest =>
        -- The gap behind the comment starts with the line feed that ends the comment.
        cases hend c rfl
        rw [splitGap_whiteSpace rfl] at hrest
        cases hrest
        have hline : GapItem ('/' :: '/' :: body ++ ['\n']) := .lineComment hbody
        rcases ih with hclosed | ⟨hbehind, hlast⟩
        · exact .inl (by simpa using hclosed.of_lineFeed.cons hline)
        · exact .inr ⟨hbehind, by simpa using hlast.of_lineFeed.cons hline⟩

/-- In front of a lexeme every gap is closed. -/
theorem closedGap_iff {gap : List Char} :
    ClosedGap gap ↔ splitGap (gap ++ [';']) = (gap, [';']) := by
  constructor
  · intro h
    exact h.isGap [';'] rfl
  · intro h
    have hgap := gap_of_splitGap (gap ++ [';'])
    rw [h] at hgap
    exact hgap.resolve_right fun hnil => by cases hnil.1

instance (gap : List Char) : Decidable (ClosedGap gap) := decidable_of_iff _ closedGap_iff.symm

end Source
end ImpSyntax

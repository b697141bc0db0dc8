import ImpSyntax.Unicode.WhiteSpace

/-!
# ImpSyntax.Source.Gap

Gaps: what stands between two lexemes of a source text and has no meaning. A gap is a run of
white space, line comments and block comments.

* A line comment reaches up to the line feed, which is white space of its own, or up to the end of
  the text.
* A block comment ends at the first `*/` behind its opening, and block comments do not nest. One
  that is never closed is no part of a gap.

`splitGap` cuts the longest gap off the front of a text; `splitGap_append` says that nothing is
lost there.
-/

namespace ImpSyntax
namespace Source

/-- The text up to and with the first `*/`, and the text behind it. -/
def splitComment? : List Char → Option (List Char × List Char)
  | [] => none
  | '*' :: '/' :: rest => some (['*', '/'], rest)
  | c :: cs => (splitComment? cs).map fun (body, rest) => (c :: body, rest)

/-- A white space character or a comment at the front of a text, and the text behind it. -/
def splitGapItem? : List Char → Option (List Char × List Char)
  | [] => none
  | '/' :: '/' :: cs => some ('/' :: '/' :: cs.takeWhile (· != '\n'), cs.dropWhile (· != '\n'))
  | '/' :: '*' :: cs => (splitComment? cs).map fun (body, rest) => ('/' :: '*' :: body, rest)
  | c :: cs => if Unicode.isWhiteSpace c then some ([c], cs) else none

theorem splitComment?_append {cs body rest : List Char}
    (h : splitComment? cs = some (body, rest)) : body ++ rest = cs := by
  fun_induction splitComment? cs generalizing body rest with
  | case1 => cases h
  | case2 => cases h; rfl
  | case3 c cs _ ih =>
    simp only [Option.map_eq_some_iff, Prod.mk.injEq] at h
    obtain ⟨⟨body', rest'⟩, h', rfl, rfl⟩ := h
    simp [ih h']

theorem splitGapItem?_append {cs item rest : List Char}
    (h : splitGapItem? cs = some (item, rest)) : item ++ rest = cs := by
  fun_cases splitGapItem? cs with
  | case1 => cases h
  | case2 cs => cases h; simp [List.takeWhile_append_dropWhile]
  | case3 cs =>
    simp only [splitGapItem?, Option.map_eq_some_iff, Prod.mk.injEq] at h
    obtain ⟨⟨body', rest'⟩, h', rfl, rfl⟩ := h
    simp [splitComment?_append h']
  | case4 c cs _ _ hc => simp only [splitGapItem?, hc] at h; cases h; rfl
  | case5 c cs _ _ hc => simp only [splitGapItem?, hc] at h; cases h

theorem splitGapItem?_ne_nil {cs item rest : List Char}
    (h : splitGapItem? cs = some (item, rest)) : item ≠ [] := by
  fun_cases splitGapItem? cs with
  | case1 => cases h
  | case2 cs => cases h; simp
  | case3 cs =>
    simp only [splitGapItem?, Option.map_eq_some_iff, Prod.mk.injEq] at h
    obtain ⟨_, _, rfl, _⟩ := h
    simp
  | case4 c cs _ _ hc => simp only [splitGapItem?, hc] at h; cases h; simp
  | case5 c cs _ _ hc => simp only [splitGapItem?, hc] at h; cases h

theorem splitGapItem?_length {cs item rest : List Char}
    (h : splitGapItem? cs = some (item, rest)) : rest.length < cs.length := by
  have happ := congrArg List.length (splitGapItem?_append h)
  have hne := List.length_pos_iff.mpr (splitGapItem?_ne_nil h)
  simp only [List.length_append] at happ
  omega

/-- The longest gap at the front of a text, and the text behind it. -/
def splitGap (cs : List Char) : List Char × List Char :=
  match _h : splitGapItem? cs with
  | none => ([], cs)
  | some (item, rest) =>
    match splitGap rest with
    | (gap, behind) => (item ++ gap, behind)
termination_by cs.length
decreasing_by exact splitGapItem?_length ‹_›

theorem splitGap_append (cs : List Char) : (splitGap cs).1 ++ (splitGap cs).2 = cs := by
  fun_induction splitGap cs with
  | case1 cs h => rfl
  | case2 cs item rest h gap behind hrest ih =>
    rw [hrest] at ih
    simp [ih, splitGapItem?_append h]

theorem splitGap_length (cs : List Char) : (splitGap cs).2.length ≤ cs.length := by
  have happ := congrArg List.length (splitGap_append cs)
  simp only [List.length_append] at happ
  omega

end Source
end ImpSyntax

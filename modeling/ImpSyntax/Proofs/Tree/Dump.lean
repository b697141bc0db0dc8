import ImpSyntax.Proofs.Span
import ImpSyntax.Tree.Basic

/-!
# ImpSyntax.Proofs.Tree.Dump

What a dump tells about a tree: the labels in pre-order, except that a separator and an empty
statement look alike (`dump_eq_dump_iff`).

A line is read from the front. Its heading ends at the first blank or line end; the heading tells
whether a text follows, and as long as texts stay on one line, the text ends at the line end. So a
line and what is printed behind it are told apart (`line_append_inj`).
-/

namespace ImpSyntax
namespace Label

/-- The label as a dump shows it. -/
def shown : Label → Label
  | empty => separator
  | label => label

/-- No line ends in the text that the label carries. -/
def IsOneLine (label : Label) : Prop := ∀ text ∈ label.text?, '\n' ∉ text.toList

/-- What follows the heading on the line of a label. -/
def tail (label : Label) : List Char :=
  match label.text? with
  | some text => ' ' :: (text.toList ++ ['\n'])
  | none => ['\n']

def isHeadingChar (c : Char) : Bool := c != ' ' && c != '\n'

theorem isHeadingChar_heading (label : Label) :
    ∀ c ∈ label.heading.toList, isHeadingChar c = true := by
  cases label with
  | binary op => cases op <;> simp [heading, name, BinaryOp.name, isHeadingChar]
  | unary op => cases op <;> simp [heading, name, UnaryOp.name, isHeadingChar]
  | _ => simp [heading, name, isHeadingChar]

theorem isHeadingChar_tail (label : Label) (rest : List Char) :
    ∀ c ∈ (label.tail ++ rest).head?, isHeadingChar c = false := by
  unfold tail
  split <;> simp [isHeadingChar]

theorem toList_line (label : Label) : label.line.toList = label.heading.toList ++ label.tail := by
  unfold line tail
  cases label.text? <;> simp

theorem line_shown (label : Label) : label.shown.line = label.line := by
  cases label <;> rfl

/-- The heading and the text tell the label that is shown. -/
theorem find?_heading (label : Label) :
    ((all (label.text?.getD "")).find? fun other => other.heading == label.heading) =
      some label.shown := by
  cases label with
  | binary op => cases op <;> rfl
  | unary op => cases op <;> rfl
  | _ => rfl

variable {label other : Label} {rest rest' : List Char}

theorem shown_eq_of_heading (hheading : label.heading = other.heading)
    (htext : label.text? = other.text?) : label.shown = other.shown := by
  have hfound := find?_heading label
  rw [hheading, htext, find?_heading other] at hfound
  exact (Option.some.inj hfound).symm

theorem tail_append_inj (hlabel : label.IsOneLine) (hother : other.IsOneLine)
    (h : label.tail ++ rest = other.tail ++ rest') : label.text? = other.text? ∧ rest = rest' := by
  unfold IsOneLine at hlabel hother
  unfold tail at h
  cases htext : label.text? with
  | none =>
    cases htext' : other.text? with
    | none => simpa [htext, htext'] using h
    | some text' => simp [htext, htext'] at h
  | some text =>
    cases htext' : other.text? with
    | none => simp [htext, htext'] at h
    | some text' =>
      simp only [htext, htext', List.cons_append, List.append_assoc, List.cons.injEq, true_and,
        List.nil_append] at h
      have hstop : ∀ rest : List Char, ∀ c ∈ ('\n' :: rest).head?, (c != '\n') = false := by simp
      obtain ⟨hsame, hrest⟩ := append_inj_of_stop (bne_of_not_mem (hlabel text htext))
        (bne_of_not_mem (hother text' htext')) (hstop rest) (hstop rest') h
      exact ⟨by rw [String.toList_inj.1 hsame], (List.cons.inj hrest).2⟩

/-- A line tells the label that is shown, and what is printed behind it. -/
theorem line_append_inj (hlabel : label.IsOneLine) (hother : other.IsOneLine)
    (h : label.line.toList ++ rest = other.line.toList ++ rest') :
    label.shown = other.shown ∧ rest = rest' := by
  simp only [toList_line, List.append_assoc] at h
  obtain ⟨hheading, htail⟩ := append_inj_of_stop (isHeadingChar_heading label)
    (isHeadingChar_heading other) (isHeadingChar_tail label rest) (isHeadingChar_tail other rest') h
  obtain ⟨htext, hrest⟩ := tail_append_inj hlabel hother htail
  exact ⟨shown_eq_of_heading (String.toList_inj.1 hheading) htext, hrest⟩

theorem line_ne_nil (label : Label) (rest : List Char) : label.line.toList ++ rest ≠ [] := by
  have htail : label.tail ≠ [] := by unfold tail; split <;> simp
  simp [toList_line, htail]

/-- The lines of labels one behind the other. -/
def lines (labels : List Label) : List Char := labels.flatMap fun label => label.line.toList

theorem lines_map_shown (labels : List Label) : lines (labels.map shown) = lines labels := by
  simp [lines, List.flatMap_map, line_shown]

theorem map_shown_eq_of_lines {labels others : List Label}
    (hlabels : ∀ label ∈ labels, label.IsOneLine) (hothers : ∀ label ∈ others, label.IsOneLine)
    (h : lines labels = lines others) : labels.map shown = others.map shown := by
  induction labels generalizing others with
  | nil =>
    cases others with
    | nil => rfl
    | cons other others => exact absurd h.symm (line_ne_nil other (lines others))
  | cons label labels ih =>
    cases others with
    | nil => exact absurd h (line_ne_nil label (lines labels))
    | cons other others =>
      rw [List.forall_mem_cons] at hlabels hothers
      obtain ⟨hshown, hrest⟩ := line_append_inj hlabels.1 hothers.1 h
      rw [List.map_cons, List.map_cons, hshown, ih hlabels.2 hothers.2 hrest]

end Label

namespace Tree

/-- The labels in pre-order, as a dump shows them. -/
def shown (tree : Tree) : List Label := tree.labels.map Label.shown

theorem toList_dump (tree : Tree) : tree.dump.toList = Label.lines tree.labels := by
  rw [dump, String.toList_join, List.flatMap_map]
  rfl

/-- Dumps are the same exactly if they show the same labels. -/
theorem dump_eq_dump_iff {tree other : Tree} (htree : ∀ label ∈ tree.labels, label.IsOneLine)
    (hother : ∀ label ∈ other.labels, label.IsOneLine) :
    tree.dump = other.dump ↔ tree.shown = other.shown := by
  rw [← String.toList_inj, toList_dump, toList_dump]
  constructor
  · exact Label.map_shown_eq_of_lines htree hother
  · intro h
    rw [← Label.lines_map_shown tree.labels, ← Label.lines_map_shown other.labels]
    exact congrArg Label.lines h

end Tree
end ImpSyntax

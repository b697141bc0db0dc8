/-!
# ImpSyntax.Proofs.Span

Cutting a list behind the longest front of elements with a property. If such a front is followed by
an element without the property, or by nothing, it is found again, and so is the rest; so the place
of the cut is determined (`append_inj_of_stop`).
-/

namespace ImpSyntax

variable {α : Type} {p : α → Bool} {front rest : List α}

/-- Up to an element, all elements are other ones. -/
theorem bne_of_not_mem [DecidableEq α] {a : α} (h : a ∉ front) : ∀ b ∈ front, (b != a) = true :=
  fun _ hb => bne_iff_ne.mpr fun heq => h (heq ▸ hb)

theorem takeWhile_append_of_stop (hfront : ∀ a ∈ front, p a = true)
    (hrest : ∀ a ∈ rest.head?, p a = false) : (front ++ rest).takeWhile p = front := by
  have hnone : rest.takeWhile p = [] := by
    cases rest with
    | nil => rfl
    | cons a rest => simp [hrest a rfl]
  rw [List.takeWhile_append_of_pos hfront, hnone, List.append_nil]

theorem dropWhile_append_of_stop (hfront : ∀ a ∈ front, p a = true)
    (hrest : ∀ a ∈ rest.head?, p a = false) : (front ++ rest).dropWhile p = rest := by
  rw [List.dropWhile_append_of_pos hfront]
  cases rest with
  | nil => rfl
  | cons a rest => simp [hrest a rfl]

theorem append_inj_of_stop {front' rest' : List α} (hfront : ∀ a ∈ front, p a = true)
    (hfront' : ∀ a ∈ front', p a = true) (hrest : ∀ a ∈ rest.head?, p a = false)
    (hrest' : ∀ a ∈ rest'.head?, p a = false) (h : front ++ rest = front' ++ rest') :
    front = front' ∧ rest = rest' := by
  have htake := congrArg (List.takeWhile p) h
  have hdrop := congrArg (List.dropWhile p) h
  rw [takeWhile_append_of_stop hfront hrest, takeWhile_append_of_stop hfront' hrest'] at htake
  rw [dropWhile_append_of_stop hfront hrest, dropWhile_append_of_stop hfront' hrest'] at hdrop
  exact ⟨htake, hdrop⟩

end ImpSyntax

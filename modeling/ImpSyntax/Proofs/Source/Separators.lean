import ImpSyntax.Proofs.Source.GapText
import Mathlib.Control.Monad.Basic

/-!
# ImpSyntax.Proofs.Source.Separators

Gaps between lexemes have no meaning: whatever white space and comments keep the spellings of
tokens apart, the text reads as these tokens (`tokenize_separated`). A minus has to be of the kind
that its spelling gets there, which depends on the token in front and not on the gap
(`minusesFit`).
-/

namespace ImpSyntax

/-- Whether a minus subtracts exactly behind the end of an operand, and negates elsewhere. -/
def minusesFit (afterOperand : Bool) : List TokenKind → Bool
  | [] => true
  | k :: ks => k.resolve afterOperand == k && minusesFit k.endsOperand ks

namespace Source

/-- The gaps keep the spellings apart: each but the first starts with white space, and only the one
behind the last spelling may be empty instead. -/
structure Separates (pieces : Pieces) (last : List Char) : Prop where
  closed : ∀ piece ∈ pieces, ClosedGap piece.1
  closed_last : ClosedGap last
  inner : ∀ piece ∈ pieces.tail, piece.1 ≠ [] ∧ Separated piece.1
  outer : pieces ≠ [] → Separated last

theorem Separates.tail {piece : List Char × TokenKind} {pieces : Pieces} {last : List Char}
    (h : Separates (piece :: pieces) last) : Separates pieces last :=
  ⟨fun p hp => h.closed p (List.mem_cons_of_mem piece hp), h.closed_last,
    fun p hp => h.inner p (List.mem_of_mem_tail hp), fun _ => h.outer (List.cons_ne_nil _ _)⟩

theorem Separates.separated {piece : List Char × TokenKind} {pieces : Pieces} {last : List Char}
    (h : Separates (piece :: pieces) last) : Separated (textOf pieces last) := by
  cases pieces with
  | nil => exact h.outer (List.cons_ne_nil _ _)
  | cons next pieces =>
    obtain ⟨gap, k⟩ := next
    obtain ⟨hne, hspace⟩ := h.inner (gap, k) (List.mem_cons_self ..)
    obtain ⟨c, gap, rfl⟩ := List.exists_cons_of_ne_nil hne
    exact hspace

theorem Separates.spaced {pieces : Pieces} {last : List Char} (h : Separates pieces last)
    (hkinds : ∀ piece ∈ pieces, piece.2.isSpellable = true) : Spaced last pieces := by
  induction pieces with
  | nil => exact .nil h.closed_last.isGap
  | cons piece pieces ih =>
    obtain ⟨gap, k⟩ := piece
    have hgap := h.closed (gap, k) (List.mem_cons_self ..)
    have hk := hkinds (gap, k) (List.mem_cons_self ..)
    exact .cons hgap.isGap hk h.separated
      (ih h.tail fun p hp => hkinds p (List.mem_cons_of_mem _ hp))

theorem map_kind_tokensOf {pieces : Pieces} {afterOperand : Bool}
    (h : minusesFit afterOperand (pieces.map (·.2)) = true) (location : Location)
    (last : List Char) :
    (tokensOf location afterOperand pieces last).map (·.kind) =
      pieces.map (·.2) ++ [.endOfInput] := by
  induction pieces generalizing afterOperand location with
  | nil => rfl
  | cons piece pieces ih =>
    obtain ⟨gap, k⟩ := piece
    simp only [List.map_cons, minusesFit, Bool.and_eq_true, beq_iff_eq] at h
    simp [tokensOf, h.1, ih h.2]

/-- A text of spellings reads as the tokens that are spelled, whatever keeps them apart. -/
theorem tokenize_separated {pieces : Pieces} {last : List Char} (h : Separates pieces last)
    (hkinds : ∀ piece ∈ pieces, piece.2.isSpellable = true)
    (hminus : minusesFit false (pieces.map (·.2)) = true) :
    ∃ tokens, tokenize (String.ofList (textOf pieces last)) = .ok tokens ∧
      tokens.map (·.kind) = pieces.map (·.2) ++ [.endOfInput] := by
  have htokens : (Cursor.ofText (textOf pieces last)).tokenize.1 = _ :=
    Cursor.tokenize_textOf (h.spaced hkinds) rfl
  refine ⟨_, ?_, map_kind_tokensOf hminus .start last⟩
  rw [tokenize, String.toList_ofList, htokens]
  rfl

/-- Quotes, stars and slashes in comments, and a minus behind a comment. -/
def commented : Pieces :=
  [("/*\"*/".toList, .identifier "a"), (" //'\n".toList, .subtract),
    ("\n/*-**/".toList, .integer "1")]

theorem tokenize_separated_commented :
    String.ofList (textOf commented " /*/*/".toList) = "/*\"*/a //'\n-\n/*-**/1 /*/*/" ∧
      tokenize "/*\"*/a //'\n-\n/*-**/1 /*/*/" = .ok [⟨.identifier "a", ⟨1, 6⟩⟩,
        ⟨.subtract, ⟨2, 1⟩⟩, ⟨.integer "1", ⟨3, 7⟩⟩, ⟨.endOfInput, ⟨3, 14⟩⟩] ∧
      [.identifier "a", .subtract, .integer "1", .endOfInput] =
        commented.map (·.2) ++ [.endOfInput] := by
  have hsep : Separates commented " /*/*/".toList :=
    ⟨by decide +kernel, by decide +kernel, by decide +kernel, fun _ => by decide +kernel⟩
  have htext :
      String.ofList (textOf commented " /*/*/".toList) = "/*\"*/a //'\n-\n/*-**/1 /*/*/" := by
    decide +kernel
  have hfound : tokenize "/*\"*/a //'\n-\n/*-**/1 /*/*/" = .ok [⟨.identifier "a", ⟨1, 6⟩⟩,
      ⟨.subtract, ⟨2, 1⟩⟩, ⟨.integer "1", ⟨3, 7⟩⟩, ⟨.endOfInput, ⟨3, 14⟩⟩] := by
    decide +kernel
  obtain ⟨tokens, htokens, hkinds⟩ :=
    tokenize_separated hsep (by decide +kernel) (by decide +kernel)
  rw [htext, hfound] at htokens
  cases htokens
  exact ⟨htext, hfound, hkinds⟩

end Source
end ImpSyntax

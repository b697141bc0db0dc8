import ImpSyntax.Proofs.Source.Partition

/-!
# ImpSyntax.Proofs.Source.Run

Cutting a text into tokens is a loop: tokens are found one after another, up to the end of input or
the first error.

* `Finds`             — some tokens are found, one behind the other, before the end of input.
* `finds_of_tokenize` — what `Cursor.tokenize` gives, told by the tokens that are found.
* `Finds.tokenize`    — what is found is in front of what is found behind it.
* `Finds.length_le`   — each of them takes some text, so there is only so much of them.
-/

namespace ImpSyntax
namespace Source

/-- From a cursor on, the tokens are found one behind the other, the last cursor behind them. None
of them is an end of input. -/
inductive Finds : Cursor → List Token → Cursor → Prop where
  | nil {cursor : Cursor} : Finds cursor [] cursor
  | cons {cursor after last : Cursor} {token : Token} {tokens : List Token} :
      cursor.next = (.ok token, after) → token.kind ≠ .endOfInput → Finds after tokens last →
      Finds cursor (token :: tokens) last

/-- The loop is left where the end of input or an error is found instead of a token. -/
inductive Leaves (tokens : List Token) (last : Cursor) :
    Except LexError (List Token) × Cursor → Prop where
  | stop {place : Location} {after : Cursor} : last.next = (.ok ⟨.endOfInput, place⟩, after) →
      Leaves tokens last (.ok (tokens ++ [⟨.endOfInput, place⟩]), after)
  | fault {e : LexError} {after : Cursor} : last.next = (.error e, after) →
      Leaves tokens last (.error e, after)

theorem Finds.ne_end {cursor last : Cursor} {tokens : List Token} (h : Finds cursor tokens last) :
    ∀ token ∈ tokens, token.kind ≠ .endOfInput := by
  induction h with
  | nil => simp
  | cons _ hend _ ih => simpa using ⟨hend, ih⟩

/-- Every token takes at least one character. -/
theorem Finds.length_le {cursor last : Cursor} {tokens : List Token}
    (h : Finds cursor tokens last) : tokens.length + last.rest.length ≤ cursor.rest.length := by
  induction h with
  | nil => simp
  | @cons cursor after last token tokens hnext hend _ ih =>
    have hstep := cursor.next_length
    rw [hnext] at hstep
    rcases hstep with ⟨place, heq⟩ | hlt
    · cases heq
      exact absurd rfl hend
    · have hshort : after.rest.length < cursor.rest.length := hlt
      simp only [List.length_cons]
      omega

theorem Finds.tokenize {cursor last : Cursor} {tokens : List Token} (h : Finds cursor tokens last) :
    cursor.tokenize.1 = last.tokenize.1.map (tokens ++ ·) := by
  induction h with
  | @nil cursor => cases cursor.tokenize.1 <;> rfl
  | @cons cursor after last token tokens hnext hend _ ih =>
    rw [Cursor.tokenize_of_next hnext hend, ih]
    cases last.tokenize.1 <;> rfl

theorem finds_of_tokenize (cursor : Cursor) :
    ∃ tokens last, Finds cursor tokens last ∧ Leaves tokens last cursor.tokenize := by
  fun_induction Cursor.tokenize cursor with
  | case1 cursor e after hnext => exact ⟨[], cursor, .nil, .fault hnext⟩
  | case2 cursor token after hnext hend =>
    obtain ⟨kind, place⟩ := token
    cases hend
    exact ⟨[], cursor, .nil, .stop hnext⟩
  | case3 cursor token after hnext hend tokens' last' hrec ih =>
    obtain ⟨tokens, last, hfinds, hleaves⟩ := ih
    rw [hrec] at hleaves
    refine ⟨token :: tokens, last, .cons hnext hend hfinds, ?_⟩
    cases hleaves with
    | stop hstop => exact .stop hstop
  | case4 cursor token after hnext hend e last' hrec ih =>
    obtain ⟨tokens, last, hfinds, hleaves⟩ := ih
    rw [hrec] at hleaves
    refine ⟨token :: tokens, last, .cons hnext hend hfinds, ?_⟩
    cases hleaves with
    | fault hfault => exact .fault hfault

end Source
end ImpSyntax

import ImpSyntax.Source.Gap
import ImpSyntax.Source.Lexeme

/-!
# ImpSyntax.Source.Cursor

Reading a source text token by token. A cursor holds the text that is still ahead, the place of its
first character, and whether the last token ended an operand.

* `Cursor.next`     — one token; behind the last one, the end of input as often as it is asked for.
* `Cursor.tokenize` — all tokens that are ahead, the end of input last.

A cursor can be used again behind an error: it stands behind the faulty lexeme, and the last token
is still the last one that was found.
-/

namespace ImpSyntax
namespace Source

structure Cursor where
  rest : List Char
  location : Location
  afterOperand : Bool
  deriving DecidableEq, Repr

namespace Cursor

def ofText (text : List Char) : Cursor := ⟨text, .start, false⟩

/-- The cursor behind the gap it stands in front of. -/
def skipGap (cursor : Cursor) : Cursor :=
  match splitGap cursor.rest with
  | (gap, rest) => { cursor with rest := rest, location := cursor.location.after gap }

/-- The token or the error that a lexeme stands for, and the cursor behind the lexeme. -/
def take (cursor : Cursor) (found : Lexeme) : Except LexError Token × Cursor :=
  match found.outcome with
  | .ok kind =>
    (.ok ⟨kind, cursor.location⟩,
      ⟨found.rest, cursor.location.after found.lexeme, kind.endsOperand⟩)
  | .error fault =>
    (.error ⟨fault, cursor.location⟩,
      ⟨found.rest, cursor.location.after found.lexeme, cursor.afterOperand⟩)

/-- The answer where there is no gap in front. -/
def nextLexeme (cursor : Cursor) : Except LexError Token × Cursor :=
  match cursor.rest with
  | [] => (.ok ⟨.endOfInput, cursor.location⟩, { cursor with afterOperand := false })
  | c :: cs => cursor.take (Lexeme.scan cursor.afterOperand c cs)

def next (cursor : Cursor) : Except LexError Token × Cursor := cursor.skipGap.nextLexeme

theorem skipGap_length (cursor : Cursor) :
    cursor.skipGap.rest.length ≤ cursor.rest.length := splitGap_length cursor.rest

theorem take_rest (cursor : Cursor) (found : Lexeme) :
    (cursor.take found).2.rest = found.rest := by
  unfold take
  split <;> rfl

/-- Every answer but the end of input consumes text. -/
theorem next_length (cursor : Cursor) :
    (∃ location, cursor.next.1 = .ok ⟨.endOfInput, location⟩) ∨
      cursor.next.2.rest.length < cursor.rest.length := by
  have hgap := cursor.skipGap_length
  unfold next nextLexeme
  split
  · exact .inl ⟨_, rfl⟩
  · rename_i c cs hrest
    have hscan := Lexeme.scan_length cursor.skipGap.afterOperand c cs
    rw [hrest, List.length_cons] at hgap
    right
    rw [take_rest]
    exact Nat.lt_of_le_of_lt hscan hgap

/-- All tokens ahead, the end of input last, or the first error. The tokens in front of an error
are dropped. -/
def tokenize (cursor : Cursor) : Except LexError (List Token) × Cursor :=
  match _h : cursor.next with
  | (.error e, after) => (.error e, after)
  | (.ok token, after) =>
    if token.kind = .endOfInput then (.ok [token], after)
    else
      match tokenize after with
      | (.ok tokens, last) => (.ok (token :: tokens), last)
      | (.error e, last) => (.error e, last)
termination_by cursor.rest.length
decreasing_by
  rename_i hkind
  have hnext := next_length cursor
  rw [_h] at hnext
  rcases hnext with ⟨_, heq⟩ | hlt
  · cases heq; exact absurd rfl hkind
  · exact hlt

end Cursor

/-- The tokens of a source text, the end of input last. -/
def tokenize (source : String) : Except LexError (List Token) :=
  (Cursor.ofText source.toList).tokenize.1

end Source
end ImpSyntax

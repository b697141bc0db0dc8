import ImpSyntax.Proofs.TokenStream.Session
import Mathlib.Data.List.Forall2

/-!
# ImpSyntax.Proofs.TokenStream.Recast

What parsing does not look at: the texts that tokens carry, the places of tokens, and of which kind
a minus is.

Tokens that differ in nothing else are related (`Unseen`), and so are the streams of two lists of
related tokens (`Alike`). Both streams find the same or miss the same, and are related again behind
it (`Alike.program`). Places and kinds come back only in errors, and there they are those of the
offending token.

* `parse_unseen`         — two lists of related tokens.
* `parse_remake`         — other texts and other places.
* `parse_equalButMinus`  — other kinds of minus.
-/

namespace ImpSyntax

/-! ## Trees with other texts -/

def Label.mapText (f : String → String) : Label → Label
  | .identifier name => .identifier (f name)
  | .integer digits => .integer (f digits)
  | .string text => .string (f text)
  | label => label

/-- The tree with the texts of its leaves replaced. -/
def Tree.mapText (f : String → String) : Tree → Tree
  | .absent => .absent
  | .node label left right => .node (label.mapText f) (left.mapText f) (right.mapText f)

namespace Tree

theorem mapText_chain (f : String → String) (items : List Tree) :
    (chain items).mapText f = chain (items.map (mapText f)) := by
  induction items with
  | nil => rfl
  | cons item items ih =>
    cases items with
    | nil => rfl
    | cons next items => exact congrArg (node .separator (item.mapText f)) ih

theorem mapText_sequence (f : String → String) (items : List Tree) :
    (sequence items).mapText f = sequence (items.map (mapText f)) := by
  rw [sequence, sequence, ← mapText_chain]
  rfl

end Tree

theorem Expr.toTree_mapText (f : String → String) (e : Expr) :
    (e.mapText f).toTree = e.toTree.mapText f := by
  induction e with
  | identifier name => rfl
  | integer digits => rfl
  | unary op operand ih => rw [mapText, toTree, ih]; rfl
  | binary op left right ihl ihr => rw [mapText, toTree, ihl, ihr]; rfl

theorem PrintItem.toTree_mapText (f : String → String) (item : PrintItem) :
    (item.mapText f).toTree = item.toTree.mapText f := by
  cases item with
  | string text => rfl
  | expr value => rw [mapText, toTree, Expr.toTree_mapText]; rfl

mutual

theorem Stmt.toTree_mapText (f : String → String) (s : Stmt) :
    (s.mapText f).toTree = s.toTree.mapText f := by
  cases s with
  | empty => rfl
  | assign name value => rw [mapText, toTree, Expr.toTree_mapText]; rfl
  | ifThen test body =>
    rw [mapText, toTree, Expr.toTree_mapText, Stmt.toTree_mapText f body]
    rfl
  | ifElse test body other =>
    rw [mapText, toTree, Expr.toTree_mapText, Stmt.toTree_mapText f body,
      Stmt.toTree_mapText f other]
    rfl
  | whileLoop test body =>
    rw [mapText, toTree, Expr.toTree_mapText, Stmt.toTree_mapText f body]
    rfl
  | print first more =>
    have hitems : ∀ items : List PrintItem, (items.map (PrintItem.mapText f)).map
        PrintItem.toTree = (items.map PrintItem.toTree).map (Tree.mapText f) := by
      intro items
      simp [PrintItem.toTree_mapText]
    rw [mapText, toTree, ← List.map_cons, hitems, toTree, Tree.mapText_sequence]
  | putc value => rw [mapText, toTree, Expr.toTree_mapText]; rfl
  | block body => rw [mapText, toTree, Stmt.toTrees_mapTexts f body, toTree, Tree.mapText_sequence]

theorem Stmt.toTrees_mapTexts (f : String → String) (body : List Stmt) :
    Stmt.toTrees (Stmt.mapTexts f body) = (Stmt.toTrees body).map (Tree.mapText f) := by
  cases body with
  | nil => rfl
  | cons s body =>
    rw [mapTexts, toTrees, Stmt.toTree_mapText f s, Stmt.toTrees_mapTexts f body]
    rfl

end

theorem Program.toTree_mapText (f : String → String) (p : Program) :
    (p.mapText f).toTree = p.toTree.mapText f := by
  rw [mapText, toTree, Stmt.toTrees_mapTexts, toTree, Tree.mapText_sequence]

/-! ## Related tokens -/

/-- Of two related lists, ends of one length are related. -/
theorem forall₂_rests {R : Token → Token → Prop}
    {tokens tokens' taken taken' rest rest' : List Token} (h : List.Forall₂ R tokens tokens')
    (hsplit : tokens = taken ++ rest) (hsplit' : tokens' = taken' ++ rest')
    (hlength : rest'.length = rest.length) : List.Forall₂ R rest rest' := by
  subst hsplit hsplit'
  have htaken : taken.length = taken'.length := by
    have hall := h.length_eq
    rw [List.length_append, List.length_append] at hall
    omega
  have hdrop := List.forall₂_drop taken.length h
  rwa [List.drop_left, htaken, List.drop_left] at hdrop

/-- A relation of tokens that differ in nothing that parsing looks at. The texts of those on the
right are the texts replaced. -/
structure Unseen (f : String → String) (R : Token → Token → Prop) : Prop where
  kind : ∀ {t t'}, R t t' → t'.kind.recast id = t.kind.recast f
  /-- Ends of input may be put where related tokens are. -/
  stop : ∀ {t t'}, R t t' → R ⟨.endOfInput, t.location⟩ ⟨.endOfInput, t'.location⟩

section unseen

variable {f : String → String} {R : Token → Token → Prop} (hR : Unseen f R)
  {tokens tokens' : List Token}

include hR

theorem Unseen.eq_end_iff {t t' : Token} (h : R t t') :
    t'.kind = .endOfInput ↔ t.kind = .endOfInput := by
  rw [← Grammar.recast_eq_iff id rfl, hR.kind h, Grammar.recast_eq_iff f rfl]

theorem Unseen.map_kind (h : List.Forall₂ R tokens tokens') :
    (tokens'.map (·.kind)).map (TokenKind.recast id) =
      (tokens.map (·.kind)).map (TokenKind.recast f) := by
  induction h with
  | nil => rfl
  | cons ht _ ih => simp only [List.map_cons, hR.kind ht, ih]

theorem Unseen.takeWhile (h : List.Forall₂ R tokens tokens') :
    List.Forall₂ R (tokens.takeWhile (·.kind ≠ .endOfInput))
      (tokens'.takeWhile (·.kind ≠ .endOfInput)) := by
  induction h with
  | nil => exact .nil
  | @cons t t' tokens tokens' ht _ ih =>
    by_cases hend : t.kind = .endOfInput
    · have hend' := (hR.eq_end_iff ht).2 hend
      simp [hend, hend']
    · have hend' := mt (hR.eq_end_iff ht).1 hend
      rw [List.takeWhile_cons_of_pos (by simpa using hend),
        List.takeWhile_cons_of_pos (by simpa using hend')]
      exact .cons ht ih

end unseen

namespace TokenStream

/-- The tokens ahead are related one by one, and so are the ends of input. -/
structure Alike (R : Token → Token → Prop) (stream stream' : TokenStream) : Prop where
  ahead : List.Forall₂ R stream.ahead stream'.ahead
  stop : R ⟨.endOfInput, stream.stop⟩ ⟨.endOfInput, stream'.stop⟩

section alike

variable {f : String → String} {R : Token → Token → Prop} {stream stream' : TokenStream}
  {tokens tokens' : List Token}

theorem Alike.head (h : Alike R stream stream') : R stream.head stream'.head := by
  obtain ⟨ahead, stop⟩ := stream
  obtain ⟨ahead', stop'⟩ := stream'
  obtain ⟨hahead, hstop⟩ := h
  cases hahead with
  | nil => exact hstop
  | cons ht _ => exact ht

/-- Both streams find a program or miss the same, and go on in front of related tokens. -/
theorem Alike.program (hR : Unseen f R) (h : Alike R stream stream') :
    Alike R stream.program.2 stream'.program.2 ∧
      ((∃ p, stream.program.1 = .ok p ∧ stream'.program.1 = .ok (p.mapText f)) ∨
        ∃ e e', stream.program.1 = .error e ∧ stream'.program.1 = .error e' ∧
          e'.expected = e.expected) := by
  obtain ⟨hresult, hlength⟩ := Grammar.programRule_of_recast (hR.map_kind h.ahead)
  -- both leave the end of what is ahead, and the ends are of one length
  obtain ⟨taken, hreading⟩ := Grammar.reads_program stream.ahead
  obtain ⟨taken', hreading'⟩ := Grammar.reads_program stream'.ahead
  have hrests := forall₂_rests h.ahead hreading.split hreading'.split hlength
  cases hprogram : Grammar.programRule stream.ahead with
  | mk result rest =>
    cases hprogram' : Grammar.programRule stream'.ahead with
    | mk result' rest' =>
      rw [hprogram, hprogram'] at hresult hrests
      cases result with
      | ok p =>
        cases hresult
        rw [program_of_ok hprogram, program_of_ok hprogram']
        exact ⟨⟨hrests, h.stop⟩, .inl ⟨p, rfl, rfl⟩⟩
      | error expected =>
        cases hresult
        rw [program_of_error hprogram, program_of_error hprogram']
        exact ⟨⟨hrests, h.stop⟩, .inr ⟨_, _, rfl, rfl, rfl⟩⟩

theorem stop_ofTokens (hR : Unseen f R) (h : List.Forall₂ R tokens tokens') (hne : tokens ≠ []) :
    R ⟨.endOfInput, stopOf tokens⟩ ⟨.endOfInput, stopOf tokens'⟩ := by
  induction h with
  | nil => exact absurd rfl hne
  | @cons t t' tokens tokens' ht htokens ih =>
    have hnil : tokens' = [] ↔ tokens = [] := by
      rw [← List.length_eq_zero_iff, ← htokens.length_eq, List.length_eq_zero_iff]
    have hlast : t'.kind = .endOfInput ∨ tokens' = [] ↔ t.kind = .endOfInput ∨ tokens = [] :=
      or_congr (hR.eq_end_iff ht) hnil
    rw [stopOf_cons, stopOf_cons]
    by_cases h : t.kind = .endOfInput ∨ tokens = []
    · rw [if_pos h, if_pos (hlast.2 h)]
      exact hR.stop ht
    · rw [if_neg h, if_neg (mt hlast.1 h)]
      exact ih fun hempty => h (.inr hempty)

theorem alike_ofTokens (hR : Unseen f R) (h : List.Forall₂ R tokens tokens') (hne : tokens ≠ []) :
    Alike R (ofTokens tokens) (ofTokens tokens') :=
  ⟨hR.takeWhile h, stop_ofTokens hR h hne⟩

end alike

end TokenStream

open TokenStream

/-! ## Errors -/

/-- Parsing stops with the error in front of the token of that index, and the error is at it. -/
structure FailsAt (tokens : List Token) (index : Nat) (e : SyntaxError) : Prop where
  error : parse tokens = .error e
  stays : (ofTokens tokens).program.2.position tokens = index
  token : (withEnd tokens)[index]? = some ⟨e.found, e.location⟩

theorem failsAt_of_error {tokens : List Token} {e : SyntaxError} (h : parse tokens = .error e) :
    FailsAt tokens ((ofTokens tokens).program.2.position tokens) e := by
  obtain ⟨behind, hstands⟩ := stands_ofTokens tokens
  obtain ⟨taken, -, hnext⟩ := hstands.program
  exact ⟨h, rfl, by rw [hnext.head, head_of_error h]⟩

/-- Of two lists of related tokens both are programs, which differ in the texts, or both have an
error at one index, where the same was expected instead of related tokens. -/
theorem parse_unseen {f : String → String} {R : Token → Token → Prop} (hR : Unseen f R)
    {tokens tokens' : List Token} (h : List.Forall₂ R tokens tokens') :
    (∃ p, parse tokens = .ok p ∧ parse tokens' = .ok (p.mapText f)) ∨
      ∃ index e e', FailsAt tokens index e ∧ FailsAt tokens' index e' ∧
        e'.expected = e.expected ∧ R ⟨e.found, e.location⟩ ⟨e'.found, e'.location⟩ := by
  by_cases hne : tokens = []
  · subst hne
    cases h
    have hempty : parse [] = .ok ⟨[]⟩ := congrArg Prod.fst (program_of_exhausted .start)
    exact .inl ⟨_, hempty, hempty⟩
  · have halike := alike_ofTokens hR h hne
    obtain ⟨hbehind, hsame⟩ := halike.program hR
    rcases hsame with hprogram | ⟨e, e', he, he', hexpected⟩
    · exact .inl hprogram
    · have hposition : (ofTokens tokens').program.2.position tokens' =
          (ofTokens tokens).program.2.position tokens := by
        rw [position, position, endIndex_eq, endIndex_eq, halike.ahead.length_eq,
          hbehind.ahead.length_eq]
      have hfails' := failsAt_of_error he'
      rw [hposition] at hfails'
      have hhead := hbehind.head
      rw [head_of_error he, head_of_error he'] at hhead
      exact .inr ⟨_, e, e', failsAt_of_error he, hfails', hexpected, hhead⟩

/-! ## Other texts and places -/

/-- The kind with its text replaced. -/
def TokenKind.mapText (f : String → String) : TokenKind → TokenKind
  | .identifier name => .identifier (f name)
  | .integer digits => .integer (f digits)
  | .string text => .string (f text)
  | k => k

/-- The token with its text replaced, at another place. -/
def Token.remake (f : String → String) (g : Location → Location) (t : Token) : Token :=
  ⟨t.kind.mapText f, g t.location⟩

theorem TokenKind.recast_mapText (f : String → String) (k : TokenKind) :
    (k.mapText f).recast id = k.recast f := by
  cases k <;> rfl

theorem TokenKind.name_mapText (f : String → String) (k : TokenKind) :
    (k.mapText f).name = k.name := by
  cases k <;> rfl

theorem unseen_remake (f : String → String) (g : Location → Location) :
    Unseen f fun t t' => t' = t.remake f g where
  kind := by
    rintro t _ rfl
    exact TokenKind.recast_mapText f t.kind
  stop := by
    rintro t _ rfl
    rfl

/-- Other texts of the tokens are other texts of the leaves of the tree and nothing else, and other
places are seen in an error only. -/
theorem parse_remake (f : String → String) (g : Location → Location) (tokens : List Token) :
    ((parse (tokens.map (Token.remake f g))).map Program.toTree).mapError SyntaxError.diagnostic =
      ((parse tokens).map fun p => p.toTree.mapText f).mapError fun e =>
        { e.diagnostic with location := g e.location } := by
  have hrelated : List.Forall₂ (fun t t' => t' = t.remake f g) tokens
      (tokens.map (Token.remake f g)) := by
    rw [List.forall₂_map_right_iff, List.forall₂_same]
    exact fun _ _ => rfl
  rcases parse_unseen (unseen_remake f g) hrelated with
    ⟨p, hp, hp'⟩ | ⟨index, e, e', hfails, hfails', hexpected, htoken⟩
  · rw [hp, hp']
    exact congrArg Except.ok (p.toTree_mapText f)
  · have hfound : e'.found = e.found.mapText f := congrArg Token.kind htoken
    have hlocation : e'.location = g e.location := congrArg Token.location htoken
    have hmessage : e'.message = e.message := by
      rw [SyntaxError.message, SyntaxError.message, hexpected, hfound, TokenKind.name_mapText]
    rw [hfails.error, hfails'.error]
    refine congrArg Except.error ?_
    rw [SyntaxError.diagnostic, hlocation, hmessage]
    rfl

/-! ## Other kinds of minus -/

def TokenKind.isMinus : TokenKind → Bool
  | .subtract | .negate => true
  | _ => false

/-- Tokens at one place and of one kind, but for the kind of a minus. -/
def Token.EqualButMinus (t t' : Token) : Prop :=
  t'.location = t.location ∧
    (t'.kind = t.kind ∨ t.kind.isMinus = true ∧ t'.kind.isMinus = true)

instance (t t' : Token) : Decidable (t.EqualButMinus t') := inferInstanceAs (Decidable (_ ∧ _))

theorem TokenKind.recast_of_isMinus {k : TokenKind} (f : String → String) (h : k.isMinus = true) :
    k.recast f = .subtract := by
  cases k <;> first | rfl | cases h

theorem unseen_equalButMinus : Unseen id Token.EqualButMinus where
  kind := by
    rintro t t' ⟨-, hkind | ⟨hminus, hminus'⟩⟩
    · rw [hkind]
    · rw [TokenKind.recast_of_isMinus id hminus, TokenKind.recast_of_isMinus id hminus']
  stop h := ⟨h.1, .inl rfl⟩

/-- Of which kind a minus is does not matter. Whatever minuses are of the other kind, the same
program is found, or the error is at the same token; its message is the same, or that token is a
minus and the message names its kind. -/
theorem parse_equalButMinus {tokens tokens' : List Token}
    (h : List.Forall₂ Token.EqualButMinus tokens tokens') :
    (∃ p, parse tokens = .ok p ∧ parse tokens' = .ok p) ∨
      ∃ index e e', FailsAt tokens index e ∧ FailsAt tokens' index e' ∧
        e'.location = e.location ∧
        (e'.message = e.message ∨ e.found.isMinus = true ∧ e'.found.isMinus = true ∧
          ∃ wanted, e.message = wanted ++ ", found " ++ e.found.name ∧
            e'.message = wanted ++ ", found " ++ e'.found.name) := by
  rcases parse_unseen unseen_equalButMinus h with
    ⟨p, hp, hp'⟩ | ⟨index, e, e', hfails, hfails', hexpected, hlocation, hkind⟩
  · rw [Program.mapText_id] at hp'
    exact .inl ⟨p, hp, hp'⟩
  · refine .inr ⟨index, e, e', hfails, hfails', hlocation, ?_⟩
    rw [SyntaxError.message, SyntaxError.message, hexpected]
    rcases hkind with hkind | ⟨hminus, hminus'⟩
    · have hfound : e'.found = e.found := hkind
      exact .inl (by rw [hfound])
    · exact .inr ⟨hminus, hminus', e.expected.text, rfl, rfl⟩

/-- `x = 1 - -2; - ;` with minuses of the given kinds. -/
def threeMinuses (first second third : TokenKind) : List Token :=
  [⟨.identifier "x", ⟨1, 1⟩⟩, ⟨.assign, ⟨1, 3⟩⟩, ⟨.integer "1", ⟨1, 5⟩⟩, ⟨first, ⟨1, 7⟩⟩,
    ⟨second, ⟨1, 9⟩⟩, ⟨.integer "2", ⟨1, 10⟩⟩, ⟨.semicolon, ⟨1, 11⟩⟩, ⟨third, ⟨1, 13⟩⟩,
    ⟨.semicolon, ⟨1, 15⟩⟩]

theorem parse_equalButMinus_leading :
    List.Forall₂ Token.EqualButMinus (threeMinuses .subtract .negate .negate)
        (threeMinuses .negate .subtract .subtract) ∧
      FailsAt (threeMinuses .subtract .negate .negate) 7 ⟨.statement, .negate, ⟨1, 13⟩⟩ ∧
      FailsAt (threeMinuses .negate .subtract .subtract) 7 ⟨.statement, .subtract, ⟨1, 13⟩⟩ := by
  have hrelated : List.Forall₂ Token.EqualButMinus (threeMinuses .subtract .negate .negate)
      (threeMinuses .negate .subtract .subtract) := by
    simp [threeMinuses, Token.EqualButMinus, TokenKind.isMinus]
  have herror : parse (threeMinuses .subtract .negate .negate) =
      .error ⟨.statement, .negate, ⟨1, 13⟩⟩ := by cbv
  have herror' : parse (threeMinuses .negate .subtract .subtract) =
      .error ⟨.statement, .subtract, ⟨1, 13⟩⟩ := by cbv
  have honly : ∀ k < 10, (withEnd (threeMinuses .subtract .negate .negate))[k]? =
      some ⟨.negate, ⟨1, 13⟩⟩ → k = 7 := by decide
  refine ⟨hrelated, ?_⟩
  rcases parse_equalButMinus hrelated with
    ⟨p, hp, -⟩ | ⟨index, e, e', hfails, hfails', -, -⟩
  · rw [herror] at hp
    cases hp
  · have he := hfails.error
    have he' := hfails'.error
    rw [herror] at he
    rw [herror'] at he'
    cases he
    cases he'
    have hindex : index = 7 := by
      obtain ⟨hlt, -⟩ := List.getElem?_eq_some_iff.1 hfails.token
      exact honly index hlt hfails.token
    subst hindex
    exact ⟨hfails, hfails'⟩

end ImpSyntax

import ImpSyntax.Proofs.Grammar.OfProgram
import ImpSyntax.Proofs.TokenStream.ViablePrefix

/-!
# ImpSyntax.Proofs.TokenStream.Shape

The trees that come of parsing, told by their shape alone and with no regard to tokens: which
labels stand where, and how many children each node has (`Tree.IsProgram`).

* `isProgram_of_derives`       — the grammar derives no tree of another shape.
* `derives_of_isProgram`       — it derives each tree of the shape, from tokens with every operand
  in parentheses.
* `isProgram_iff_exists_parse` — so the shape tells just which trees come of parsing.
-/

namespace ImpSyntax

namespace Tree

/-- Names, integers, and operators over their operands. -/
inductive IsExpr : Tree → Prop where
  | identifier (name : String) : IsExpr (node (.identifier name) absent absent)
  | integer (digits : String) : IsExpr (node (.integer digits) absent absent)
  | unary (op : UnaryOp) {operand : Tree} :
      IsExpr operand → IsExpr (node (.unary op) operand absent)
  | binary (op : BinaryOp) {left right : Tree} :
      IsExpr left → IsExpr right → IsExpr (node (.binary op) left right)

/-- The print of one item. -/
inductive IsPrint : Tree → Prop where
  | string (text : String) : IsPrint (node .printString (node (.string text) absent absent) absent)
  | expr {value : Tree} : IsExpr value → IsPrint (node .printInteger value absent)

/-- Separators with an item on the left of each. On the right of each but the last one is the next
one, and on the right of the last one there is nothing. -/
inductive IsChain (IsItem : Tree → Prop) : Tree → Prop where
  | last {item : Tree} : IsItem item → IsChain IsItem (node .separator item absent)
  | cons {item items : Tree} :
      IsItem item → IsChain IsItem items → IsChain IsItem (node .separator item items)

/-- A chain, or an empty statement in place of a chain without items. -/
inductive IsList (IsItem : Tree → Prop) : Tree → Prop where
  | empty : IsList IsItem (node .empty absent absent)
  | chain {items : Tree} : IsChain IsItem items → IsList IsItem items

/-- An arm in front of another one does not end in a conditional without an else arm. -/
inductive IsStmt : Tree → Prop where
  | empty : IsStmt (node .empty absent absent)
  | assign (name : String) {value : Tree} : IsExpr value →
      IsStmt (node .assign (node (.identifier name) absent absent) value)
  | ifThen {condition body : Tree} : IsExpr condition → IsStmt body →
      IsStmt (node .branch condition (node .branch body.arm (node .empty absent absent)))
  | ifElse {condition body other : Tree} : IsExpr condition → IsStmt body →
      body.endsOpen = false → IsStmt other →
      IsStmt (node .branch condition (node .branch body.arm other.arm))
  | whileLoop {condition body : Tree} : IsExpr condition → IsStmt body →
      IsStmt (node .loop condition body.arm)
  | print {items : Tree} : IsChain IsPrint items → IsStmt (node .sequence items absent)
  | putc {value : Tree} : IsExpr value → IsStmt (node .printChar value absent)
  | block {body : Tree} : IsList IsStmt body → IsStmt (node .sequence body absent)

inductive IsProgram : Tree → Prop where
  | intro {body : Tree} : IsList IsStmt body → IsProgram (node .sequence body absent)

/-! ## Chains -/

section chains

variable {IsItem : Tree → Prop} {item : Tree} {items : List Tree}

theorem chain_cons (item : Tree) (hne : items ≠ []) :
    chain (item :: items) = node .separator item (chain items) := by
  cases items with
  | nil => exact absurd rfl hne
  | cons next items => rfl

theorem isChain_chain (hitem : IsItem item) (hitems : ∀ t ∈ items, IsItem t) :
    IsChain IsItem (chain (item :: items)) := by
  induction items generalizing item with
  | nil => exact .last hitem
  | cons next items ih =>
    rw [List.forall_mem_cons] at hitems
    exact .cons hitem (ih hitems.1 hitems.2)

theorem isList_chain (hitems : ∀ t ∈ items, IsItem t) : IsList IsItem (chain items) := by
  cases items with
  | nil => exact .empty
  | cons item items =>
    rw [List.forall_mem_cons] at hitems
    exact .chain (isChain_chain hitems.1 hitems.2)

end chains

end Tree

namespace Grammar

open ImpSyntax.Tree

/-! ## What is derived has the shape -/

theorem isExpr_of_derives {level : Nat} {ks : List TokenKind} {t : Tree}
    (h : DerivesExpr level ks t) : IsExpr t := by
  induction h with
  | identifier name => exact .identifier name
  | integer digits => exact .integer digits
  | parens _ ih => exact ih
  | unary _ _ ih => exact .unary _ ih
  | tighter _ ih => exact ih
  | chain _ _ _ _ ihl ihr => exact .binary _ ihl ihr
  | comparison _ _ _ ihl ihr => exact .binary _ ihl ihr

theorem isPrint_of_derives {ks : List TokenKind} {t : Tree} (h : DerivesItem ks t) :
    IsPrint t := by
  cases h with
  | string text => exact .string text
  | expr hvalue => exact .expr (isExpr_of_derives hvalue)

theorem isChain_of_derives {ks : List TokenKind} {ts : List Tree} (h : DerivesItems ks ts) :
    IsChain IsPrint (chain ts) := by
  induction h with
  | single hitem => exact .last (isPrint_of_derives hitem)
  | @cons ks ks' t ts hitem hitems ih =>
    have hne : ts ≠ [] := by cases hitems <;> simp
    rw [chain_cons t hne]
    exact .cons (isPrint_of_derives hitem) ih

mutual

theorem isStmt_of_derives {ks : List TokenKind} {t : Tree} (h : DerivesStmt ks t) : IsStmt t := by
  match h with
  | .empty => exact .empty
  | .assign name hvalue => exact .assign name (isExpr_of_derives hvalue)
  | .ifThen htest hbody => exact .ifThen (isExpr_of_derives htest) (isStmt_of_derives hbody)
  | .ifElse htest hbody hclosed hother =>
    exact .ifElse (isExpr_of_derives htest) (isStmt_of_derives hbody) hclosed
      (isStmt_of_derives hother)
  | .whileLoop htest hbody => exact .whileLoop (isExpr_of_derives htest) (isStmt_of_derives hbody)
  | .print hitems => exact .print (isChain_of_derives hitems)
  | .putc hvalue => exact .putc (isExpr_of_derives hvalue)
  | .block hbody => exact .block (isList_chain (areStmts_of_derives hbody))

theorem areStmts_of_derives {ks : List TokenKind} {ts : List Tree} (h : DerivesStmts ks ts) :
    ∀ t ∈ ts, IsStmt t := by
  match h with
  | .nil => simp
  | .cons hhead htail =>
    rw [List.forall_mem_cons]
    exact ⟨isStmt_of_derives hhead, areStmts_of_derives htail⟩

end

theorem isProgram_of_derives {ks : List TokenKind} {t : Tree} (h : DerivesProgram ks t) :
    IsProgram t := by
  cases h with
  | intro hbody => exact .intro (isList_chain (areStmts_of_derives hbody))

/-! ## What has the shape is derived -/

theorem DerivesExpr.loosen {m n : Nat} {ks : List TokenKind} {t : Tree} (h : DerivesExpr m ks t)
    (hle : m ≤ n) : DerivesExpr n ks t := by
  induction hle with
  | refl => exact h
  | step _ ih => exact .tighter ih

/-- In parentheses, an expression is derived at every level. -/
theorem derives_of_isExpr {t : Tree} (h : IsExpr t) : ∃ ks, DerivesExpr 0 ks t := by
  induction h with
  | identifier name => exact ⟨_, .identifier name⟩
  | integer digits => exact ⟨_, .integer digits⟩
  | unary op _ ih =>
    obtain ⟨ks, hoperand⟩ := ih
    exact ⟨_, .unary (isUnary_kind op) hoperand⟩
  | binary op _ _ ihl ihr =>
    obtain ⟨ls, hleft⟩ := ihl
    obtain ⟨rs, hright⟩ := ihr
    obtain ⟨n, hn⟩ := Nat.exists_eq_add_one.2 (level_pos op)
    have hbare := DerivesExpr.binary (isBinary_kind hn) (hleft.loosen (Nat.zero_le _))
      (hright.loosen (Nat.zero_le n))
    rw [← hn] at hbare
    exact ⟨_, .parens (hbare.loosen (level_le_topLevel op))⟩

theorem derives_top_of_isExpr {t : Tree} (h : IsExpr t) : ∃ ks, DerivesExpr topLevel ks t := by
  obtain ⟨ks, hks⟩ := derives_of_isExpr h
  exact ⟨ks, hks.loosen (Nat.zero_le topLevel)⟩

theorem derives_of_isPrint {t : Tree} (h : IsPrint t) : ∃ ks, DerivesItem ks t := by
  cases h with
  | string text => exact ⟨_, .string text⟩
  | expr hvalue =>
    obtain ⟨ks, hks⟩ := derives_top_of_isExpr hvalue
    exact ⟨ks, .expr hks⟩

theorem derives_of_isChain {t : Tree} (h : IsChain IsPrint t) :
    ∃ ks ts, t = chain ts ∧ DerivesItems ks ts := by
  induction h with
  | last hitem =>
    obtain ⟨ks, hks⟩ := derives_of_isPrint hitem
    exact ⟨ks, [_], rfl, .single hks⟩
  | @cons item items hitem _ ih =>
    obtain ⟨ks, hks⟩ := derives_of_isPrint hitem
    obtain ⟨ks', ts, rfl, hitems⟩ := ih
    have hne : ts ≠ [] := by cases hitems <;> simp
    exact ⟨_, item :: ts, (chain_cons item hne).symm, .cons hks hitems⟩

mutual

theorem derives_of_isStmt {t : Tree} (h : IsStmt t) : ∃ ks, DerivesStmt ks t := by
  match h with
  | .empty => exact ⟨_, .empty⟩
  | .assign name hvalue =>
    obtain ⟨ks, hks⟩ := derives_top_of_isExpr hvalue
    exact ⟨_, .assign name hks⟩
  | .ifThen htest hbody =>
    obtain ⟨cs, hcs⟩ := derives_top_of_isExpr htest
    obtain ⟨bs, hbs⟩ := derives_of_isStmt hbody
    exact ⟨_, .ifThen hcs hbs⟩
  | .ifElse htest hbody hclosed hother =>
    obtain ⟨cs, hcs⟩ := derives_top_of_isExpr htest
    obtain ⟨bs, hbs⟩ := derives_of_isStmt hbody
    obtain ⟨os, hos⟩ := derives_of_isStmt hother
    exact ⟨_, .ifElse hcs hbs hclosed hos⟩
  | .whileLoop htest hbody =>
    obtain ⟨cs, hcs⟩ := derives_top_of_isExpr htest
    obtain ⟨bs, hbs⟩ := derives_of_isStmt hbody
    exact ⟨_, .whileLoop hcs hbs⟩
  | .print hitems =>
    obtain ⟨ks, ts, rfl, hks⟩ := derives_of_isChain hitems
    exact ⟨_, .print hks⟩
  | .putc hvalue =>
    obtain ⟨ks, hks⟩ := derives_top_of_isExpr hvalue
    exact ⟨_, .putc hks⟩
  | .block .empty => exact ⟨_, .block .nil⟩
  | .block (.chain hbody) =>
    obtain ⟨ks, ts, _, rfl, hks⟩ := derives_of_isStmtChain hbody
    exact ⟨_, .block hks⟩

theorem derives_of_isStmtChain {t : Tree} (h : IsChain IsStmt t) :
    ∃ ks ts, ts ≠ [] ∧ t = chain ts ∧ DerivesStmts ks ts := by
  match h with
  | .last hitem =>
    obtain ⟨ks, hks⟩ := derives_of_isStmt hitem
    exact ⟨_, [_], List.cons_ne_nil _ _, rfl, .cons hks .nil⟩
  | .cons hitem hitems =>
    obtain ⟨ks, hks⟩ := derives_of_isStmt hitem
    obtain ⟨ks', ts, hne, rfl, hks'⟩ := derives_of_isStmtChain hitems
    exact ⟨_, _, List.cons_ne_nil _ _, (chain_cons _ hne).symm, .cons hks hks'⟩

end

theorem derives_of_isProgram {t : Tree} (h : IsProgram t) : ∃ ks, DerivesProgram ks t := by
  cases h with
  | intro hbody =>
    cases hbody with
    | empty => exact ⟨[], .intro .nil⟩
    | chain hchain =>
      obtain ⟨ks, ts, _, rfl, hks⟩ := derives_of_isStmtChain hchain
      exact ⟨ks, .intro hks⟩

end Grammar

open Grammar

/-- A tree comes of parsing some list of tokens exactly if it has the shape of a program. -/
theorem isProgram_iff_exists_parse (tree : Tree) :
    tree.IsProgram ↔ ∃ tokens, (parse tokens).map Program.toTree = .ok tree := by
  constructor
  · intro h
    obtain ⟨ks, hks⟩ := derives_of_isProgram h
    refine ⟨ks.map fun k => ⟨k, .start⟩, map_parse_eq_ok_iff.2 ?_⟩
    rwa [kindsAhead_map (not_end_of_program hks)]
  · rintro ⟨tokens, h⟩
    exact isProgram_of_derives (map_parse_eq_ok_iff.1 h)

end ImpSyntax

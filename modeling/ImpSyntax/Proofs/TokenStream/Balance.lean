import ImpSyntax.Proofs.Grammar.Leaves
import ImpSyntax.Proofs.TokenStream.Accepts
import ImpSyntax.Source.OfProgram
import Mathlib.Algebra.BigOperators.Group.List.Basic
import Mathlib.Algebra.Order.Ring.Int

/-!
# ImpSyntax.Proofs.TokenStream.Balance

Nothing is lost and nothing is made up between tokens and tree: the leaves are the tokens that carry
text, in their order, and of every kind of node there are as many as tokens stand for it.

All numbers of nodes come from one law. Labels may have any weights, as long as separators and empty
statements weigh nothing and both operators of a minus weigh the same (`Weighs`). Then each token
has a share in the weight of the tree that depends on its kind alone (`share`).

* `weight_of_program` — the weight of a tree is that of its outermost sequence and all the shares.
* `count_of_program`  — for weights that count labels: how many labels there are of some kinds, by
  the tokens of the kinds that have a share in them.
* `accounts_of_parse` — the accounts of every program.
-/

namespace ImpSyntax

/-- Weights of labels for which each token has a share of its own. -/
structure Weighs (w : Label → Int) : Prop where
  separator : w .separator = 0
  empty : w .empty = 0
  minus : w (.unary .negate) = w (.binary .subtract)

namespace Tree

/-- The weights of all labels together. -/
def weight (w : Label → Int) (t : Tree) : Int := (t.labels.map w).sum

@[simp] theorem weight_absent (w : Label → Int) : absent.weight w = 0 := rfl

@[simp] theorem weight_node (w : Label → Int) (label : Label) (left right : Tree) :
    (node label left right).weight w = w label + (left.weight w + right.weight w) := by
  simp [weight, labels]

section

variable {w : Label → Int} (hw : Weighs w)

include hw

theorem weight_empty : empty.weight w = 0 := by
  simp [empty, leaf, hw.empty]

theorem weight_arm (body : Tree) : body.arm.weight w = w .sequence + body.weight w := by
  simp [arm, weight_empty hw]

theorem weight_chain (items : List Tree) :
    (chain items).weight w = (items.map (weight w)).sum := by
  induction items with
  | nil => exact weight_empty hw
  | cons item items ih =>
    cases items with
    | nil => simp [chain, unary, hw.separator]
    | cons next items =>
      have hchain : chain (item :: next :: items) =
          node .separator item (chain (next :: items)) := rfl
      rw [hchain, weight_node, ih, hw.separator, Int.zero_add]
      rfl

theorem weight_sequence (items : List Tree) :
    (sequence items).weight w = w .sequence + (items.map (weight w)).sum := by
  simp [sequence, unary, weight_chain hw]

end

end Tree

namespace Grammar

/-- What a token weighs in the tree. A print statement has one item more than commas; so its word
and its commas each weigh the print of a number, and a string what the print of a text weighs beyond
that. Parentheses come in pairs, and so do braces; a pair of braces weighs a block, and apart from
that the two marks of a pair may have any opposite weights. -/
def share (w : Label → Int) (paren brace : Int) : TokenKind → Int
  | .identifier name => w (.identifier name)
  | .integer digits => w (.integer digits)
  | .string text => w .printString + w (.string text) - w .printInteger
  | .comma => w .printInteger
  | .printWord => w .sequence + w .printInteger
  | .assign => w .assign
  | .ifWord => 2 * w .branch + w .sequence
  | .elseWord => w .sequence
  | .whileWord => w .loop + w .sequence
  | .putcWord => w .printChar
  | .leftParen => paren
  | .rightParen => -paren
  | .leftBrace => w .sequence + brace
  | .rightBrace => -brace
  | .not => w (.unary .not)
  | .semicolon | .endOfInput => 0
  | k => ((binaryOp? k).map fun op => w (.binary op)).getD 0

/-- The shares of all tokens together. -/
def shares (w : Label → Int) (paren brace : Int) (ks : List TokenKind) : Int :=
  (ks.map (share w paren brace)).sum

section

variable (w : Label → Int) (paren brace : Int)

@[simp] theorem shares_nil : shares w paren brace [] = 0 := rfl

@[simp] theorem shares_cons (k : TokenKind) (ks : List TokenKind) :
    shares w paren brace (k :: ks) = share w paren brace k + shares w paren brace ks := rfl

@[simp] theorem shares_append (ks ks' : List TokenKind) :
    shares w paren brace (ks ++ ks') = shares w paren brace ks + shares w paren brace ks' := by
  simp [shares]

theorem share_of_isBinary {level : Nat} {k : TokenKind} {op : BinaryOp} (h : IsBinary level k op) :
    share w paren brace k = w (.binary op) := by
  cases h <;> rfl

end

section weights

variable {w : Label → Int} (hw : Weighs w) (paren brace : Int)

include hw

theorem share_of_isUnary {k : TokenKind} {op : UnaryOp} (h : IsUnary k op) :
    share w paren brace k = w (.unary op) := by
  cases h with
  | negate => exact hw.minus.symm
  | minus => exact hw.minus.symm
  | not => rfl

theorem weight_of_expr {level : Nat} {ks : List TokenKind} {t : Tree} (h : DerivesExpr level ks t) :
    t.weight w = shares w paren brace ks := by
  induction h with
  | identifier name => simp [Tree.leaf, share]
  | integer digits => simp [Tree.leaf, share]
  | parens _ ih => simp [ih, share]
  | unary hop _ ih => simp [Tree.unary, ih, share_of_isUnary hw paren brace hop]
  | tighter _ ih => exact ih
  | chain hop _ _ _ ihl ihr =>
    simp only [Tree.weight_node, ihl, ihr, shares_append, shares_cons,
      share_of_isBinary w paren brace hop]
    omega
  | comparison hop _ _ ihl ihr =>
    simp only [Tree.weight_node, ihl, ihr, shares_append, shares_cons,
      share_of_isBinary w paren brace hop]
    omega

theorem weight_of_item {ks : List TokenKind} {t : Tree} (h : DerivesItem ks t) :
    t.weight w = w .printInteger + shares w paren brace ks := by
  cases h with
  | string text => simp [Tree.unary, Tree.leaf, share]
  | expr hvalue => simp [Tree.unary, weight_of_expr hw paren brace hvalue]

theorem weight_of_items {ks : List TokenKind} {ts : List Tree} (h : DerivesItems ks ts) :
    (ts.map (Tree.weight w)).sum = w .printInteger + shares w paren brace ks := by
  induction h with
  | single hitem => simp [weight_of_item hw paren brace hitem]
  | cons hitem _ ih =>
    simp only [List.map_cons, List.sum_cons, weight_of_item hw paren brace hitem, ih, shares_append,
      shares_cons, share]
    omega

end weights

mutual

theorem weight_of_stmt {w : Label → Int} (hw : Weighs w) (paren brace : Int) {ks : List TokenKind}
    {t : Tree} (h : DerivesStmt ks t) : t.weight w = shares w paren brace ks := by
  match h with
  | .empty => simp [Tree.weight_empty hw, share]
  | .assign name hvalue =>
    have hexpr := weight_of_expr hw paren brace hvalue
    simp only [Tree.leaf, Tree.weight_node, Tree.weight_absent, hexpr, List.cons_append,
      shares_cons, shares_append, shares_nil, share]
    omega
  | .ifThen htest hbody =>
    have hcondition := weight_of_expr hw paren brace htest
    have harm := weight_of_stmt hw paren brace hbody
    simp only [Tree.weight_node, Tree.weight_arm hw, Tree.weight_empty hw, hcondition, harm,
      List.cons_append, shares_cons, shares_append, share]
    omega
  | .ifElse htest hbody _ hother =>
    have hcondition := weight_of_expr hw paren brace htest
    have harm := weight_of_stmt hw paren brace hbody
    have harm' := weight_of_stmt hw paren brace hother
    simp only [Tree.weight_node, Tree.weight_arm hw, hcondition, harm, harm', List.cons_append,
      shares_cons, shares_append, share]
    omega
  | .whileLoop htest hbody =>
    have hcondition := weight_of_expr hw paren brace htest
    have harm := weight_of_stmt hw paren brace hbody
    simp only [Tree.weight_node, Tree.weight_arm hw, hcondition, harm, List.cons_append,
      shares_cons, shares_append, share]
    omega
  | .print hitems =>
    have hsum := weight_of_items hw paren brace hitems
    simp only [Tree.weight_sequence hw, hsum, List.cons_append, shares_cons, shares_append,
      shares_nil, share]
    omega
  | .putc hvalue => simp [Tree.unary, weight_of_expr hw paren brace hvalue, share]
  | .block hbody =>
    have hsum := weight_of_stmts hw paren brace hbody
    simp only [Tree.weight_sequence hw, hsum, List.cons_append, shares_cons, shares_append,
      shares_nil, share]
    omega

theorem weight_of_stmts {w : Label → Int} (hw : Weighs w) (paren brace : Int)
    {ks : List TokenKind} {ts : List Tree} (h : DerivesStmts ks ts) :
    (ts.map (Tree.weight w)).sum = shares w paren brace ks := by
  match h with
  | .nil => rfl
  | .cons hhead htail =>
    simp [weight_of_stmt hw paren brace hhead, weight_of_stmts hw paren brace htail]

end

theorem weight_of_program {w : Label → Int} (hw : Weighs w) (paren brace : Int)
    {ks : List TokenKind} {t : Tree} (h : DerivesProgram ks t) :
    t.weight w = w .sequence + shares w paren brace ks := by
  cases h with
  | intro hbody => rw [Tree.weight_sequence hw, weight_of_stmts hw paren brace hbody]

/-! ## Weights that count -/

/-- How many of the conditions hold. -/
def tally {α : Type} (ps : List (α → Bool)) (a : α) : Int := ps.countP (· a)

theorem sum_map_ite {α : Type} (p : α → Bool) (as : List α) :
    (as.map fun a => if p a then (1 : Int) else 0).sum = as.countP p := by
  induction as with
  | nil => rfl
  | cons a as ih =>
    rw [List.map_cons, List.sum_cons, ih, List.countP_cons]
    split <;> omega

/-- Condition by condition or element by element, the same is counted. -/
theorem sum_tally {α : Type} (ps : List (α → Bool)) (as : List α) :
    (as.map (tally ps)).sum = (ps.map as.countP).sum := by
  induction ps with
  | nil =>
    have hnone : tally ([] : List (α → Bool)) = fun _ => 0 := rfl
    simp [hnone]
  | cons p ps ih =>
    have hsplit : ∀ a, tally (p :: ps) a = tally ps a + if p a then 1 else 0 := by
      intro a
      rw [tally, List.countP_cons]
      split <;> rfl
    rw [funext hsplit, List.sum_map_add, ih, sum_map_ite, List.map_cons, List.sum_cons]
    omega

section

variable {ks : List TokenKind} {t : Tree}

theorem count_of_program (ps : List (Label → Bool)) (qs : List (TokenKind → Bool))
    (hw : Weighs (tally ps)) (hshare : ∀ k, share (tally ps) 0 0 k = tally qs k)
    (h : DerivesProgram ks t) :
    (ps.map t.labels.countP).sum = ps.countP (· .sequence) + (qs.map ks.countP).sum := by
  have hsum := weight_of_program hw 0 0 h
  rw [Tree.weight, shares, funext hshare, sum_tally, sum_tally, tally] at hsum
  omega

theorem count_eq_countP {label : Label} {q : TokenKind → Bool}
    (hw : Weighs (tally [(· == label)])) (hroot : (Label.sequence == label) = false)
    (hshare : ∀ k, share (tally [(· == label)]) 0 0 k = tally [q] k) (h : DerivesProgram ks t) :
    t.labels.count label = ks.countP q := by
  have hcount := count_of_program [(· == label)] [q] hw hshare h
  simpa [hroot, List.count] using hcount

/-- Marks that come in pairs, the one with the opposite weight of the other. -/
theorem countP_eq_of_pair {p q : TokenKind → Bool} (paren brace : Int)
    (hpair : ∀ k, tally [p] k = share (fun _ => 0) paren brace k + tally [q] k)
    (h : DerivesProgram ks t) : ks.countP p = ks.countP q := by
  have hzero : Weighs fun _ => 0 := ⟨rfl, rfl, rfl⟩
  have hshares : shares (fun _ => 0) paren brace ks = 0 := by
    simpa [Tree.weight] using (weight_of_program hzero paren brace h).symm
  have hmarks := sum_tally [p] ks
  rw [funext hpair, List.sum_map_add, sum_tally, ← shares, hshares] at hmarks
  simp only [List.map_cons, List.map_nil, List.sum_cons, List.sum_nil] at hmarks
  omega

/-- A minus is the only operator that is written with several kinds of token, and the only one that
stands for several operators. -/
theorem share_binary {op : BinaryOp} (hop : op ≠ .subtract) (k : TokenKind) :
    share (tally [(· == .binary op)]) 0 0 k = tally [(· == op.kind)] k := by
  cases op with
  | subtract => exact absurd rfl hop
  | _ => cases k <;> rfl

end

end Grammar

/-! ## Accounts -/

def TokenKind.isString : TokenKind → Bool
  | .string _ => true
  | _ => false

/-- The tokens `ks` of a program and its tree `t`, piece by piece. -/
structure Accounts (ks : List TokenKind) (t : Tree) : Prop where
  leaves : t.leaves = ks.filterMap TokenKind.leaf?
  assign : t.labels.count .assign = ks.count .assign
  branch : t.labels.count .branch = 2 * ks.count .ifWord
  loop : t.labels.count .loop = ks.count .whileWord
  printChar : t.labels.count .printChar = ks.count .putcWord
  printString : t.labels.count .printString = ks.countP TokenKind.isString
  print : t.labels.count .printInteger + t.labels.count .printString =
    ks.count .printWord + ks.count .comma
  sequence : t.labels.count .sequence = 1 + ks.count .leftBrace + ks.count .printWord +
    ks.count .ifWord + ks.count .elseWord + ks.count .whileWord
  minus : t.labels.count (.binary .subtract) + t.labels.count (.unary .negate) =
    ks.count .subtract + ks.count .negate
  not : t.labels.count (.unary .not) = ks.count .not
  binary : ∀ op, op ≠ .subtract → t.labels.count (.binary op) = ks.count op.kind
  parens : ks.count .leftParen = ks.count .rightParen
  braces : ks.count .leftBrace = ks.count .rightBrace

namespace Grammar

theorem accounts_of_program {ks : List TokenKind} {t : Tree} (h : DerivesProgram ks t) :
    Accounts ks t where
  leaves := leaves_of_program h
  assign := count_eq_countP ⟨rfl, rfl, rfl⟩ rfl (fun k => by cases k <;> rfl) h
  branch := by
    -- two labels for a word, so its kind is listed twice
    have hcount := count_of_program [(· == .branch)] [(· == .ifWord), (· == .ifWord)]
      ⟨rfl, rfl, rfl⟩ (fun k => by cases k <;> rfl) h
    simpa [List.count, Nat.two_mul] using hcount
  loop := count_eq_countP ⟨rfl, rfl, rfl⟩ rfl (fun k => by cases k <;> rfl) h
  printChar := count_eq_countP ⟨rfl, rfl, rfl⟩ rfl (fun k => by cases k <;> rfl) h
  printString := count_eq_countP ⟨rfl, rfl, rfl⟩ rfl (fun k => by cases k <;> rfl) h
  print := by
    have hcount := count_of_program [(· == .printInteger), (· == .printString)]
      [(· == .printWord), (· == .comma)] ⟨rfl, rfl, rfl⟩ (fun k => by cases k <;> rfl) h
    simpa [List.count] using hcount
  sequence := by
    have hcount := count_of_program [(· == .sequence)]
      [(· == .leftBrace), (· == .printWord), (· == .ifWord), (· == .elseWord), (· == .whileWord)]
      ⟨rfl, rfl, rfl⟩ (fun k => by cases k <;> rfl) h
    simpa [List.count, Nat.add_assoc] using hcount
  minus := by
    have hcount := count_of_program [(· == .binary .subtract), (· == .unary .negate)]
      [(· == .subtract), (· == .negate)] ⟨rfl, rfl, rfl⟩ (fun k => by cases k <;> rfl) h
    simpa [List.count] using hcount
  not := count_eq_countP ⟨rfl, rfl, rfl⟩ rfl (fun k => by cases k <;> rfl) h
  binary := by
    intro op hop
    have hminus : tally [(· == Label.binary op)] (.binary .subtract) = 0 := by
      simp [tally, hop.symm]
    exact count_eq_countP ⟨rfl, rfl, hminus.symm⟩ rfl (share_binary hop) h
  parens := countP_eq_of_pair 1 0 (fun k => by cases k <;> rfl) h
  braces := countP_eq_of_pair 0 1 (fun k => by cases k <;> rfl) h

end Grammar

open Grammar

theorem accounts_of_parse {tokens : List Token} {tree : Tree}
    (h : (parse tokens).map Program.toTree = .ok tree) : Accounts (kindsAhead tokens) tree :=
  accounts_of_program (map_parse_eq_ok_iff.1 h)

/-- `if (-a - 1) { print("n", !b); } else while (c) putc(1);` and an `x` behind the end. -/
def branchingTokens : List Token :=
  [⟨.ifWord, ⟨1, 1⟩⟩, ⟨.leftParen, ⟨1, 4⟩⟩, ⟨.negate, ⟨1, 5⟩⟩, ⟨.identifier "a", ⟨1, 6⟩⟩,
    ⟨.subtract, ⟨1, 8⟩⟩, ⟨.integer "1", ⟨1, 10⟩⟩, ⟨.rightParen, ⟨1, 11⟩⟩, ⟨.leftBrace, ⟨1, 13⟩⟩,
    ⟨.printWord, ⟨1, 15⟩⟩, ⟨.leftParen, ⟨1, 20⟩⟩, ⟨.string "n", ⟨1, 21⟩⟩, ⟨.comma, ⟨1, 24⟩⟩,
    ⟨.not, ⟨1, 26⟩⟩, ⟨.identifier "b", ⟨1, 27⟩⟩, ⟨.rightParen, ⟨1, 28⟩⟩, ⟨.semicolon, ⟨1, 29⟩⟩,
    ⟨.rightBrace, ⟨1, 31⟩⟩, ⟨.elseWord, ⟨1, 33⟩⟩, ⟨.whileWord, ⟨1, 38⟩⟩, ⟨.leftParen, ⟨1, 44⟩⟩,
    ⟨.identifier "c", ⟨1, 45⟩⟩, ⟨.rightParen, ⟨1, 46⟩⟩, ⟨.putcWord, ⟨1, 48⟩⟩,
    ⟨.leftParen, ⟨1, 52⟩⟩, ⟨.integer "1", ⟨1, 53⟩⟩, ⟨.rightParen, ⟨1, 54⟩⟩,
    ⟨.semicolon, ⟨1, 55⟩⟩, ⟨.endOfInput, ⟨1, 56⟩⟩, ⟨.identifier "x", ⟨1, 57⟩⟩]

def branchingTree : Tree :=
  .sequence [.node .branch
    (.node (.binary .subtract) (.unary (.unary .negate) (.leaf (.identifier "a")))
      (.leaf (.integer "1")))
    (.node .branch
      (Tree.arm (.sequence [.sequence [.unary .printString (.leaf (.string "n")),
        .unary .printInteger (.unary (.unary .not) (.leaf (.identifier "b")))]]))
      (Tree.arm (.node .loop (.leaf (.identifier "c"))
        (Tree.arm (.unary .printChar (.leaf (.integer "1")))))))]

theorem accounts_of_parse_branching :
    (parse branchingTokens).map Program.toTree = .ok branchingTree ∧
      Accounts (kindsAhead branchingTokens) branchingTree := by
  have h : (parse branchingTokens).map Program.toTree = .ok branchingTree := by cbv
  exact ⟨h, accounts_of_parse h⟩

end ImpSyntax

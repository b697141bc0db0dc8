import ImpSyntax.Grammar.Expr
import ImpSyntax.Tree.OfProgram

/-!
# ImpSyntax.Proofs.Grammar.Derivation

The grammar as a relation between lists of token kinds and trees, with no regard to how tokens are
read. Each constructor is one production and says which tree the production stands for.

* `IsBinary`, `IsUnary`       — the tokens that stand for operators.
* `DerivesExpr`               — expressions, by the level of their operators.
* `DerivesItem`, `DerivesItems` — the items of a print statement.
* `DerivesStmt`, `DerivesStmts` — a statement and a list of statements.
* `DerivesProgram`            — a whole program.

Repetition is left recursion, so operators of one level group to the left; a comparison takes no
part in it. An arm in front of an else never ends in a conditional that could take the else for
itself (`Tree.endsOpen`); that alone makes every else belong to the nearest conditional.
-/

namespace ImpSyntax

/-- Whether a statement ends, by way of last arms and loop bodies, in a conditional that has no
else arm. -/
def Tree.endsOpen : Tree → Bool
  | .node .branch _ (.node .branch _ (.node .empty _ _)) => true
  | .node .branch _ (.node .branch _ (.node .sequence other _)) => other.endsOpen
  | .node .loop _ (.node .sequence body _) => body.endsOpen
  | _ => false

namespace Grammar

/-- The operators between operands: their level, the tokens that are read as them. Both kinds of
minus subtract. -/
inductive IsBinary : Nat → TokenKind → BinaryOp → Prop where
  | multiply : IsBinary 1 .multiply .multiply
  | divide : IsBinary 1 .divide .divide
  | mod : IsBinary 1 .mod .mod
  | add : IsBinary 2 .add .add
  | subtract : IsBinary 2 .subtract .subtract
  | minus : IsBinary 2 .negate .subtract
  | less : IsBinary 3 .less .less
  | lessEqual : IsBinary 3 .lessEqual .lessEqual
  | greater : IsBinary 3 .greater .greater
  | greaterEqual : IsBinary 3 .greaterEqual .greaterEqual
  | equal : IsBinary 3 .equal .equal
  | notEqual : IsBinary 3 .notEqual .notEqual
  | and : IsBinary 4 .and .and
  | or : IsBinary 5 .or .or

/-- The operators in front of an operand. Both kinds of minus negate. -/
inductive IsUnary : TokenKind → UnaryOp → Prop where
  | negate : IsUnary .negate .negate
  | minus : IsUnary .subtract .negate
  | not : IsUnary .not .not

/-- `DerivesExpr level ks t`: the tokens `ks` are an expression with the tree `t` whose operators
between operands and outside of parentheses are of `level` or tighter. -/
inductive DerivesExpr : Nat → List TokenKind → Tree → Prop where
  | identifier (name : String) : DerivesExpr 0 [.identifier name] (.leaf (.identifier name))
  | integer (digits : String) : DerivesExpr 0 [.integer digits] (.leaf (.integer digits))
  | parens {ks : List TokenKind} {t : Tree} :
      DerivesExpr topLevel ks t → DerivesExpr 0 (.leftParen :: ks ++ [.rightParen]) t
  | unary {k : TokenKind} {op : UnaryOp} {ks : List TokenKind} {t : Tree} :
      IsUnary k op → DerivesExpr 0 ks t → DerivesExpr 0 (k :: ks) (.unary (.unary op) t)
  | tighter {level : Nat} {ks : List TokenKind} {t : Tree} :
      DerivesExpr level ks t → DerivesExpr (level + 1) ks t
  | chain {level : Nat} {k : TokenKind} {op : BinaryOp} {ls rs : List TokenKind} {l r : Tree} :
      IsBinary (level + 1) k op → level + 1 ≠ 3 → DerivesExpr (level + 1) ls l →
        DerivesExpr level rs r → DerivesExpr (level + 1) (ls ++ k :: rs) (.node (.binary op) l r)
  | comparison {k : TokenKind} {op : BinaryOp} {ls rs : List TokenKind} {l r : Tree} :
      IsBinary 3 k op → DerivesExpr 2 ls l → DerivesExpr 2 rs r →
        DerivesExpr 3 (ls ++ k :: rs) (.node (.binary op) l r)

inductive DerivesItem : List TokenKind → Tree → Prop where
  | string (text : String) :
      DerivesItem [.string text] (.unary .printString (.leaf (.string text)))
  | expr {ks : List TokenKind} {t : Tree} :
      DerivesExpr topLevel ks t → DerivesItem ks (.unary .printInteger t)

inductive DerivesItems : List TokenKind → List Tree → Prop where
  | single {ks : List TokenKind} {t : Tree} : DerivesItem ks t → DerivesItems ks [t]
  | cons {ks ks' : List TokenKind} {t : Tree} {ts : List Tree} :
      DerivesItem ks t → DerivesItems ks' ts → DerivesItems (ks ++ .comma :: ks') (t :: ts)

mutual

inductive DerivesStmt : List TokenKind → Tree → Prop where
  | empty : DerivesStmt [.semicolon] .empty
  | assign (name : String) {ks : List TokenKind} {t : Tree} : DerivesExpr topLevel ks t →
      DerivesStmt (.identifier name :: .assign :: ks ++ [.semicolon])
        (.node .assign (.leaf (.identifier name)) t)
  | ifThen {cs bs : List TokenKind} {c b : Tree} :
      DerivesExpr topLevel cs c → DerivesStmt bs b →
        DerivesStmt (.ifWord :: .leftParen :: cs ++ .rightParen :: bs)
          (.node .branch c (.node .branch b.arm .empty))
  | ifElse {cs bs os : List TokenKind} {c b o : Tree} :
      DerivesExpr topLevel cs c → DerivesStmt bs b → b.endsOpen = false → DerivesStmt os o →
        DerivesStmt (.ifWord :: .leftParen :: cs ++ .rightParen :: bs ++ .elseWord :: os)
          (.node .branch c (.node .branch b.arm o.arm))
  | whileLoop {cs bs : List TokenKind} {c b : Tree} :
      DerivesExpr topLevel cs c → DerivesStmt bs b →
        DerivesStmt (.whileWord :: .leftParen :: cs ++ .rightParen :: bs) (.node .loop c b.arm)
  | print {ks : List TokenKind} {ts : List Tree} : DerivesItems ks ts →
      DerivesStmt (.printWord :: .leftParen :: ks ++ [.rightParen, .semicolon]) (.sequence ts)
  | putc {ks : List TokenKind} {t : Tree} : DerivesExpr topLevel ks t →
      DerivesStmt (.putcWord :: .leftParen :: ks ++ [.rightParen, .semicolon])
        (.unary .printChar t)
  | block {ks : List TokenKind} {ts : List Tree} : DerivesStmts ks ts →
      DerivesStmt (.leftBrace :: ks ++ [.rightBrace]) (.sequence ts)

inductive DerivesStmts : List TokenKind → List Tree → Prop where
  | nil : DerivesStmts [] []
  | cons {ks ks' : List TokenKind} {t : Tree} {ts : List Tree} :
      DerivesStmt ks t → DerivesStmts ks' ts → DerivesStmts (ks ++ ks') (t :: ts)

end

inductive DerivesProgram : List TokenKind → Tree → Prop where
  | intro {ks : List TokenKind} {ts : List Tree} :
      DerivesStmts ks ts → DerivesProgram ks (.sequence ts)

/-- What may come behind a statement with the tree `t`: no else that it could have taken. -/
def EndsStmt (t : Tree) (rest : List TokenKind) : Prop :=
  t.endsOpen = true → rest.head? ≠ some .elseWord

theorem endsStmt_of_ne {rest : List TokenKind} (t : Tree) (h : rest.head? ≠ some .elseWord) :
    EndsStmt t rest := fun _ => h

theorem endsStmt_of_closed {t : Tree} (rest : List TokenKind) (h : t.endsOpen = false) :
    EndsStmt t rest := by
  intro hopen
  rw [h] at hopen
  cases hopen

theorem isUnary_iff {k : TokenKind} {op : UnaryOp} : IsUnary k op ↔ unaryOp? k = some op := by
  constructor
  · intro h
    cases h <;> rfl
  · intro h
    cases k <;> cases h <;> constructor

theorem isBinary_iff {level : Nat} {k : TokenKind} {op : BinaryOp} :
    IsBinary level k op ↔ binaryOp? k = some op ∧ op.level = level := by
  constructor
  · intro h
    cases h <;> exact ⟨rfl, rfl⟩
  · rintro ⟨h, rfl⟩
    cases k <;> cases h <;> constructor

theorem isBinary_iff_opOfLevel? {level : Nat} {k : TokenKind} {op : BinaryOp} :
    IsBinary level k op ↔ opOfLevel? level k = some op := by
  simp [opOfLevel?, Option.filter_eq_some_iff, isBinary_iff]

theorem leftLevel_of_ne {level : Nat} {k : TokenKind} {op : BinaryOp}
    (hop : IsBinary (level + 1) k op) (h : level + 1 ≠ 3) : op.leftLevel = level + 1 := by
  have hlevel := (isBinary_iff.1 hop).2
  have hchains : op.chains = true := by rw [BinaryOp.chains, hlevel]; simpa using h
  rw [BinaryOp.leftLevel, if_pos hchains, hlevel]

theorem leftLevel_of_comparison {k : TokenKind} {op : BinaryOp} (hop : IsBinary 3 k op) :
    op.leftLevel = 2 := by
  have hlevel := (isBinary_iff.1 hop).2
  simp [BinaryOp.leftLevel, BinaryOp.chains, hlevel]

/-- The two productions for an operator between operands differ in the level of the left one. -/
theorem DerivesExpr.binary {level : Nat} {k : TokenKind} {op : BinaryOp} {ls rs : List TokenKind}
    {l r : Tree} (hop : IsBinary (level + 1) k op) (hl : DerivesExpr op.leftLevel ls l)
    (hr : DerivesExpr level rs r) :
    DerivesExpr (level + 1) (ls ++ k :: rs) (.node (.binary op) l r) := by
  by_cases h : level + 1 = 3
  · cases h
    rw [leftLevel_of_comparison hop] at hl
    exact .comparison hop hl hr
  · rw [leftLevel_of_ne hop h] at hl
    exact .chain hop h hl hr

end Grammar
end ImpSyntax

import ImpSyntax.Proofs.Source.Spelling
import ImpSyntax.Proofs.Grammar.Derivation
import ImpSyntax.Source.OfProgram

/-!
# ImpSyntax.Proofs.Source.WellFormed

The programs that have a source text: their identifiers, integers and texts can be lexemes, and the
first arm of a conditional does not end in a conditional that could take the else for itself.
-/

namespace ImpSyntax

def Expr.isWellFormed : Expr → Bool
  | .identifier name => isIdentifier name.toList
  | .integer digits => Decimal.isNumeral digits.toList
  | .unary _ operand => operand.isWellFormed
  | .binary _ left right => left.isWellFormed && right.isWellFormed

def PrintItem.isWellFormed : PrintItem → Bool
  | .string text => isStringText text.toList
  | .expr value => value.isWellFormed

mutual

def Stmt.isWellFormed : Stmt → Bool
  | .empty => true
  | .assign name value => isIdentifier name.toList && value.isWellFormed
  | .ifThen test body => test.isWellFormed && body.isWellFormed
  | .ifElse test body other =>
    test.isWellFormed && body.isWellFormed && !body.toTree.endsOpen && other.isWellFormed
  | .whileLoop test body => test.isWellFormed && body.isWellFormed
  | .print first more => first.isWellFormed && more.all PrintItem.isWellFormed
  | .putc value => value.isWellFormed
  | .block body => Stmt.areWellFormed body

def Stmt.areWellFormed : List Stmt → Bool
  | [] => true
  | s :: body => s.isWellFormed && Stmt.areWellFormed body

end

def Program.isWellFormed (program : Program) : Bool := Stmt.areWellFormed program.body

/-! ## The tokens of a well-formed program -/

theorem isSpellable_binaryOp (op : BinaryOp) : op.kind.isSpellable = true := by
  cases op <;> rfl

theorem isSpellable_unaryOp (op : UnaryOp) : op.kind.isSpellable = true := by
  cases op <;> rfl

/-- Every token of the list has a spelling. -/
def areSpellable (ks : List TokenKind) : Bool := ks.all TokenKind.isSpellable

@[simp] theorem areSpellable_nil : areSpellable [] = true := rfl

@[simp] theorem areSpellable_cons (k : TokenKind) (ks : List TokenKind) :
    areSpellable (k :: ks) = (k.isSpellable && areSpellable ks) := rfl

@[simp] theorem areSpellable_append (ks ks' : List TokenKind) :
    areSpellable (ks ++ ks') = (areSpellable ks && areSpellable ks') := List.all_append

/-- Whatever the level, only parentheses differ. -/
theorem Expr.areSpellable_kinds {e : Expr} (h : e.isWellFormed = true) (level : Nat) :
    areSpellable (e.kinds level) = true := by
  induction e generalizing level with
  | identifier name =>
    rw [isWellFormed] at h
    simp [kinds, TokenKind.isSpellable, TokenKind.isLexical, h]
  | integer digits =>
    rw [isWellFormed] at h
    simp [kinds, TokenKind.isSpellable, TokenKind.isLexical, h]
  | unary op operand ih => simpa [kinds, isSpellable_unaryOp] using ih h 0
  | binary op left right ihl ihr =>
    simp only [isWellFormed, Bool.and_eq_true] at h
    have hleft := ihl h.1 op.leftLevel
    have hright := ihr h.2 (op.level - 1)
    have hopen : TokenKind.leftParen.isSpellable = true := rfl
    have hclose : TokenKind.rightParen.isSpellable = true := rfl
    rw [kinds]
    split <;> simp [hleft, hright, isSpellable_binaryOp, hopen, hclose]

theorem PrintItem.areSpellable_kinds {item : PrintItem} (h : item.isWellFormed = true) :
    areSpellable item.kinds = true := by
  cases item with
  | string text =>
    rw [isWellFormed] at h
    simp [kinds, TokenKind.isSpellable, TokenKind.isLexical, h]
  | expr value => exact Expr.areSpellable_kinds h topLevel

theorem areSpellable_moreItems {items : List PrintItem}
    (h : items.all PrintItem.isWellFormed = true) :
    areSpellable (items.flatMap (.comma :: ·.kinds)) = true := by
  induction items with
  | nil => rfl
  | cons item items ih =>
    simp only [List.all_cons, Bool.and_eq_true] at h
    have hitem := PrintItem.areSpellable_kinds h.1
    simp [hitem, ih h.2, TokenKind.isSpellable, TokenKind.isLexical]

theorem Expr.areSpellable_inParens {e : Expr} (h : e.isWellFormed = true) :
    areSpellable e.inParens = true := by
  have hkinds := areSpellable_kinds h topLevel
  simp [inParens, hkinds, TokenKind.isSpellable, TokenKind.isLexical]

mutual

theorem Stmt.areSpellable_kinds {s : Stmt} (h : s.isWellFormed = true) :
    areSpellable s.kinds = true := by
  cases s with
  | empty => rfl
  | assign name value =>
    simp only [isWellFormed, Bool.and_eq_true] at h
    have hvalue := Expr.areSpellable_kinds h.2 topLevel
    simp [kinds, h.1, hvalue, TokenKind.isSpellable, TokenKind.isLexical]
  | ifThen test body =>
    simp only [isWellFormed, Bool.and_eq_true] at h
    have htest := Expr.areSpellable_inParens h.1
    have hbody := Stmt.areSpellable_kinds h.2
    simp [kinds, htest, hbody, TokenKind.isSpellable, TokenKind.isLexical]
  | ifElse test body other =>
    simp only [isWellFormed, Bool.and_eq_true] at h
    obtain ⟨⟨⟨htest, hbody⟩, _⟩, hother⟩ := h
    have htest := Expr.areSpellable_inParens htest
    have hbody := Stmt.areSpellable_kinds hbody
    have hother := Stmt.areSpellable_kinds hother
    simp [kinds, htest, hbody, hother, TokenKind.isSpellable, TokenKind.isLexical]
  | whileLoop test body =>
    simp only [isWellFormed, Bool.and_eq_true] at h
    have htest := Expr.areSpellable_inParens h.1
    have hbody := Stmt.areSpellable_kinds h.2
    simp [kinds, htest, hbody, TokenKind.isSpellable, TokenKind.isLexical]
  | print first more =>
    simp only [isWellFormed, Bool.and_eq_true] at h
    have hfirst := PrintItem.areSpellable_kinds h.1
    have hmore := areSpellable_moreItems h.2
    simp [kinds, hfirst, hmore, TokenKind.isSpellable, TokenKind.isLexical]
  | putc value =>
    have hvalue := Expr.areSpellable_inParens h
    simp [kinds, hvalue, TokenKind.isSpellable, TokenKind.isLexical]
  | block body =>
    have hbody := Stmt.areSpellable_kindsOf h
    simp [kinds, hbody, TokenKind.isSpellable, TokenKind.isLexical]

theorem Stmt.areSpellable_kindsOf {body : List Stmt} (h : Stmt.areWellFormed body = true) :
    areSpellable (Stmt.kindsOf body) = true := by
  cases body with
  | nil => rfl
  | cons s body =>
    simp only [areWellFormed, Bool.and_eq_true] at h
    have hhead := Stmt.areSpellable_kinds h.1
    have htail := Stmt.areSpellable_kindsOf h.2
    simp [kindsOf, hhead, htail]

end

theorem Program.areSpellable_kinds {p : Program} (h : p.isWellFormed = true) :
    areSpellable p.kinds = true := Stmt.areSpellable_kindsOf h

end ImpSyntax

import ImpSyntax.Proofs.Grammar.Rule

/-!
# ImpSyntax.Proofs.Grammar.Failure

A failure names the token that is next where it leaves off, and none where the tokens end, from
however deep inside the rules it comes (`namesNext_program`). A rule gives up by itself or passes on
the failure of one of its parts; so the law is carried by `NamesNext.bind`, along the recursion of
the rules.
-/

namespace ImpSyntax
namespace Grammar

variable {α β : Type}

/-- If there is a failure, it names the first of the tokens that are left. -/
def NamesNext (x : Except Failure α) : Prop :=
  ∀ failure, x = .error failure → failure.found = failure.rest.head?

namespace NamesNext

theorem ok (v : α) : NamesNext (.ok v) := by
  intro failure h
  cases h

theorem unexpected (expected : Expected) (ts : List Token) :
    NamesNext (.error (unexpected expected ts) : Except Failure α) := by
  intro failure h
  cases h
  cases ts <;> rfl

theorem of_outcome {n : Nat} {x : Except Failure (Parsed α n)} {v : α} {rest : List Token}
    (h : outcome x = ⟨.ok v, rest⟩) : NamesNext x := by
  rintro failure rfl
  cases h

theorem bind {m n : Nat} {x : Except Failure (Parsed α m)}
    {k : Parsed α m → Except Failure (Parsed β n)} (hx : NamesNext x)
    (hk : ∀ v rest h, NamesNext (k ⟨v, rest, h⟩)) : NamesNext (x >>= k) := by
  cases x with
  | ok found => exact hk found.value found.rest found.short
  | error failure =>
    intro failure' h
    cases h
    exact hx failure rfl

end NamesNext

/-- So a failure is told by what was expected and the tokens that are left. -/
theorem eq_error_of_outcome {n : Nat} {x : Except Failure (Parsed α n)} (hx : NamesNext x)
    {expected : Expected} {rest : List Token} (h : outcome x = ⟨.error expected, rest⟩) :
    x = .error ⟨expected, rest.head?, rest⟩ := by
  cases x with
  | ok found => cases h
  | error failure =>
    have hfound : failure.found = failure.rest.head? := hx failure rfl
    cases h
    rw [← hfound]

theorem namesNext_expect (kind : TokenKind) (after : Place) (ts : List Token) :
    NamesNext (expect kind after ts) := by
  cases ts with
  | nil => exact .unexpected _ _
  | cons t ts =>
    rw [expect]
    split
    · exact .ok _
    · exact .unexpected _ _

/-! ## Expressions -/

theorem namesNext_operators {level : Nat} {left : Expr} {t : Token} {ts : List Token}
    {op : BinaryOp} (hop : opOfLevel? (level + 1) t.kind = some op)
    (hexpr : NamesNext (expr level ts))
    (hoperators : ∀ right rest, rest.length < ts.length →
      NamesNext (operators level (.binary op left right) rest)) :
    NamesNext (operators level left (t :: ts)) := by
  rw [operators]
  split
  · exact .ok _
  · rename_i op' hop'
    rw [hop] at hop'
    cases hop'
    refine hexpr.bind fun right rest hshort => ?_
    by_cases hchains : op.chains = true
    · simp only [hchains, if_true]
      exact (hoperators right rest hshort).bind fun _ _ _ => .ok _
    · simp only [hchains]
      exact .ok _

theorem namesNext_unary {t : Token} {ts : List Token} {op : UnaryOp}
    (hop : unaryOp? t.kind = some op) (hunary : NamesNext (unary ts)) :
    NamesNext (unary (t :: ts)) := by
  rw [unary]
  split
  · exact hunary.bind fun _ _ _ => .ok _
  · rename_i hnone
    rw [hop] at hnone
    cases hnone

theorem namesNext_expr_all :
    (∀ level ts, NamesNext (expr level ts)) ∧
      (∀ level left ts, NamesNext (operators level left ts)) ∧
      (∀ ts, NamesNext (unary ts)) ∧ ∀ ts, NamesNext (primary ts) := by
  apply expr_induction
  case zero =>
    intro ts hunary
    rw [expr]
    exact hunary
  case succ =>
    intro level ts hexpr hoperators
    rw [expr]
    exact hexpr.bind fun left rest hshort => (hoperators left rest hshort).bind fun _ _ _ => .ok _
  case stop => exact fun level left ts hstop => .of_outcome (operatorsRule_stop left hstop)
  case operator => exact fun level left t ts op hop => namesNext_operators hop
  case unary => exact fun t ts op hop => namesNext_unary hop
  case primary =>
    intro ts hop hprimary
    rw [unary_eq_primary hop]
    exact hprimary
  case identifier => exact fun name place ts => .of_outcome (primaryRule_identifier name place ts)
  case integer => exact fun digits place ts => .of_outcome (primaryRule_integer digits place ts)
  case parens =>
    intro place ts hexpr
    rw [primary]
    exact hexpr.bind fun _ rest _ =>
      (namesNext_expect .rightParen .expression rest).bind fun _ _ _ => .ok _
  case other =>
    intro ts hother
    rw [primary_eq_error hother]
    exact .unexpected _ _

theorem namesNext_topExpr (ts : List Token) : NamesNext (topExpr ts) :=
  namesNext_expr_all.1 topLevel ts

/-! ## Statements -/

theorem namesNext_condition (word inside : Place) (ts : List Token) :
    NamesNext (condition word inside ts) := by
  rw [condition]
  exact (namesNext_expect .leftParen word ts).bind fun _ rest _ =>
    (namesNext_topExpr rest).bind fun _ rest _ =>
      (namesNext_expect .rightParen inside rest).bind fun _ _ _ => .ok _

theorem namesNext_item (ts : List Token) : NamesNext (printItem ts) := by
  unfold printItem
  split
  · exact .ok _
  · exact (namesNext_topExpr _).bind fun _ _ _ => .ok _

theorem namesNext_moreItems (ts : List Token) : NamesNext (morePrintItems ts) := by
  induction ts using moreItems_induction with
  | comma place ts ih =>
    rw [morePrintItems]
    exact (namesNext_item ts).bind fun _ rest hshort => (ih rest hshort).bind fun _ _ _ => .ok _
  | stop ts hstop => exact .of_outcome (morePrintItemsRule_stop hstop)

theorem namesNext_stmt_ifWord (place : Location) {ts : List Token}
    (ih : ∀ rest, rest.length < ts.length → NamesNext (stmt rest)) :
    NamesNext (stmt (⟨.ifWord, place⟩ :: ts)) := by
  rw [stmt]
  refine (namesNext_condition _ _ ts).bind fun test rest htest =>
    (ih rest htest).bind fun body rest hbody => ?_
  cases rest with
  | nil => exact .ok _
  | cons t rest =>
    obtain ⟨kind, place⟩ := t
    cases kind
    case elseWord =>
      have hshort := Nat.lt_trans (Nat.lt_of_succ_lt hbody) htest
      exact (ih rest hshort).bind fun _ _ _ => .ok _
    all_goals exact .ok _

theorem namesNext_stmt_all :
    (∀ ts, NamesNext (stmt ts)) ∧ ∀ ts, NamesNext (stmts ts) := by
  apply stmt_induction
  case semicolon => exact fun place ts => .of_outcome (stmtRule_semicolon place ts)
  case identifier =>
    intro name place ts
    rw [stmt]
    exact (namesNext_expect .assign .identifier ts).bind fun _ rest _ =>
      (namesNext_topExpr rest).bind fun _ rest _ =>
        (namesNext_expect .semicolon .assignment rest).bind fun _ _ _ => .ok _
  case ifWord => exact fun place ts ih => namesNext_stmt_ifWord place ih
  case whileWord =>
    intro place ts ih
    rw [stmt]
    exact (namesNext_condition _ _ ts).bind fun _ rest htest =>
      (ih rest htest).bind fun _ _ _ => .ok _
  case printWord =>
    intro place ts
    rw [stmt]
    exact (namesNext_expect .leftParen .printWord ts).bind fun _ rest _ =>
      (namesNext_item rest).bind fun _ rest _ =>
        (namesNext_moreItems rest).bind fun _ rest _ =>
          (namesNext_expect .rightParen .printArguments rest).bind fun _ rest _ =>
            (namesNext_expect .semicolon .printStatement rest).bind fun _ _ _ => .ok _
  case putcWord =>
    intro place ts
    rw [stmt]
    exact (namesNext_condition _ _ ts).bind fun _ rest _ =>
      (namesNext_expect .semicolon .putcStatement rest).bind fun _ _ _ => .ok _
  case leftBrace =>
    intro place ts hstmts
    rw [stmt]
    exact hstmts.bind fun _ rest _ =>
      (namesNext_expect .rightBrace .block rest).bind fun _ _ _ => .ok _
  case other =>
    intro ts hother
    rw [stmt_eq_error hother]
    exact .unexpected _ _
  case stop => exact fun ts hstop => .of_outcome (stmtsRule_stop hstop)
  case more =>
    intro ts hmore hstmt ih
    rw [stmts]
    · exact hstmt.bind fun _ rest hshort => (ih rest hshort).bind fun _ _ _ => .ok _
    · rintro rfl; cases hmore
    · rintro place ts rfl; cases hmore

theorem namesNext_program (ts : List Token) : NamesNext (program ts) := by
  rw [program]
  refine (namesNext_stmt_all.2 ts).bind fun body rest hshort => ?_
  by_cases hrest : rest.isEmpty
  · simp only [hrest, if_true]
    exact .ok _
  · simp only [hrest]
    exact .unexpected _ _

end Grammar
end ImpSyntax

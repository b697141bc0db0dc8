import ImpSyntax.Proofs.Grammar.Expr.Completeness

/-!
# ImpSyntax.Proofs.Grammar.Stmt.Completeness

The rules for statements find every statement that the grammar derives (`takes_of_derivesStmts`).
The induction is on the derivation.

A statement that ends in a conditional without an else arm is found only if no else is next; in
front of an else the grammar has no such statement, and behind the statements of a block there is
no else.
-/

namespace ImpSyntax
namespace Grammar

/-! ## Conditions and print items -/

theorem takes_condition (word inside : Place) {ks : List TokenKind} {e : Expr}
    (h : Recovers topLevel ks e) (P : List TokenKind → Prop) :
    Takes (conditionRule word inside) P (.leftParen :: ks ++ [.rightParen]) e := by
  have hclose := h.alone.bind (fun e => (expectRule .rightParen inside).bind fun _ => Rule.pure e)
    (Takes.expect .rightParen inside (Takes.pure e P)) fun rest _ => ends_of_none _ rfl
  exact hclose.expect .leftParen word

/-- What may come behind a print item. -/
def EndsItem (rest : List TokenKind) : Prop := rest.head?.bind binaryOp? = none

theorem takes_item {ks : List TokenKind} {e : Expr} (h : Recovers topLevel ks e) :
    Takes printItemRule EndsItem ks (.expr e) := by
  obtain ⟨k, ks, rfl, hk⟩ := h.opensExpr
  intro taken rest htaken hrest
  rw [printItemRule_expr, Rule.bind_ok (h.alone taken rest htaken (ends_of_none _ hrest))]
  · rfl
  · obtain ⟨t, behind, rfl, rfl, -⟩ := List.map_eq_cons_iff.1 htaken
    intro text htext
    have hkind : t.kind = .string text := Option.some.inj htext
    rw [hkind] at hk
    cases hk

/-- What comes behind the items of a print statement. -/
def EndsItems (rest : List TokenKind) : Prop := rest.head? = some .rightParen

/-- Behind a print item there is a comma or the end of the items. -/
theorem endsItem_of_takes {ks : List TokenKind} {items : List PrintItem}
    (h : Takes morePrintItemsRule EndsItems ks items) :
    ∀ rest, EndsItems rest → EndsItem (ks ++ rest) := by
  intro rest hrest
  obtain ⟨taken, rfl⟩ := exists_kinds ks
  obtain ⟨rest, rfl⟩ := exists_kinds rest
  rw [← List.map_append]
  by_cases hcomma : (kinds (taken ++ rest)).head? = some .comma
  · rw [EndsItem, hcomma]
    rfl
  · have hstop := morePrintItemsRule_stop hcomma
    rw [h taken rest rfl hrest] at hstop
    have hrests : rest = taken ++ rest := congrArg Outcome.rest hstop
    rw [← hrests, EndsItem, hrest]
    rfl

theorem takes_moreItems_nil : Takes morePrintItemsRule EndsItems [] [] := by
  refine Takes.stop fun rest hrest => ?_
  apply morePrintItemsRule_stop
  rw [hrest]
  decide

theorem takes_moreItems_cons {ks ks' : List TokenKind} {item : PrintItem}
    {items : List PrintItem} (hitem : Takes printItemRule EndsItem ks item)
    (hitems : Takes morePrintItemsRule EndsItems ks' items) :
    Takes morePrintItemsRule EndsItems (.comma :: (ks ++ ks')) (item :: items) := by
  have hall := hitem.bind
    (fun item => morePrintItemsRule.bind fun items => Rule.pure (item :: items))
    (hitems.bind_pure (item :: ·)) (endsItem_of_takes hitems)
  exact hall.cons morePrintItemsRule_comma

theorem takes_string (text : String) (P : List TokenKind → Prop) :
    Takes printItemRule P [.string text] (.string text) :=
  (Takes.pure _ P).cons (printItemRule_string text)

theorem takes_of_derivesItem {ks : List TokenKind} {t : Tree} (h : DerivesItem ks t) :
    ∃ item : PrintItem, item.toTree = t ∧ Takes printItemRule EndsItem ks item := by
  cases h with
  | string text => exact ⟨_, rfl, takes_string text _⟩
  | expr hexpr =>
    obtain ⟨e, rfl, he⟩ := recovers_of_derives hexpr
    exact ⟨.expr e, rfl, takes_item he⟩

/-- The first item and the items behind it are found one after the other. -/
theorem takes_of_derivesItems {ks : List TokenKind} {ts : List Tree} (h : DerivesItems ks ts) :
    ∃ first more ks₁ ks₂, (first :: more).map PrintItem.toTree = ts ∧ ks = ks₁ ++ ks₂ ∧
      Takes printItemRule EndsItem ks₁ first ∧ Takes morePrintItemsRule EndsItems ks₂ more := by
  induction h with
  | @single ks _ hitem =>
    obtain ⟨item, rfl, htakes⟩ := takes_of_derivesItem hitem
    exact ⟨item, [], ks, [], rfl, (List.append_nil ks).symm, htakes, takes_moreItems_nil⟩
  | @cons ks _ _ _ hitem _ ih =>
    obtain ⟨item, rfl, htakes⟩ := takes_of_derivesItem hitem
    obtain ⟨first, more, ks₁, ks₂, rfl, rfl, hfirst, hmore⟩ := ih
    exact ⟨item, first :: more, ks, _, rfl, rfl, htakes, takes_moreItems_cons hfirst hmore⟩

/-! ## Statements -/

theorem takes_empty (P : List TokenKind → Prop) : Takes stmtRule P [.semicolon] .empty :=
  (Takes.pure _ P).cons stmtRule_semicolon

theorem takes_assign (name : String) {ks : List TokenKind} {e : Expr}
    (h : Recovers topLevel ks e) (P : List TokenKind → Prop) :
    Takes stmtRule P (.identifier name :: .assign :: ks ++ [.semicolon]) (.assign name e) := by
  have hvalue := h.alone.bind
    (fun value => (expectRule .semicolon .assignment).bind fun _ =>
      Rule.pure (Stmt.assign name value))
    (Takes.expect .semicolon .assignment (Takes.pure _ P)) fun rest _ => ends_of_none _ rfl
  exact (hvalue.expect .assign .identifier).cons (stmtRule_identifier name)

theorem takes_ifThen {cs bs : List TokenKind} {test : Expr} {body : Stmt}
    (htest : ∀ P, Takes (conditionRule .ifWord .ifCondition) P cs test)
    (hbody : Takes stmtRule (EndsStmt body.toTree) bs body) :
    Takes stmtRule (fun rest => rest.head? ≠ some .elseWord) (.ifWord :: (cs ++ bs))
      (.ifThen test body) := by
  have hstop : Takes (elseRule test body) (fun rest => rest.head? ≠ some .elseWord) []
      (.ifThen test body) := Takes.stop fun rest hrest => elseRule_stop test body hrest
  have harm := hbody.bind (elseRule test) hstop fun rest hrest => endsStmt_of_ne _ hrest
  rw [List.append_nil] at harm
  have hall := (htest fun _ => True).bind (fun test => stmtRule.bind (elseRule test)) harm
    fun _ _ => trivial
  exact hall.cons stmtRule_ifWord

theorem takes_ifElse {cs bs os : List TokenKind} {test : Expr} {body other : Stmt}
    {P : List TokenKind → Prop} (htest : ∀ P, Takes (conditionRule .ifWord .ifCondition) P cs test)
    (hbody : Takes stmtRule (EndsStmt body.toTree) bs body)
    (hclosed : body.toTree.endsOpen = false) (hother : Takes stmtRule P os other) :
    Takes stmtRule P (.ifWord :: (cs ++ (bs ++ .elseWord :: os))) (.ifElse test body other) := by
  have helse : Takes (elseRule test body) P (.elseWord :: os) (.ifElse test body other) :=
    (hother.bind_pure (Stmt.ifElse test body)).cons fun _ _ => rfl
  have harms := hbody.bind (elseRule test) helse fun rest _ => endsStmt_of_closed _ hclosed
  have hall := (htest fun _ => True).bind (fun test => stmtRule.bind (elseRule test)) harms
    fun _ _ => trivial
  exact hall.cons stmtRule_ifWord

theorem takes_whileLoop {cs bs : List TokenKind} {test : Expr} {body : Stmt}
    {P : List TokenKind → Prop}
    (htest : ∀ P, Takes (conditionRule .whileWord .whileCondition) P cs test)
    (hbody : Takes stmtRule P bs body) :
    Takes stmtRule P (.whileWord :: (cs ++ bs)) (.whileLoop test body) := by
  have hall := (htest fun _ => True).bind
    (fun test => stmtRule.bind fun body => Rule.pure (Stmt.whileLoop test body))
    (hbody.bind_pure (Stmt.whileLoop test)) fun _ _ => trivial
  exact hall.cons stmtRule_whileWord

theorem takes_print {ks ks' : List TokenKind} {first : PrintItem} {more : List PrintItem}
    (hfirst : Takes printItemRule EndsItem ks first)
    (hmore : Takes morePrintItemsRule EndsItems ks' more) (P : List TokenKind → Prop) :
    Takes stmtRule P (.printWord :: .leftParen :: (ks ++ (ks' ++ [.rightParen, .semicolon])))
      (.print first more) := by
  have hclose := (Takes.expect .semicolon .printStatement
    (Takes.pure (Stmt.print first more) P)).expect .rightParen .printArguments
  have hmores := hmore.bind (fun more => (expectRule .rightParen .printArguments).bind fun _ =>
    (expectRule .semicolon .printStatement).bind fun _ => Rule.pure (Stmt.print first more))
    hclose fun rest _ => rfl
  have hall := hfirst.bind (fun first => morePrintItemsRule.bind fun more =>
    (expectRule .rightParen .printArguments).bind fun _ =>
      (expectRule .semicolon .printStatement).bind fun _ => Rule.pure (Stmt.print first more))
    hmores fun rest _ => by rw [List.append_assoc]; exact endsItem_of_takes hmore _ rfl
  exact (hall.expect .leftParen .printWord).cons stmtRule_printWord

theorem takes_putc {ks : List TokenKind} {e : Expr}
    (h : ∀ P, Takes (conditionRule .putcWord .putcArgument) P ks e) (P : List TokenKind → Prop) :
    Takes stmtRule P (.putcWord :: (ks ++ [.semicolon])) (.putc e) := by
  have hall := (h fun _ => True).bind
    (fun value => (expectRule .semicolon .putcStatement).bind fun _ => Rule.pure (Stmt.putc value))
    (Takes.expect .semicolon .putcStatement (Takes.pure (Stmt.putc e) P)) fun _ _ => trivial
  exact hall.cons stmtRule_putcWord

/-- What comes behind a list of statements. -/
def EndsStmts (rest : List TokenKind) : Prop := closesStmts rest = true

theorem takes_block {ks : List TokenKind} {body : List Stmt} (h : Takes stmtsRule EndsStmts ks body)
    (P : List TokenKind → Prop) :
    Takes stmtRule P (.leftBrace :: (ks ++ [.rightBrace])) (.block body) := by
  have hall := h.bind
    (fun body => (expectRule .rightBrace .block).bind fun _ => Rule.pure (Stmt.block body))
    (Takes.expect .rightBrace .block (Takes.pure _ P)) fun rest _ => rfl
  exact hall.cons stmtRule_leftBrace

theorem takes_stmts_nil : Takes stmtsRule EndsStmts [] [] :=
  Takes.stop fun _ hrest => stmtsRule_stop hrest

/-- A list of statements does not start with an else, and neither does what comes behind it. -/
theorem ne_else_of_takes {ks : List TokenKind} {body : List Stmt}
    (h : Takes stmtsRule EndsStmts ks body) :
    ∀ rest, EndsStmts rest → (ks ++ rest).head? ≠ some .elseWord := by
  intro rest hrest helse
  obtain ⟨taken, rfl⟩ := exists_kinds ks
  obtain ⟨rest, rfl⟩ := exists_kinds rest
  rw [← List.map_append] at helse
  have hall := h taken rest rfl hrest
  have hopen : closesStmts (kinds (taken ++ rest)) = false := by
    rw [closesStmts, helse]
    rfl
  have hfail : (kinds (taken ++ rest)).head?.any opensStmt = false := by
    rw [helse]
    rfl
  rw [stmtsRule_cons hopen, Rule.bind_error (stmtRule_fail hfail)] at hall
  cases hall

theorem opensStmt_of_takes {t : Tree} {ks : List TokenKind} {s : Stmt}
    (h : Takes stmtRule (EndsStmt t) ks s) : ∃ k rest, ks = k :: rest ∧ opensStmt k = true := by
  obtain ⟨ts, rfl⟩ := exists_kinds ks
  have hall := h ts [] rfl (endsStmt_of_ne t (by simp))
  rw [List.append_nil] at hall
  cases hopens : (kinds ts).head?.any opensStmt with
  | false =>
    rw [stmtRule_fail hopens] at hall
    cases hall
  | true =>
    cases ts with
    | nil => cases hopens
    | cons t rest => exact ⟨t.kind, kinds rest, rfl, hopens⟩

theorem takes_stmts_cons {ks ks' : List TokenKind} {head : Stmt} {tail : List Stmt}
    (hhead : Takes stmtRule (EndsStmt head.toTree) ks head)
    (htail : Takes stmtsRule EndsStmts ks' tail) :
    Takes stmtsRule EndsStmts (ks ++ ks') (head :: tail) := by
  have hall := hhead.bind (fun head => stmtsRule.bind fun tail => Rule.pure (head :: tail))
    (htail.bind_pure (head :: ·)) fun rest hrest =>
      endsStmt_of_ne _ (ne_else_of_takes htail rest hrest)
  obtain ⟨k, ks, rfl, hk⟩ := opensStmt_of_takes hhead
  intro taken rest htaken hrest
  rw [stmtsRule_cons, hall taken rest htaken hrest]
  obtain ⟨t, behind, rfl, rfl, -⟩ := List.map_eq_cons_iff.1 htaken
  apply beq_eq_false_iff_ne.2
  intro hbrace
  have hkind : t.kind = .rightBrace := hbrace
  rw [hkind] at hk
  cases hk

mutual

theorem takes_of_derivesStmt {ks : List TokenKind} {t : Tree} (h : DerivesStmt ks t) :
    ∃ s : Stmt, s.toTree = t ∧ Takes stmtRule (EndsStmt t) ks s := by
  match h with
  | .empty => exact ⟨.empty, rfl, takes_empty _⟩
  | .assign name hvalue =>
    obtain ⟨e, rfl, he⟩ := recovers_of_derives hvalue
    exact ⟨.assign name e, rfl, takes_assign name he _⟩
  | .ifThen htest hbody =>
    obtain ⟨test, rfl, htests⟩ := recovers_of_derives htest
    obtain ⟨body, rfl, hbodies⟩ := takes_of_derivesStmt hbody
    have htakes := takes_ifThen (takes_condition _ _ htests) hbodies
    refine ⟨.ifThen test body, rfl, fun taken rest htaken hrest => ?_⟩
    exact htakes taken rest (by simpa using htaken) (hrest rfl)
  | .ifElse htest hbody hclosed hother =>
    obtain ⟨test, rfl, htests⟩ := recovers_of_derives htest
    obtain ⟨body, rfl, hbodies⟩ := takes_of_derivesStmt hbody
    obtain ⟨other, rfl, hothers⟩ := takes_of_derivesStmt hother
    have htakes := takes_ifElse (takes_condition _ _ htests) hbodies hclosed hothers
    refine ⟨.ifElse test body other, rfl, fun taken rest htaken hrest => ?_⟩
    exact htakes taken rest (by simpa using htaken) hrest
  | .whileLoop htest hbody =>
    obtain ⟨test, rfl, htests⟩ := recovers_of_derives htest
    obtain ⟨body, rfl, hbodies⟩ := takes_of_derivesStmt hbody
    have htakes := takes_whileLoop (takes_condition _ _ htests) hbodies
    refine ⟨.whileLoop test body, rfl, fun taken rest htaken hrest => ?_⟩
    exact htakes taken rest (by simpa using htaken) hrest
  | .print hitems =>
    obtain ⟨first, more, ks₁, ks₂, rfl, rfl, hfirst, hmore⟩ := takes_of_derivesItems hitems
    refine ⟨.print first more, rfl, ?_⟩
    simpa using takes_print hfirst hmore _
  | .putc hvalue =>
    obtain ⟨e, rfl, he⟩ := recovers_of_derives hvalue
    refine ⟨.putc e, rfl, ?_⟩
    simpa using takes_putc (takes_condition _ _ he) _
  | .block hbody =>
    obtain ⟨body, rfl, hbodies⟩ := takes_of_derivesStmts hbody
    exact ⟨.block body, rfl, takes_block hbodies _⟩

theorem takes_of_derivesStmts {ks : List TokenKind} {ts : List Tree} (h : DerivesStmts ks ts) :
    ∃ body : List Stmt, Stmt.toTrees body = ts ∧ Takes stmtsRule EndsStmts ks body := by
  match h with
  | .nil => exact ⟨[], rfl, takes_stmts_nil⟩
  | .cons hhead htail =>
    obtain ⟨head, rfl, hheads⟩ := takes_of_derivesStmt hhead
    obtain ⟨tail, rfl, htails⟩ := takes_of_derivesStmts htail
    exact ⟨head :: tail, rfl, takes_stmts_cons hheads htails⟩

end

end Grammar
end ImpSyntax

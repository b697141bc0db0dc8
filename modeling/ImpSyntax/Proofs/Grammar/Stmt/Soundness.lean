import ImpSyntax.Proofs.Grammar.Expr.Soundness

/-!
# ImpSyntax.Proofs.Grammar.Stmt.Soundness

The rules for statements read what the grammar derives.

* `reads_condition`, `reads_items` — the parts of statements that are no statements.
* `not_else_of_endsOpen`           — a statement that ends in a conditional without an else arm is
  never found in front of an else.
* `reads_stmt_all`, `reads_stmts`  — statements and lists of statements.
-/

namespace ImpSyntax
namespace Grammar

open Phrase (done after seq inhabited_done)

/-! ## Conditions and print items -/

def conditionPhrase : Phrase Expr := fun ks c =>
  ∃ cs, ks = .leftParen :: cs ++ [.rightParen] ∧ DerivesExpr topLevel cs c.toTree

theorem reads_condition (word inside : Place) (ts : List Token) :
    Reads conditionPhrase (conditionRule word inside) ts := by
  have hclosed := fun c : Expr => (inhabited_done c).after .rightParen
  have hinside : ∀ rest, Reads (seq (exprPhrase topLevel) fun c => after .rightParen (done c))
      ((exprRule topLevel).bind fun c => (expectRule .rightParen inside).bind fun _ => Rule.pure c)
      rest :=
    fun rest => (reads_expr topLevel rest).bind hclosed fun c _ =>
      Reads.expect_pure .rightParen inside c _
  have hparens := Reads.expect_bind .leftParen word
    ((inhabited_exprPhrase topLevel).seq hclosed) hinside ts
  refine hparens.mono ?_
  rintro _ _ ⟨_, rfl, cs, c, _, rfl, hc, _, rfl, rfl, rfl⟩
  exact ⟨cs, rfl, hc⟩

def itemPhrase : Phrase PrintItem := fun ks item => DerivesItem ks item.toTree

theorem inhabited_itemPhrase : itemPhrase.Inhabited := ⟨_, .string "", .string ""⟩

theorem reads_item (ts : List Token) : Reads itemPhrase printItemRule ts := by
  by_cases hstring : ∃ text, (kinds ts).head? = some (.string text)
  · obtain ⟨text, htext⟩ := hstring
    obtain ⟨place, rest, rfl⟩ := exists_of_head?_kinds htext
    have hread := (Reads.pure (PrintItem.string text) rest).cons (printItemRule_string text) place
    refine hread.mono fun _ _ h => ?_
    obtain ⟨_, rfl, rfl, rfl⟩ := h
    exact .string text
  · have hexpr := (reads_expr topLevel ts).bind (fun value => inhabited_done (PrintItem.expr value))
      fun value _ => Reads.pure _ _
    refine (hexpr.congr fun rest hrest => printItemRule_expr ?_).mono ?_
    · intro text htext
      exact hstring ⟨text, hrest ▸ htext⟩
    · rintro _ _ ⟨ks, value, _, rfl, hvalue, rfl, rfl⟩
      rw [List.append_nil]
      exact .expr hvalue

/-- The items behind a first one. -/
def moreItemsPhrase : Phrase (List PrintItem) := fun ks items =>
  ∀ ls first, itemPhrase ls first →
    DerivesItems (ls ++ ks) ((first :: items).map PrintItem.toTree)

theorem moreItemsPhrase_done {ks : List TokenKind} {items : List PrintItem}
    (h : done [] ks items) : moreItemsPhrase ks items := by
  obtain ⟨rfl, rfl⟩ := h
  intro ls first hfirst
  rw [List.append_nil]
  exact .single hfirst

theorem inhabited_moreItemsPhrase : moreItemsPhrase.Inhabited :=
  ⟨[], [], moreItemsPhrase_done ⟨rfl, rfl⟩⟩

theorem reads_moreItems (ts : List Token) : Reads moreItemsPhrase morePrintItemsRule ts := by
  induction ts using moreItems_induction with
  | comma place ts ih =>
    have hmore : ∀ item rest, rest.length < ts.length →
        Reads (seq moreItemsPhrase fun items => done (item :: items))
          (morePrintItemsRule.bind fun items => Rule.pure (item :: items)) rest :=
      fun item rest hrest => (ih rest hrest).bind (fun items => inhabited_done (item :: items))
        fun items _ => Reads.pure _ _
    have hitem := (reads_item ts).bind
      (fun item => ⟨[], [item], [], [], [], rfl, moreItemsPhrase_done ⟨rfl, rfl⟩, rfl, rfl⟩)
      fun item h => hmore item _ (outcome_length h)
    refine (hitem.cons morePrintItemsRule_comma place).mono fun _ _ h => ?_
    obtain ⟨_, rfl, ks, item, _, rfl, hitem, ks', items, _, rfl, hitems, rfl, rfl⟩ := h
    intro ls first hfirst
    rw [List.append_nil]
    exact .cons hfirst (hitems ks item hitem)
  | stop ts hstop =>
    have hdone : Reads (done []) morePrintItemsRule ts :=
      Reads.stop fun rest hrest => morePrintItemsRule_stop (hrest ▸ hstop)
    exact hdone.mono fun _ _ => moreItemsPhrase_done

/-! ## Conditionals in front of an else -/

/-- The tokens behind a statement do not go on with an else that it could have taken. -/
abbrev TakesElse : Stmt → List TokenKind → Prop := fun s => EndsStmt s.toTree

theorem ensures_elseRule {test : Expr} {body : Stmt} {ts : List Token}
    (h : ∀ t rest, ts = t :: rest → Ensures TakesElse stmtRule rest) :
    Ensures TakesElse (elseRule test body) ts := by
  by_cases helse : (kinds ts).head? = some .elseWord
  · obtain ⟨place, rest, rfl⟩ := exists_of_head?_kinds helse
    have hother : Ensures TakesElse
        (stmtRule.bind fun other => Rule.pure (.ifElse test body other)) rest :=
      Ensures.bind fun other hother => Ensures.pure (h _ rest rfl other hother)
    exact hother.cons rfl
  · exact Ensures.of_eq (elseRule_stop test body helse) fun _ => helse

theorem not_else_of_endsOpen (ts : List Token) : Ensures TakesElse stmtRule ts := by
  revert ts
  refine (stmt_induction (Q := fun _ => True) ?semicolon ?identifier ?ifWord ?whileWord ?printWord
    ?putcWord ?leftBrace ?other (fun _ _ => trivial) (fun _ _ _ _ => trivial)).1
  case semicolon =>
    exact fun place ts => .of_eq (stmtRule_semicolon place ts) (endsStmt_of_closed _ rfl)
  case identifier =>
    intro name place ts
    refine Ensures.cons ?_ (stmtRule_identifier name place ts)
    exact .bind fun _ _ => .bind fun value _ => .bind fun _ _ => .pure (endsStmt_of_closed _ rfl)
  case ifWord =>
    intro place ts ih
    refine Ensures.cons ?_ (stmtRule_ifWord place ts)
    refine .bind fun test htest => .bind fun body hbody => ensures_elseRule fun t rest hrest => ?_
    have htest := conditionRule_length htest
    have hbody := stmtRule_length_else hbody hrest
    exact ih rest (by omega)
  case whileWord =>
    intro place ts ih
    refine Ensures.cons ?_ (stmtRule_whileWord place ts)
    exact .bind fun test htest => .bind fun body hbody =>
      .pure (ih _ (conditionRule_length htest) body hbody)
  case printWord =>
    intro place ts
    refine Ensures.cons ?_ (stmtRule_printWord place ts)
    exact .bind fun _ _ => .bind fun first _ => .bind fun more _ => .bind fun _ _ =>
      .bind fun _ _ => .pure (endsStmt_of_closed _ rfl)
  case putcWord =>
    intro place ts
    refine Ensures.cons ?_ (stmtRule_putcWord place ts)
    exact .bind fun value _ => .bind fun _ _ => .pure (endsStmt_of_closed _ rfl)
  case leftBrace =>
    intro place ts _
    refine Ensures.cons ?_ (stmtRule_leftBrace place ts)
    exact .bind fun body _ => .bind fun _ _ => .pure (endsStmt_of_closed _ rfl)
  case other =>
    intro ts hts s hs
    rw [stmtRule_fail hts] at hs
    cases hs

/-! ## Statements -/

def stmtPhrase : Phrase Stmt := fun ks s => DerivesStmt ks s.toTree

def stmtsPhrase : Phrase (List Stmt) := fun ks body => DerivesStmts ks (Stmt.toTrees body)

theorem inhabited_stmtPhrase : stmtPhrase.Inhabited := ⟨_, .empty, .empty⟩

theorem inhabited_stmtsPhrase : stmtsPhrase.Inhabited := ⟨_, [], .nil⟩

theorem reads_stmt_identifier (name : String) (place : Location) (ts : List Token) :
    Reads stmtPhrase stmtRule (⟨.identifier name, place⟩ :: ts) := by
  have hclosed := fun value => (inhabited_done (Stmt.assign name value)).after .semicolon
  have hvalue : ∀ rest,
      Reads
        (seq (exprPhrase topLevel) fun value => after .semicolon (done (Stmt.assign name value)))
        ((exprRule topLevel).bind fun value => (expectRule .semicolon .assignment).bind fun _ =>
          Rule.pure (Stmt.assign name value)) rest :=
    fun rest => (reads_expr topLevel rest).bind hclosed fun value _ =>
      Reads.expect_pure .semicolon .assignment _ _
  have hassign := Reads.expect_bind .assign .identifier
    ((inhabited_exprPhrase topLevel).seq hclosed) hvalue ts
  refine (hassign.cons (stmtRule_identifier name) place).mono fun _ _ h => ?_
  obtain ⟨_, rfl, _, rfl, ks, value, _, rfl, hvalue, _, rfl, rfl, rfl⟩ := h
  exact .assign name hvalue

/-- What may stand behind the first arm of a conditional, with the value of the whole. -/
def elsePhrase (test : Expr) (body : Stmt) : Phrase Stmt := fun ks s =>
  done (.ifThen test body) ks s ∨ body.toTree.endsOpen = false ∧
    after .elseWord (seq stmtPhrase fun other => done (.ifElse test body other)) ks s

theorem inhabited_elsePhrase (test : Expr) (body : Stmt) : (elsePhrase test body).Inhabited :=
  ⟨_, _, .inl ⟨rfl, rfl⟩⟩

theorem reads_else {test : Expr} {body : Stmt} {ts : List Token}
    (hbody : TakesElse body (kinds ts))
    (hother : ∀ t rest, ts = t :: rest → Reads stmtPhrase stmtRule rest) :
    Reads (elsePhrase test body) (elseRule test body) ts := by
  by_cases helse : (kinds ts).head? = some .elseWord
  · obtain ⟨place, rest, rfl⟩ := exists_of_head?_kinds helse
    have hclosed : body.toTree.endsOpen = false := by
      rw [← Bool.not_eq_true]
      exact fun hopen => hbody hopen rfl
    have hbind := (hother _ rest rfl).bind
      (fun other => inhabited_done (Stmt.ifElse test body other)) fun other _ => Reads.pure _ _
    have helse : Reads
        (after .elseWord (seq stmtPhrase fun other => done (.ifElse test body other)))
        (elseRule test body) (⟨.elseWord, place⟩ :: rest) := hbind.cons (fun _ _ => rfl) place
    exact helse.mono fun _ _ h => .inr ⟨hclosed, h⟩
  · have hstop : Reads (done (.ifThen test body)) (elseRule test body) ts :=
      Reads.stop fun rest hrest => elseRule_stop test body (hrest ▸ helse)
    exact hstop.mono fun _ _ h => .inl h

theorem reads_stmt_ifWord (place : Location) {ts : List Token}
    (ih : ∀ rest, rest.length < ts.length → Reads stmtPhrase stmtRule rest) :
    Reads stmtPhrase stmtRule (⟨.ifWord, place⟩ :: ts) := by
  have harms : ∀ test rest, rest.length < ts.length →
      Reads (seq stmtPhrase fun body => elsePhrase test body)
        (stmtRule.bind fun body => elseRule test body) rest := by
    intro test rest hrest
    refine (ih rest hrest).bind (inhabited_elsePhrase test) fun body hbody => ?_
    refine reads_else (not_else_of_endsOpen rest body hbody) fun t behind hbehind => ih behind ?_
    have hshort := stmtRule_length_else hbody hbehind
    omega
  have harmed := fun test => inhabited_stmtPhrase.seq (inhabited_elsePhrase test)
  have hbind := (reads_condition .ifWord .ifCondition ts).bind harmed fun test htest =>
    harms test _ (conditionRule_length htest)
  refine (hbind.cons stmtRule_ifWord place).mono fun _ _ h => ?_
  obtain ⟨_, rfl, _, test, _, rfl, ⟨cs, rfl, htest⟩, bs, body, _, rfl, hbody, helse⟩ := h
  rcases helse with ⟨rfl, rfl⟩ | ⟨hclosed, _, rfl, os, other, _, rfl, hother, rfl, rfl⟩
  · have hderives := DerivesStmt.ifThen htest hbody
    simpa [stmtPhrase, Stmt.toTree] using hderives
  · have hderives := DerivesStmt.ifElse htest hbody hclosed hother
    simpa [stmtPhrase, Stmt.toTree] using hderives

theorem reads_stmt_whileWord (place : Location) {ts : List Token}
    (ih : ∀ rest, rest.length < ts.length → Reads stmtPhrase stmtRule rest) :
    Reads stmtPhrase stmtRule (⟨.whileWord, place⟩ :: ts) := by
  have hdone := fun test body => inhabited_done (Stmt.whileLoop test body)
  have hbody : ∀ test rest, rest.length < ts.length →
      Reads (seq stmtPhrase fun body => done (Stmt.whileLoop test body))
        (stmtRule.bind fun body => Rule.pure (Stmt.whileLoop test body)) rest :=
    fun test rest hrest => (ih rest hrest).bind (hdone test) fun body _ => Reads.pure _ _
  have hbind := (reads_condition .whileWord .whileCondition ts).bind
    (fun test => inhabited_stmtPhrase.seq (hdone test)) fun test htest =>
      hbody test _ (conditionRule_length htest)
  refine (hbind.cons stmtRule_whileWord place).mono fun _ _ h => ?_
  obtain ⟨_, rfl, _, test, _, rfl, ⟨cs, rfl, htest⟩, bs, body, _, rfl, hbody, rfl, rfl⟩ := h
  have hderives := DerivesStmt.whileLoop htest hbody
  simpa [stmtPhrase, Stmt.toTree] using hderives

theorem reads_stmt_printWord (place : Location) (ts : List Token) :
    Reads stmtPhrase stmtRule (⟨.printWord, place⟩ :: ts) := by
  have hclosed := fun first more =>
    ((inhabited_done (Stmt.print first more)).after .semicolon).after .rightParen
  have hclose : ∀ first more rest,
      Reads (after .rightParen (after .semicolon (done (Stmt.print first more))))
        ((expectRule .rightParen .printArguments).bind fun _ =>
          (expectRule .semicolon .printStatement).bind fun _ => Rule.pure (Stmt.print first more))
        rest :=
    fun first more => Reads.expect_bind .rightParen .printArguments
      ((inhabited_done _).after .semicolon) (Reads.expect_pure .semicolon .printStatement _)
  have hmore := fun first rest =>
    (reads_moreItems rest).bind (hclosed first) fun more _ => hclose first more _
  have hmores := fun first => inhabited_moreItemsPhrase.seq (hclosed first)
  have hfirst := fun rest => (reads_item rest).bind hmores fun first _ => hmore first _
  have hopen := Reads.expect_bind .leftParen .printWord (inhabited_itemPhrase.seq hmores) hfirst ts
  refine (hopen.cons stmtRule_printWord place).mono fun _ _ h => ?_
  obtain ⟨_, rfl, _, rfl, ks, first, _, rfl, hfirst, ks', more, _, rfl, hmore, hclose⟩ := h
  obtain ⟨_, rfl, _, rfl, rfl, rfl⟩ := hclose
  have hderives := DerivesStmt.print (hmore ks first hfirst)
  simpa [stmtPhrase, Stmt.toTree] using hderives

theorem reads_stmt_putcWord (place : Location) (ts : List Token) :
    Reads stmtPhrase stmtRule (⟨.putcWord, place⟩ :: ts) := by
  have hbind := (reads_condition .putcWord .putcArgument ts).bind
    (fun value => (inhabited_done (Stmt.putc value)).after .semicolon) fun value _ =>
      Reads.expect_pure .semicolon .putcStatement _ _
  refine (hbind.cons stmtRule_putcWord place).mono fun _ _ h => ?_
  obtain ⟨_, rfl, _, value, _, rfl, ⟨ks, rfl, hvalue⟩, _, rfl, rfl, rfl⟩ := h
  have hderives := DerivesStmt.putc hvalue
  simpa [stmtPhrase, Stmt.toTree] using hderives

theorem reads_stmt_leftBrace (place : Location) {ts : List Token}
    (hstmts : Reads stmtsPhrase stmtsRule ts) :
    Reads stmtPhrase stmtRule (⟨.leftBrace, place⟩ :: ts) := by
  have hbind := hstmts.bind (fun body => (inhabited_done (Stmt.block body)).after .rightBrace)
    fun body _ => Reads.expect_pure .rightBrace .block _ _
  refine (hbind.cons stmtRule_leftBrace place).mono fun _ _ h => ?_
  obtain ⟨_, rfl, ks, body, _, rfl, hbody, _, rfl, rfl, rfl⟩ := h
  exact .block hbody

theorem reads_stmts_stop {ts : List Token} (h : closesStmts (kinds ts) = true) :
    Reads stmtsPhrase stmtsRule ts := by
  have hstop : Reads (done []) stmtsRule ts := Reads.stop fun rest hrest => by
    apply stmtsRule_stop
    rw [closesStmts, hrest]
    exact h
  refine hstop.mono ?_
  rintro _ _ ⟨rfl, rfl⟩
  exact .nil

theorem reads_stmts_cons {ts : List Token} (h : closesStmts (kinds ts) = false)
    (hstmt : Reads stmtPhrase stmtRule ts)
    (ih : ∀ rest, rest.length < ts.length → Reads stmtsPhrase stmtsRule rest) :
    Reads stmtsPhrase stmtsRule ts := by
  have htail : ∀ head rest, rest.length < ts.length →
      Reads (seq stmtsPhrase fun tail => done (head :: tail))
        (stmtsRule.bind fun tail => Rule.pure (head :: tail)) rest :=
    fun head rest hrest => (ih rest hrest).bind (fun tail => inhabited_done (head :: tail))
      fun tail _ => Reads.pure _ _
  have hbind := hstmt.bind
    (fun head => inhabited_stmtsPhrase.seq fun tail => inhabited_done (head :: tail))
    fun head hhead => htail head _ (outcome_length hhead)
  refine (hbind.congr fun rest hrest => stmtsRule_cons ?_).mono ?_
  · rw [closesStmts, hrest]
    exact h
  · rintro _ _ ⟨ks, head, _, rfl, hhead, ks', tail, _, rfl, htail, rfl, rfl⟩
    rw [List.append_nil]
    exact .cons hhead htail

theorem reads_stmt_all :
    (∀ ts, Reads stmtPhrase stmtRule ts) ∧ ∀ ts, Reads stmtsPhrase stmtsRule ts := by
  apply stmt_induction
  case semicolon =>
    intro place ts
    refine ((Reads.pure Stmt.empty ts).cons stmtRule_semicolon place).mono fun _ _ h => ?_
    obtain ⟨_, rfl, rfl, rfl⟩ := h
    exact .empty
  case identifier => exact reads_stmt_identifier
  case ifWord => exact fun place ts ih => reads_stmt_ifWord place ih
  case whileWord => exact fun place ts ih => reads_stmt_whileWord place ih
  case printWord => exact reads_stmt_printWord
  case putcWord => exact reads_stmt_putcWord
  case leftBrace => exact fun place ts hstmts => reads_stmt_leftBrace place hstmts
  case other =>
    exact fun ts hts => Reads.fail inhabited_stmtPhrase fun _ hrest => stmtRule_fail (hrest ▸ hts)
  case stop => exact fun ts hts => reads_stmts_stop hts
  case more => exact fun ts hts hstmt ih => reads_stmts_cons hts hstmt ih

theorem reads_stmts (ts : List Token) : Reads stmtsPhrase stmtsRule ts := reads_stmt_all.2 ts

end Grammar
end ImpSyntax

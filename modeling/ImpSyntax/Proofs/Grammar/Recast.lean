import ImpSyntax.Proofs.Grammar.Rule

/-!
# ImpSyntax.Proofs.Grammar.Recast

What the rules do not look at. Tokens are recast by putting other texts into those that carry one,
by making both kinds of minus one, and by taking them all to one place; a rule does the same on
recast tokens as on the tokens themselves, and finds the same value with the other texts in it
(`mirrors_expr`, `mirrors_stmts`).
-/

namespace ImpSyntax

/-! ## Other texts -/

/-- The kind with its text replaced, and with subtraction for every minus. -/
def TokenKind.recast (f : String → String) : TokenKind → TokenKind
  | .identifier name => .identifier (f name)
  | .integer digits => .integer (f digits)
  | .string text => .string (f text)
  | .negate => .subtract
  | k => k

/-- The token of the recast kind, at the start. -/
def Token.recast (f : String → String) (t : Token) : Token := ⟨t.kind.recast f, .start⟩

def Expr.mapText (f : String → String) : Expr → Expr
  | .identifier name => .identifier (f name)
  | .integer digits => .integer (f digits)
  | .unary op operand => .unary op (operand.mapText f)
  | .binary op left right => .binary op (left.mapText f) (right.mapText f)

def PrintItem.mapText (f : String → String) : PrintItem → PrintItem
  | .string text => .string (f text)
  | .expr value => .expr (value.mapText f)

mutual

def Stmt.mapText (f : String → String) : Stmt → Stmt
  | .empty => .empty
  | .assign name value => .assign (f name) (value.mapText f)
  | .ifThen test body => .ifThen (test.mapText f) (body.mapText f)
  | .ifElse test body other => .ifElse (test.mapText f) (body.mapText f) (other.mapText f)
  | .whileLoop test body => .whileLoop (test.mapText f) (body.mapText f)
  | .print first more => .print (first.mapText f) (more.map (PrintItem.mapText f))
  | .putc value => .putc (value.mapText f)
  | .block body => .block (Stmt.mapTexts f body)

def Stmt.mapTexts (f : String → String) : List Stmt → List Stmt
  | [] => []
  | s :: body => s.mapText f :: Stmt.mapTexts f body

end

def Program.mapText (f : String → String) (p : Program) : Program := ⟨Stmt.mapTexts f p.body⟩

theorem Expr.mapText_id (e : Expr) : e.mapText id = e := by
  induction e with
  | identifier name => rfl
  | integer digits => rfl
  | unary op operand ih => rw [mapText, ih]
  | binary op left right ihl ihr => rw [mapText, ihl, ihr]

theorem PrintItem.mapText_id (item : PrintItem) : item.mapText id = item := by
  cases item with
  | string text => rfl
  | expr value => rw [mapText, Expr.mapText_id]

mutual

theorem Stmt.mapText_id (s : Stmt) : s.mapText id = s := by
  cases s with
  | empty => rfl
  | assign name value => rw [mapText, Expr.mapText_id, id]
  | ifThen test body => rw [mapText, Expr.mapText_id, Stmt.mapText_id body]
  | ifElse test body other =>
    rw [mapText, Expr.mapText_id, Stmt.mapText_id body, Stmt.mapText_id other]
  | whileLoop test body => rw [mapText, Expr.mapText_id, Stmt.mapText_id body]
  | print first more =>
    have hmore : more.map (PrintItem.mapText id) = more := by
      rw [funext PrintItem.mapText_id]
      exact List.map_id more
    rw [mapText, PrintItem.mapText_id, hmore]
  | putc value => rw [mapText, Expr.mapText_id]
  | block body => rw [mapText, Stmt.mapTexts_id body]

theorem Stmt.mapTexts_id (body : List Stmt) : Stmt.mapTexts id body = body := by
  cases body with
  | nil => rfl
  | cons s body => rw [mapTexts, Stmt.mapText_id s, Stmt.mapTexts_id body]

end

theorem Program.mapText_id (p : Program) : p.mapText id = p := by
  rw [mapText, Stmt.mapTexts_id]

namespace Grammar

variable {α β : Type} {f : String → String} {m : α → α} {n : β → β}

theorem binaryOp?_recast (f : String → String) (k : TokenKind) :
    binaryOp? (k.recast f) = binaryOp? k := by
  cases k <;> rfl

theorem opOfLevel?_recast (f : String → String) (level : Nat) (k : TokenKind) :
    opOfLevel? level (k.recast f) = opOfLevel? level k := by
  rw [opOfLevel?, binaryOp?_recast, opOfLevel?]

theorem unaryOp?_recast (f : String → String) (k : TokenKind) :
    unaryOp? (k.recast f) = unaryOp? k := by
  cases k <;> rfl

/-- The kinds that recasting neither changes nor makes. -/
def isMark : TokenKind → Bool
  | .identifier _ | .integer _ | .string _ | .negate | .subtract => false
  | _ => true

theorem recast_eq_iff {kind : TokenKind} (f : String → String) (h : isMark kind = true)
    (k : TokenKind) : k.recast f = kind ↔ k = kind := by
  cases kind <;> cases h <;> cases k <;> simp [TokenKind.recast]

theorem head?_recast_eq_iff {kind : TokenKind} (f : String → String) (h : isMark kind = true)
    (ts : List Token) :
    (kinds (ts.map (Token.recast f))).head? = some kind ↔ (kinds ts).head? = some kind := by
  cases ts with
  | nil => simp
  | cons t ts => simp [Token.recast, recast_eq_iff f h]

/-! ## Rules on recast tokens -/

/-- The rule `r'` does on the recast tokens what `r` does on the tokens. -/
def Mirrors (f : String → String) (m : α → α) (r r' : Rule α) (ts : List Token) : Prop :=
  r' (ts.map (Token.recast f)) =
    ⟨(r ts).result.map m, (r ts).rest.map (Token.recast f)⟩

namespace Mirrors

theorem ok {r r' : Rule α} {ts rest : List Token} {v : α} (h : r ts = ⟨.ok v, rest⟩)
    (h' : r' (ts.map (Token.recast f)) = ⟨.ok (m v), rest.map (Token.recast f)⟩) :
    Mirrors f m r r' ts := by
  rw [Mirrors, h, h']
  rfl

theorem error {r r' : Rule α} {ts rest : List Token} {expected : Expected}
    (h : r ts = ⟨.error expected, rest⟩)
    (h' : r' (ts.map (Token.recast f)) =
      ⟨.error expected, rest.map (Token.recast f)⟩) : Mirrors f m r r' ts := by
  rw [Mirrors, h, h']
  rfl

theorem pure (m : α → α) (v : α) (ts : List Token) :
    Mirrors f m (Rule.pure v) (Rule.pure (m v)) ts := ok rfl rfl

theorem congr {r r' q q' : Rule α} {ts : List Token} (h : Mirrors f m q q' ts)
    (heq : r ts = q ts)
    (heq' : r' (ts.map (Token.recast f)) = q' (ts.map (Token.recast f))) :
    Mirrors f m r r' ts := by
  rw [Mirrors, heq, heq']
  exact h

theorem cons {r r' q q' : Rule α} {t : Token} {ts : List Token} (h : Mirrors f m q q' ts)
    (heq : r (t :: ts) = q ts)
    (heq' : r' (t.recast f :: ts.map (Token.recast f)) =
      q' (ts.map (Token.recast f))) : Mirrors f m r r' (t :: ts) := by
  rw [Mirrors, heq, List.map_cons, heq']
  exact h

theorem bind {r r' : Rule α} {g g' : α → Rule β} {ts : List Token} (h : Mirrors f m r r' ts)
    (hg : ∀ v, (r ts).result = .ok v → Mirrors f n (g v) (g' (m v)) (r ts).rest) :
    Mirrors f n (r.bind g) (r'.bind g') ts := by
  rw [Mirrors] at h ⊢
  cases hres : (r ts).result with
  | ok v =>
    rw [hres] at h
    rw [Rule.bind_of_ok g hres, Rule.bind_ok h]
    exact hg v hres
  | error expected =>
    rw [hres] at h
    rw [Rule.bind_of_error g hres, Rule.bind_error h]
    rfl

theorem expect {kind : TokenKind} (place : Place) (hkind : isMark kind = true) {r r' : Rule α}
    (h : ∀ rest, Mirrors f m r r' rest) (ts : List Token) :
    Mirrors f m ((expectRule kind place).bind fun _ => r)
      ((expectRule kind place).bind fun _ => r') ts := by
  by_cases hts : (kinds ts).head? = some kind
  · obtain ⟨location, rest, rfl⟩ := exists_of_head?_kinds hts
    refine (h rest).cons (Rule.bind_ok (expectRule_cons kind place location rest)) ?_
    rw [Token.recast, (recast_eq_iff f hkind kind).2 rfl]
    exact Rule.bind_ok (expectRule_cons kind place _ _)
  · have hts' : (kinds (ts.map (Token.recast f))).head? ≠ some kind :=
      fun hhead => hts ((head?_recast_eq_iff f hkind ts).1 hhead)
    exact error (Rule.bind_error (expectRule_of_ne place hts))
      (Rule.bind_error (expectRule_of_ne place hts'))

end Mirrors

/-! ## Expressions -/

theorem head?_bind_recast {γ : Type} (f : String → String) (g : TokenKind → Option γ)
    (hg : ∀ k, g (k.recast f) = g k) (ts : List Token) :
    (kinds (ts.map (Token.recast f))).head?.bind g = (kinds ts).head?.bind g := by
  cases ts with
  | nil => rfl
  | cons t ts => exact hg t.kind

theorem head?_any_recast (f : String → String) (p : TokenKind → Bool)
    (hp : ∀ k, p (k.recast f) = p k) (ts : List Token) :
    (kinds (ts.map (Token.recast f))).head?.any p = (kinds ts).head?.any p := by
  cases ts with
  | nil => rfl
  | cons t ts => exact hp t.kind

theorem mirrors_operators_stop {level : Nat} {left : Expr} {ts : List Token}
    (h : (kinds ts).head?.bind (opOfLevel? (level + 1)) = none) :
    Mirrors f (Expr.mapText f) (operatorsRule level left)
      (operatorsRule level (left.mapText f)) ts := by
  have h' := head?_bind_recast f _ (opOfLevel?_recast f (level + 1)) ts
  rw [h] at h'
  exact .ok (operatorsRule_stop left h) (operatorsRule_stop _ h')

theorem mirrors_operators_cons {level : Nat} {t : Token} {op : BinaryOp} {left : Expr}
    {ts : List Token} (hop : opOfLevel? (level + 1) t.kind = some op)
    (hexpr : Mirrors f (Expr.mapText f) (exprRule level) (exprRule level) ts)
    (hoperators : ∀ right rest, rest.length < ts.length →
      Mirrors f (Expr.mapText f) (operatorsRule level (.binary op left right))
        (operatorsRule level (Expr.mapText f (.binary op left right))) rest) :
    Mirrors f (Expr.mapText f) (operatorsRule level left)
      (operatorsRule level (left.mapText f)) (t :: ts) := by
  have hop' : opOfLevel? (level + 1) (t.recast f).kind = some op :=
    (opOfLevel?_recast f (level + 1) t.kind).trans hop
  have hbehind : ∀ right, (exprRule level ts).result = .ok right →
      Mirrors f (Expr.mapText f) (behindOperand level op left right)
        (behindOperand level op (left.mapText f) (right.mapText f)) (exprRule level ts).rest := by
    intro right hright
    unfold behindOperand
    split
    · exact hoperators right _ (outcome_length hright)
    · exact .pure (Expr.mapText f) (.binary op left right) _
  exact (hexpr.bind hbehind).cons (operatorsRule_cons left ts hop) (operatorsRule_cons _ _ hop')

theorem mirrors_unary_cons {t : Token} {op : UnaryOp} {ts : List Token}
    (hop : unaryOp? t.kind = some op) (h : Mirrors f (Expr.mapText f) unaryRule unaryRule ts) :
    Mirrors f (Expr.mapText f) unaryRule unaryRule (t :: ts) := by
  have hop' : unaryOp? (t.recast f).kind = some op := (unaryOp?_recast f t.kind).trans hop
  have hbind : Mirrors f (Expr.mapText f)
      (unaryRule.bind fun operand => Rule.pure (.unary op operand))
      (unaryRule.bind fun operand => Rule.pure (.unary op operand)) ts :=
    h.bind fun operand _ => .pure (Expr.mapText f) (.unary op operand) _
  exact hbind.cons (unaryRule_cons ts hop) (unaryRule_cons _ hop')

theorem mirrors_unary_primary {ts : List Token} (hop : (kinds ts).head?.bind unaryOp? = none)
    (h : Mirrors f (Expr.mapText f) primaryRule primaryRule ts) :
    Mirrors f (Expr.mapText f) unaryRule unaryRule ts := by
  have hop' := head?_bind_recast f _ (unaryOp?_recast f) ts
  rw [hop] at hop'
  exact h.congr (unaryRule_primary hop) (unaryRule_primary hop')

theorem mirrors_primary_parens (place : Location) {ts : List Token}
    (h : Mirrors f (Expr.mapText f) (exprRule topLevel) (exprRule topLevel) ts) :
    Mirrors f (Expr.mapText f) primaryRule primaryRule (⟨.leftParen, place⟩ :: ts) := by
  have hbind : Mirrors f (Expr.mapText f)
      ((exprRule topLevel).bind fun inner =>
        (expectRule .rightParen .expression).bind fun _ => Rule.pure inner)
      ((exprRule topLevel).bind fun inner =>
        (expectRule .rightParen .expression).bind fun _ => Rule.pure inner) ts :=
    h.bind fun inner _ => .expect .expression rfl (.pure (Expr.mapText f) inner) _
  exact hbind.cons (primaryRule_parens place ts) (primaryRule_parens _ _)

theorem mirrors_primary_fail {ts : List Token} (h : (kinds ts).head?.any opensPrimary = false) :
    Mirrors f (Expr.mapText f) primaryRule primaryRule ts := by
  have h' := head?_any_recast f opensPrimary (fun k => by cases k <;> rfl) ts
  rw [h] at h'
  exact .error (primaryRule_fail h) (primaryRule_fail h')

theorem mirrors_expr_all (f : String → String) :
    (∀ level ts, Mirrors f (Expr.mapText f) (exprRule level) (exprRule level) ts) ∧
      (∀ level left ts, Mirrors f (Expr.mapText f) (operatorsRule level left)
        (operatorsRule level (left.mapText f)) ts) ∧
      (∀ ts, Mirrors f (Expr.mapText f) unaryRule unaryRule ts) ∧
      ∀ ts, Mirrors f (Expr.mapText f) primaryRule primaryRule ts := by
  apply expr_induction
  case zero =>
    intro ts hunary
    rw [exprRule_zero]
    exact hunary
  case succ =>
    intro level ts hexpr hoperators
    rw [exprRule_succ]
    exact hexpr.bind fun left hleft => hoperators left _ (outcome_length hleft)
  case stop => exact fun level left ts => mirrors_operators_stop
  case operator => exact fun level left t ts op hop => mirrors_operators_cons hop
  case unary => exact fun t ts op hop => mirrors_unary_cons hop
  case primary => exact fun ts hop => mirrors_unary_primary hop
  case identifier =>
    exact fun name place ts =>
      .ok (primaryRule_identifier name place ts) (primaryRule_identifier _ _ _)
  case integer =>
    exact fun digits place ts =>
      .ok (primaryRule_integer digits place ts) (primaryRule_integer _ _ _)
  case parens => exact fun place ts => mirrors_primary_parens place
  case other => exact fun ts => mirrors_primary_fail

theorem mirrors_expr (f : String → String) (level : Nat) (ts : List Token) :
    Mirrors f (Expr.mapText f) (exprRule level) (exprRule level) ts :=
  (mirrors_expr_all f).1 level ts

/-! ## Statements -/

theorem mirrors_condition (f : String → String) (word inside : Place) (ts : List Token) :
    Mirrors f (Expr.mapText f) (conditionRule word inside) (conditionRule word inside) ts :=
  .expect word rfl (fun rest => (mirrors_expr f topLevel rest).bind fun value _ =>
    .expect inside rfl (.pure (Expr.mapText f) value) _) ts

theorem mirrors_item (f : String → String) (ts : List Token) :
    Mirrors f (PrintItem.mapText f) printItemRule printItemRule ts := by
  by_cases hstring : ∃ text, (kinds ts).head? = some (.string text)
  · obtain ⟨text, htext⟩ := hstring
    obtain ⟨place, rest, rfl⟩ := exists_of_head?_kinds htext
    exact .ok (printItemRule_string text place rest) (printItemRule_string _ _ _)
  · have hvalue : Mirrors f (PrintItem.mapText f)
        ((exprRule topLevel).bind fun value => Rule.pure (.expr value))
        ((exprRule topLevel).bind fun value => Rule.pure (.expr value)) ts :=
      (mirrors_expr f topLevel ts).bind fun value _ => .pure (PrintItem.mapText f) (.expr value) _
    refine hvalue.congr (printItemRule_expr fun text htext => hstring ⟨text, htext⟩)
      (printItemRule_expr fun text htext => ?_)
    cases ts with
    | nil => cases htext
    | cons t ts =>
      obtain ⟨kind, place⟩ := t
      cases kind with
      | string text' => exact hstring ⟨text', rfl⟩
      | _ => cases htext

theorem mirrors_moreItems (f : String → String) (ts : List Token) :
    Mirrors f (List.map (PrintItem.mapText f)) morePrintItemsRule morePrintItemsRule ts := by
  induction ts using moreItems_induction with
  | comma place ts ih =>
    have hitems : Mirrors f (List.map (PrintItem.mapText f))
        (printItemRule.bind fun item => morePrintItemsRule.bind fun items =>
          Rule.pure (item :: items))
        (printItemRule.bind fun item => morePrintItemsRule.bind fun items =>
          Rule.pure (item :: items)) ts :=
      (mirrors_item f ts).bind fun item hitem =>
        (ih _ (outcome_length hitem)).bind fun items _ =>
          .pure (List.map (PrintItem.mapText f)) (item :: items) _
    exact hitems.cons (morePrintItemsRule_comma place ts) (morePrintItemsRule_comma _ _)
  | stop ts hstop =>
    have hstop' : (kinds (ts.map (Token.recast f))).head? ≠ some .comma :=
      fun hcomma => hstop ((head?_recast_eq_iff f rfl ts).1 hcomma)
    exact .ok (morePrintItemsRule_stop hstop) (morePrintItemsRule_stop hstop')

theorem mirrors_else {test : Expr} {body : Stmt} {ts : List Token}
    (h : ∀ t rest, ts = t :: rest → Mirrors f (Stmt.mapText f) stmtRule stmtRule rest) :
    Mirrors f (Stmt.mapText f) (elseRule test body)
      (elseRule (test.mapText f) (body.mapText f)) ts := by
  by_cases helse : (kinds ts).head? = some .elseWord
  · obtain ⟨place, rest, rfl⟩ := exists_of_head?_kinds helse
    have hother : Mirrors f (Stmt.mapText f)
        (stmtRule.bind fun other => Rule.pure (.ifElse test body other))
        (stmtRule.bind fun other => Rule.pure (.ifElse (test.mapText f) (body.mapText f) other))
        rest :=
      (h _ rest rfl).bind fun other _ => .pure (Stmt.mapText f) (.ifElse test body other) _
    exact hother.cons rfl rfl
  · have helse' : (kinds (ts.map (Token.recast f))).head? ≠ some .elseWord :=
      fun hhead => helse ((head?_recast_eq_iff f rfl ts).1 hhead)
    exact .ok (elseRule_stop test body helse) (elseRule_stop _ _ helse')

theorem closesStmts_recast (f : String → String) (ts : List Token) :
    closesStmts (kinds (ts.map (Token.recast f))) = closesStmts (kinds ts) := by
  cases ts with
  | nil => rfl
  | cons t ts =>
    obtain ⟨kind, place⟩ := t
    cases kind <;> rfl

theorem mirrors_stmt_all (f : String → String) :
    (∀ ts, Mirrors f (Stmt.mapText f) stmtRule stmtRule ts) ∧
      ∀ ts, Mirrors f (Stmt.mapTexts f) stmtsRule stmtsRule ts := by
  apply stmt_induction
  case semicolon =>
    exact fun place ts => .ok (stmtRule_semicolon place ts) (stmtRule_semicolon _ _)
  case identifier =>
    intro name place ts
    refine Mirrors.cons ?_ (stmtRule_identifier name place ts) (stmtRule_identifier _ _ _)
    exact .expect .identifier rfl (fun rest => (mirrors_expr f topLevel rest).bind fun value _ =>
      .expect .assignment rfl (.pure (Stmt.mapText f) (.assign name value)) _) ts
  case ifWord =>
    intro place ts ih
    refine Mirrors.cons ?_ (stmtRule_ifWord place ts) (stmtRule_ifWord _ _)
    refine (mirrors_condition f _ _ ts).bind fun test htest => ?_
    have htest := conditionRule_length htest
    refine (ih _ htest).bind fun body hbody => mirrors_else fun t rest hrest => ih rest ?_
    have hbody := stmtRule_length_else hbody hrest
    omega
  case whileWord =>
    intro place ts ih
    refine Mirrors.cons ?_ (stmtRule_whileWord place ts) (stmtRule_whileWord _ _)
    exact (mirrors_condition f _ _ ts).bind fun test htest =>
      (ih _ (conditionRule_length htest)).bind fun body _ =>
        .pure (Stmt.mapText f) (.whileLoop test body) _
  case printWord =>
    intro place ts
    refine Mirrors.cons ?_ (stmtRule_printWord place ts) (stmtRule_printWord _ _)
    exact .expect .printWord rfl (fun rest => (mirrors_item f rest).bind fun first _ =>
      (mirrors_moreItems f _).bind fun more _ => .expect .printArguments rfl
        (.expect .printStatement rfl (.pure (Stmt.mapText f) (.print first more))) _) ts
  case putcWord =>
    intro place ts
    refine Mirrors.cons ?_ (stmtRule_putcWord place ts) (stmtRule_putcWord _ _)
    exact (mirrors_condition f _ _ ts).bind fun value _ =>
      .expect .putcStatement rfl (.pure (Stmt.mapText f) (.putc value)) _
  case leftBrace =>
    intro place ts hstmts
    refine Mirrors.cons ?_ (stmtRule_leftBrace place ts) (stmtRule_leftBrace _ _)
    exact hstmts.bind fun body _ => .expect .block rfl (.pure (Stmt.mapText f) (.block body)) _
  case other =>
    intro ts hts
    have hts' := head?_any_recast f opensStmt (fun k => by cases k <;> rfl) ts
    rw [hts] at hts'
    exact .error (stmtRule_fail hts) (stmtRule_fail hts')
  case stop =>
    intro ts hts
    refine .ok (stmtsRule_stop hts) (stmtsRule_stop ?_)
    rw [closesStmts_recast, hts]
  case more =>
    intro ts hts hstmt ih
    refine Mirrors.congr ?_ (stmtsRule_cons hts) (stmtsRule_cons ?_)
    · exact hstmt.bind fun head hhead => (ih _ (outcome_length hhead)).bind fun tail _ =>
        .pure (Stmt.mapTexts f) (head :: tail) _
    · rw [closesStmts_recast, hts]

theorem mirrors_stmts (f : String → String) (ts : List Token) :
    Mirrors f (Stmt.mapTexts f) stmtsRule stmtsRule ts := (mirrors_stmt_all f).2 ts

/-- Tokens of kinds that are recast alike are recast alike. -/
theorem map_recast_eq {f : String → String} {ts ts' : List Token}
    (h : (kinds ts').map (TokenKind.recast id) = (kinds ts).map (TokenKind.recast f)) :
    ts'.map (Token.recast id) = ts.map (Token.recast f) := by
  have hplaced := congrArg (List.map fun k => (⟨k, .start⟩ : Token)) h
  simp only [List.map_map] at hplaced
  exact hplaced

end Grammar
end ImpSyntax

import ImpSyntax.Grammar.Stmt

/-!
# ImpSyntax.Proofs.Grammar.Rule

The grammar rules without the bounds that their recursion needs. A rule maps the tokens ahead to an
outcome: a value or what was expected, and the tokens that are left. Rules are put together by
`Rule.bind`, and each rule of the grammar is given by equations over its first token. The token that
a failure names is told apart from the outcome, since it is the first of those that are left
(`eq_error_of_outcome`).
-/

namespace ImpSyntax
namespace Grammar

/-- The kinds of the tokens. -/
abbrev kinds (ts : List Token) : List TokenKind := ts.map (·.kind)

theorem exists_of_head?_kinds {k : TokenKind} {ts : List Token} (h : (kinds ts).head? = some k) :
    ∃ place rest, ts = ⟨k, place⟩ :: rest := by
  cases ts with
  | nil => cases h
  | cons t rest =>
    cases h
    exact ⟨t.location, rest, rfl⟩

theorem exists_kinds (ks : List TokenKind) : ∃ ts : List Token, kinds ts = ks :=
  ⟨ks.map fun k => ⟨k, .start⟩, by simp [Function.comp_def]⟩

@[ext]
structure Outcome (α : Type) where
  result : Except Expected α
  rest : List Token

/-- An outcome from what a grammar rule gives. -/
def outcome {α : Type} {n : Nat} : Except Failure (Parsed α n) → Outcome α
  | .ok p => ⟨.ok p.value, p.rest⟩
  | .error f => ⟨.error f.expected, f.rest⟩

theorem outcome_unexpected {α : Type} {n : Nat} (expected : Expected) (ts : List Token) :
    outcome (.error (unexpected expected ts) : Except Failure (Parsed α n)) =
      ⟨.error expected, ts⟩ := by
  cases ts <;> rfl

theorem outcome_length {α : Type} {n : Nat} {x : Except Failure (Parsed α n)} {v : α}
    (h : (outcome x).result = .ok v) : (outcome x).rest.length < n := by
  cases x with
  | ok p => exact p.short
  | error f => cases h

theorem outcome_short {α : Type} {n : Nat} {x : Except Failure (Parsed α n)} {v : α}
    {rest : List Token} (h : outcome x = ⟨.ok v, rest⟩) : rest.length < n := by
  have hshort := outcome_length (congrArg Outcome.result h)
  rwa [h] at hshort

theorem outcome_widen {α : Type} {m n : Nat} (x : Except Failure (Parsed α m)) (h : m ≤ n) :
    outcome (x >>= fun p => .ok (p.widen h)) = outcome x := by
  cases x <;> rfl

abbrev Rule (α : Type) := List Token → Outcome α

namespace Rule

variable {α β : Type}

def pure (v : α) : Rule α := fun ts => ⟨.ok v, ts⟩

def fail (expected : Expected) : Rule α := fun ts => ⟨.error expected, ts⟩

def bind (f : Rule α) (g : α → Rule β) : Rule β := fun ts =>
  match (f ts).result with
  | .ok v => g v (f ts).rest
  | .error expected => ⟨.error expected, (f ts).rest⟩

theorem bind_of_ok {f : Rule α} {ts : List Token} {v : α} (g : α → Rule β)
    (h : (f ts).result = .ok v) : f.bind g ts = g v (f ts).rest := by
  simp only [bind, h]

theorem bind_of_error {f : Rule α} {ts : List Token} {expected : Expected} (g : α → Rule β)
    (h : (f ts).result = .error expected) : f.bind g ts = ⟨.error expected, (f ts).rest⟩ := by
  simp only [bind, h]

theorem bind_ok {f : Rule α} {g : α → Rule β} {ts rest : List Token} {v : α}
    (h : f ts = ⟨.ok v, rest⟩) : f.bind g ts = g v rest := by
  rw [bind_of_ok g (congrArg Outcome.result h), h]

theorem bind_error {f : Rule α} {g : α → Rule β} {ts rest : List Token} {expected : Expected}
    (h : f ts = ⟨.error expected, rest⟩) : f.bind g ts = ⟨.error expected, rest⟩ := by
  rw [bind_of_error g (congrArg Outcome.result h), h]

/-- A value made of what another rule finds. -/
theorem eq_ok_of_bind_pure {f : Rule α} {g : α → β} {ts rest : List Token} {w : β}
    (h : f.bind (fun v => pure (g v)) ts = ⟨.ok w, rest⟩) :
    ∃ v, f ts = ⟨.ok v, rest⟩ ∧ g v = w := by
  cases hf : f ts with
  | mk result behind =>
    cases result with
    | ok v =>
      rw [bind_ok hf] at h
      cases h
      exact ⟨v, rfl, rfl⟩
    | error expected =>
      rw [bind_error hf] at h
      cases h

theorem eq_error_of_bind_pure {f : Rule α} {g : α → β} {ts rest : List Token}
    {expected : Expected} (h : f.bind (fun v => pure (g v)) ts = ⟨.error expected, rest⟩) :
    f ts = ⟨.error expected, rest⟩ := by
  cases hf : f ts with
  | mk result behind =>
    cases result with
    | ok v =>
      rw [bind_ok hf] at h
      cases h
    | error expected' =>
      rw [bind_error hf] at h
      cases h
      rfl

/-- The bounds of the parts do not show in the outcome of the whole. -/
theorem outcome_bind {m n : Nat} (f : Rule α) (g : α → Rule β) (ts : List Token)
    {x : Except Failure (Parsed α m)} {k : Parsed α m → Except Failure (Parsed β n)}
    (hf : outcome x = f ts) (hg : ∀ v rest h, outcome (k ⟨v, rest, h⟩) = g v rest) :
    outcome (x >>= k) = f.bind g ts := by
  cases x with
  | ok p => rw [bind_ok hf.symm]; exact hg p.value p.rest p.short
  | error e => rw [bind_error hf.symm]; rfl

end Rule

/-! ## Expressions -/

def exprRule (level : Nat) : Rule Expr := fun ts => outcome (expr level ts)

def operatorsRule (level : Nat) (left : Expr) : Rule Expr := fun ts =>
  outcome (operators level left ts)

def unaryRule : Rule Expr := fun ts => outcome (unary ts)

def primaryRule : Rule Expr := fun ts => outcome (primary ts)

def expectRule (kind : TokenKind) (after : Place) : Rule Unit := fun ts =>
  outcome (expect kind after ts)

theorem expectRule_cons (kind : TokenKind) (after : Place) (place : Location) (ts : List Token) :
    expectRule kind after (⟨kind, place⟩ :: ts) = ⟨.ok (), ts⟩ := by
  simp [expectRule, expect, outcome]

theorem expectRule_of_ne {kind : TokenKind} {ts : List Token} (after : Place)
    (h : (kinds ts).head? ≠ some kind) :
    expectRule kind after ts = ⟨.error (.mark kind after), ts⟩ := by
  cases ts with
  | nil => rfl
  | cons t ts =>
    have ht : t.kind ≠ kind := fun heq => h (congrArg some heq)
    simp [expectRule, expect, outcome, unexpected, ht]

theorem exprRule_zero : exprRule 0 = unaryRule := by
  funext ts
  rw [exprRule, expr]
  rfl

theorem exprRule_succ (level : Nat) :
    exprRule (level + 1) = (exprRule level).bind (operatorsRule level) := by
  funext ts
  rw [exprRule, expr]
  exact Rule.outcome_bind _ _ ts rfl fun left rest h => outcome_widen _ _

/-- Operators of a level chain all or none. -/
theorem chains_congr {op op' : BinaryOp} (h : op.level = op'.level) : op.chains = op'.chains := by
  rw [BinaryOp.chains, BinaryOp.chains, h]

theorem operatorsRule_stop {level : Nat} {ts : List Token} (left : Expr)
    (h : (kinds ts).head?.bind (opOfLevel? (level + 1)) = none) :
    operatorsRule level left ts = ⟨.ok left, ts⟩ := by
  cases ts with
  | nil => simp [operatorsRule, operators, outcome]
  | cons t ts =>
    have ht : opOfLevel? (level + 1) t.kind = none := h
    rw [operatorsRule, operators]
    split
    · rfl
    · rename_i op hop
      rw [ht] at hop
      cases hop

/-- What comes behind an operator and its right operand. -/
def behindOperand (level : Nat) (op : BinaryOp) (left right : Expr) : Rule Expr :=
  if op.chains then operatorsRule level (.binary op left right)
  else Rule.pure (.binary op left right)

theorem operatorsRule_cons {level : Nat} {t : Token} {op : BinaryOp} (left : Expr)
    (ts : List Token) (h : opOfLevel? (level + 1) t.kind = some op) :
    operatorsRule level left (t :: ts) =
      (exprRule level).bind (behindOperand level op left) ts := by
  rw [operatorsRule, operators]
  split
  · rename_i hop
    rw [h] at hop
    cases hop
  · rename_i op' hop
    rw [h] at hop
    cases hop
    refine Rule.outcome_bind _ _ ts rfl fun right rest hr => ?_
    by_cases hchains : op.chains = true
    · simp only [behindOperand, hchains, if_true]
      exact outcome_widen _ _
    · simp only [behindOperand, hchains]
      rfl

theorem unaryRule_cons {t : Token} {op : UnaryOp} (ts : List Token)
    (h : unaryOp? t.kind = some op) :
    unaryRule (t :: ts) = unaryRule.bind (fun operand => Rule.pure (.unary op operand)) ts := by
  rw [unaryRule, unary]
  split
  · rename_i op' hop
    rw [h] at hop
    cases hop
    exact Rule.outcome_bind _ _ ts rfl fun operand rest hr => rfl
  · rename_i hop
    rw [h] at hop
    cases hop

theorem unary_eq_primary {ts : List Token} (h : (kinds ts).head?.bind unaryOp? = none) :
    unary ts = primary ts := by
  cases ts with
  | nil => rw [unary, primary] <;> simp
  | cons t ts =>
    have ht : unaryOp? t.kind = none := h
    rw [unary]
    split
    · rename_i op hop
      rw [ht] at hop
      cases hop
    · rfl

theorem unaryRule_primary {ts : List Token} (h : (kinds ts).head?.bind unaryOp? = none) :
    unaryRule ts = primaryRule ts := congrArg outcome (unary_eq_primary h)

/-- Whether a primary expression can start with the token. -/
def opensPrimary : TokenKind → Bool
  | .identifier _ | .integer _ | .leftParen => true
  | _ => false

theorem primaryRule_identifier (name : String) (place : Location) (ts : List Token) :
    primaryRule (⟨.identifier name, place⟩ :: ts) = ⟨.ok (.identifier name), ts⟩ := by
  simp [primaryRule, primary, outcome]

theorem primaryRule_integer (digits : String) (place : Location) (ts : List Token) :
    primaryRule (⟨.integer digits, place⟩ :: ts) = ⟨.ok (.integer digits), ts⟩ := by
  simp [primaryRule, primary, outcome]

theorem primaryRule_parens (place : Location) (ts : List Token) :
    primaryRule (⟨.leftParen, place⟩ :: ts) =
      (exprRule topLevel).bind (fun inner =>
        (expectRule .rightParen .expression).bind fun _ => Rule.pure inner) ts := by
  rw [primaryRule, primary]
  exact Rule.outcome_bind _ _ ts rfl fun inner rest h =>
    Rule.outcome_bind _ _ rest rfl fun _ rest h => rfl

theorem primary_eq_error {ts : List Token} (h : (kinds ts).head?.any opensPrimary = false) :
    primary ts = .error (unexpected .expression ts) := by
  rw [primary]
  · rintro name place ts rfl; cases h
  · rintro digits place ts rfl; cases h
  · rintro place ts rfl; cases h

theorem primaryRule_fail {ts : List Token} (h : (kinds ts).head?.any opensPrimary = false) :
    primaryRule ts = ⟨.error .expression, ts⟩ := by
  rw [primaryRule, primary_eq_error h, outcome_unexpected]

/-- Induction along the rules for expressions: of a level (`P`), for the operators behind an operand
(`Q`), for prefix operators (`R`) and for primary expressions (`S`). -/
theorem expr_induction {P : Nat → List Token → Prop} {Q : Nat → Expr → List Token → Prop}
    {R S : List Token → Prop}
    (zero : ∀ ts, R ts → P 0 ts)
    (succ : ∀ level ts, P level ts → (∀ left rest, rest.length < ts.length → Q level left rest) →
      P (level + 1) ts)
    (stop : ∀ level left ts, (kinds ts).head?.bind (opOfLevel? (level + 1)) = none →
      Q level left ts)
    (operator : ∀ level left t ts op, opOfLevel? (level + 1) t.kind = some op → P level ts →
      (∀ right rest, rest.length < ts.length → Q level (.binary op left right) rest) →
        Q level left (t :: ts))
    (unary : ∀ t ts op, unaryOp? t.kind = some op → R ts → R (t :: ts))
    (primary : ∀ ts, (kinds ts).head?.bind unaryOp? = none → S ts → R ts)
    (identifier : ∀ name place ts, S (⟨.identifier name, place⟩ :: ts))
    (integer : ∀ digits place ts, S (⟨.integer digits, place⟩ :: ts))
    (parens : ∀ place ts, P topLevel ts → S (⟨.leftParen, place⟩ :: ts))
    (other : ∀ ts, (kinds ts).head?.any opensPrimary = false → S ts) :
    (∀ level ts, P level ts) ∧ (∀ level left ts, Q level left ts) ∧ (∀ ts, R ts) ∧ ∀ ts, S ts := by
  apply expr.mutual_induct
  case case1 => exact zero
  case case2 => exact fun ts level => succ level ts
  case case3 => exact fun level left => stop level left [] rfl
  case case4 => exact fun level left t ts hop => stop level left (t :: ts) hop
  case case5 => exact operator
  case case6 => exact primary [] rfl (other [] rfl)
  case case7 => exact unary
  case case8 => exact fun t ts hop => primary (t :: ts) hop
  case case9 => exact identifier
  case case10 => exact integer
  case case11 => exact parens
  case case12 =>
    intro ts hidentifier hinteger hparen
    apply other
    cases ts with
    | nil => rfl
    | cons t ts =>
      obtain ⟨kind, place⟩ := t
      cases kind with
      | identifier name => exact absurd rfl (hidentifier name place ts)
      | integer digits => exact absurd rfl (hinteger digits place ts)
      | leftParen => exact absurd rfl (hparen place ts)
      | _ => rfl

/-- Whether an expression can start with the token. -/
def opensExpr (t : TokenKind) : Bool := opensPrimary t || (unaryOp? t).isSome

theorem exprRule_fail {ts : List Token} (level : Nat)
    (h : (kinds ts).head?.any opensExpr = false) :
    exprRule level ts = ⟨.error .expression, ts⟩ := by
  induction level with
  | zero =>
    have hunary : (kinds ts).head?.bind unaryOp? = none := by
      cases ts with
      | nil => rfl
      | cons t ts => simp_all [opensExpr]
    have hprimary : (kinds ts).head?.any opensPrimary = false := by
      cases ts with
      | nil => rfl
      | cons t ts => simp_all [opensExpr]
    rw [exprRule_zero, unaryRule_primary hunary, primaryRule_fail hprimary]
  | succ level ih => rw [exprRule_succ, Rule.bind_error ih]

/-! ## Statements -/

def conditionRule (word inside : Place) : Rule Expr :=
  (expectRule .leftParen word).bind fun _ => (exprRule topLevel).bind fun value =>
    (expectRule .rightParen inside).bind fun _ => Rule.pure value

theorem outcome_condition (word inside : Place) (ts : List Token) :
    outcome (condition word inside ts) = conditionRule word inside ts := by
  rw [condition]
  exact Rule.outcome_bind _ _ ts rfl fun _ rest h =>
    Rule.outcome_bind _ _ rest rfl fun value rest h =>
      Rule.outcome_bind _ _ rest rfl fun _ rest h => rfl

theorem conditionRule_length {word inside : Place} {ts : List Token} {v : Expr}
    (h : (conditionRule word inside ts).result = .ok v) :
    (conditionRule word inside ts).rest.length < ts.length := by
  rw [← outcome_condition] at h ⊢
  exact outcome_length h

def printItemRule : Rule PrintItem := fun ts => outcome (printItem ts)

theorem printItemRule_string (text : String) (place : Location) (ts : List Token) :
    printItemRule (⟨.string text, place⟩ :: ts) = ⟨.ok (.string text), ts⟩ := rfl

theorem printItemRule_expr {ts : List Token} (h : ∀ text, (kinds ts).head? ≠ some (.string text)) :
    printItemRule ts = (exprRule topLevel).bind (fun value => Rule.pure (.expr value)) ts := by
  rw [printItemRule, printItem]
  · exact Rule.outcome_bind _ _ ts rfl fun value rest h => rfl
  · rintro text place ts rfl
    exact h text rfl

def morePrintItemsRule : Rule (List PrintItem) := fun ts => outcome (morePrintItems ts)

theorem morePrintItemsRule_comma (place : Location) (ts : List Token) :
    morePrintItemsRule (⟨.comma, place⟩ :: ts) =
      printItemRule.bind (fun item => morePrintItemsRule.bind fun items =>
        Rule.pure (item :: items)) ts := by
  rw [morePrintItemsRule, morePrintItems]
  exact Rule.outcome_bind _ _ ts rfl fun item rest h =>
    Rule.outcome_bind _ _ rest rfl fun items rest h => rfl

theorem morePrintItemsRule_stop {ts : List Token} (h : (kinds ts).head? ≠ some .comma) :
    morePrintItemsRule ts = ⟨.ok [], ts⟩ := by
  rw [morePrintItemsRule, morePrintItems]
  · rfl
  · rintro place ts rfl
    exact h rfl

/-- Induction along the items behind a first one. -/
theorem moreItems_induction {P : List Token → Prop}
    (comma : ∀ place ts, (∀ rest, rest.length < ts.length → P rest) → P (⟨.comma, place⟩ :: ts))
    (stop : ∀ ts, (kinds ts).head? ≠ some .comma → P ts) (ts : List Token) : P ts := by
  induction ts using morePrintItems.induct with
  | case1 place ts ih => exact comma place ts ih
  | case2 ts h =>
    apply stop
    intro hcomma
    obtain ⟨place, rest, rfl⟩ := exists_of_head?_kinds hcomma
    exact h place rest rfl

def stmtRule : Rule Stmt := fun ts => outcome (stmt ts)

def stmtsRule : Rule (List Stmt) := fun ts => outcome (stmts ts)

theorem stmtRule_semicolon (place : Location) (ts : List Token) :
    stmtRule (⟨.semicolon, place⟩ :: ts) = ⟨.ok .empty, ts⟩ := by
  simp [stmtRule, stmt, outcome]

theorem stmtRule_identifier (name : String) (place : Location) (ts : List Token) :
    stmtRule (⟨.identifier name, place⟩ :: ts) =
      (expectRule .assign .identifier).bind (fun _ => (exprRule topLevel).bind fun value =>
        (expectRule .semicolon .assignment).bind fun _ =>
          Rule.pure (.assign name value)) ts := by
  rw [stmtRule, stmt]
  exact Rule.outcome_bind _ _ ts rfl fun _ rest h =>
    Rule.outcome_bind _ _ rest rfl fun value rest h =>
      Rule.outcome_bind _ _ rest rfl fun _ rest h => rfl

/-- What comes behind the first arm of a conditional. -/
def elseRule (test : Expr) (body : Stmt) : Rule Stmt
  | ⟨.elseWord, _⟩ :: ts => stmtRule.bind (fun other => Rule.pure (.ifElse test body other)) ts
  | ts => ⟨.ok (.ifThen test body), ts⟩

theorem elseRule_stop {ts : List Token} (test : Expr) (body : Stmt)
    (h : (kinds ts).head? ≠ some .elseWord) :
    elseRule test body ts = ⟨.ok (.ifThen test body), ts⟩ := by
  rw [elseRule]
  rintro place ts rfl
  exact h rfl

theorem stmtRule_ifWord (place : Location) (ts : List Token) :
    stmtRule (⟨.ifWord, place⟩ :: ts) =
      (conditionRule .ifWord .ifCondition).bind (fun test =>
        stmtRule.bind fun body => elseRule test body) ts := by
  rw [stmtRule, stmt]
  refine Rule.outcome_bind _ _ ts (outcome_condition _ _ ts) fun test rest h =>
    Rule.outcome_bind _ _ rest rfl fun body rest h => ?_
  cases rest with
  | nil => rfl
  | cons t rest =>
    obtain ⟨kind, place⟩ := t
    cases kind
    case elseWord => exact Rule.outcome_bind _ _ rest rfl fun other rest h => rfl
    all_goals rfl

/-- The tokens behind an else are fewer than those of the whole conditional. -/
theorem stmtRule_length_else {t : Token} {ts rest : List Token} {body : Stmt}
    (h : (stmtRule ts).result = .ok body) (hrest : (stmtRule ts).rest = t :: rest) :
    rest.length < ts.length := by
  have hshort : (stmtRule ts).rest.length < ts.length := outcome_length h
  rw [hrest, List.length_cons] at hshort
  omega

theorem stmtRule_whileWord (place : Location) (ts : List Token) :
    stmtRule (⟨.whileWord, place⟩ :: ts) =
      (conditionRule .whileWord .whileCondition).bind (fun test =>
        stmtRule.bind fun body => Rule.pure (.whileLoop test body)) ts := by
  rw [stmtRule, stmt]
  exact Rule.outcome_bind _ _ ts (outcome_condition _ _ ts) fun test rest h =>
    Rule.outcome_bind _ _ rest rfl fun body rest h => rfl

theorem stmtRule_printWord (place : Location) (ts : List Token) :
    stmtRule (⟨.printWord, place⟩ :: ts) =
      (expectRule .leftParen .printWord).bind (fun _ => printItemRule.bind fun first =>
        morePrintItemsRule.bind fun more => (expectRule .rightParen .printArguments).bind fun _ =>
          (expectRule .semicolon .printStatement).bind fun _ =>
            Rule.pure (.print first more)) ts := by
  rw [stmtRule, stmt]
  exact Rule.outcome_bind _ _ ts rfl fun _ rest h =>
    Rule.outcome_bind _ _ rest rfl fun first rest h =>
      Rule.outcome_bind _ _ rest rfl fun more rest h =>
        Rule.outcome_bind _ _ rest rfl fun _ rest h =>
          Rule.outcome_bind _ _ rest rfl fun _ rest h => rfl

theorem stmtRule_putcWord (place : Location) (ts : List Token) :
    stmtRule (⟨.putcWord, place⟩ :: ts) =
      (conditionRule .putcWord .putcArgument).bind (fun value =>
        (expectRule .semicolon .putcStatement).bind fun _ => Rule.pure (.putc value)) ts := by
  rw [stmtRule, stmt]
  exact Rule.outcome_bind _ _ ts (outcome_condition _ _ ts) fun value rest h =>
    Rule.outcome_bind _ _ rest rfl fun _ rest h => rfl

theorem stmtRule_leftBrace (place : Location) (ts : List Token) :
    stmtRule (⟨.leftBrace, place⟩ :: ts) =
      stmtsRule.bind (fun body =>
        (expectRule .rightBrace .block).bind fun _ => Rule.pure (.block body)) ts := by
  rw [stmtRule, stmt]
  exact Rule.outcome_bind _ _ ts rfl fun body rest h =>
    Rule.outcome_bind _ _ rest rfl fun _ rest h => rfl

/-- Whether a statement can start with the token. -/
def opensStmt : TokenKind → Bool
  | .semicolon | .identifier _ | .ifWord | .whileWord | .printWord | .putcWord | .leftBrace => true
  | _ => false

theorem stmt_eq_error {ts : List Token} (h : (kinds ts).head?.any opensStmt = false) :
    stmt ts = .error (unexpected .statement ts) := by
  rw [stmt]
  · rintro place ts rfl; cases h
  · rintro name place ts rfl; cases h
  · rintro place ts rfl; cases h
  · rintro place ts rfl; cases h
  · rintro place ts rfl; cases h
  · rintro place ts rfl; cases h
  · rintro place ts rfl; cases h

theorem stmtRule_fail {ts : List Token} (h : (kinds ts).head?.any opensStmt = false) :
    stmtRule ts = ⟨.error .statement, ts⟩ := by
  rw [stmtRule, stmt_eq_error h, outcome_unexpected]

/-- Whether a list of statements ends in front of the tokens. -/
def closesStmts (ks : List TokenKind) : Bool := ks.head?.all (· == .rightBrace)

theorem stmtsRule_stop {ts : List Token} (h : closesStmts (kinds ts) = true) :
    stmtsRule ts = ⟨.ok [], ts⟩ := by
  cases ts with
  | nil => simp [stmtsRule, stmts, outcome]
  | cons t ts =>
    obtain ⟨kind, place⟩ := t
    have hkind : kind = .rightBrace := eq_of_beq h
    subst hkind
    simp [stmtsRule, stmts, outcome]

theorem stmtsRule_cons {ts : List Token} (h : closesStmts (kinds ts) = false) :
    stmtsRule ts =
      stmtRule.bind (fun head => stmtsRule.bind fun tail => Rule.pure (head :: tail)) ts := by
  rw [stmtsRule, stmts]
  · exact Rule.outcome_bind _ _ ts rfl fun head rest h =>
      Rule.outcome_bind _ _ rest rfl fun tail rest h => rfl
  · rintro rfl; cases h
  · rintro place ts rfl; cases h

/-- Induction along the rules for statements (`P`) and lists of statements (`Q`). -/
theorem stmt_induction {P Q : List Token → Prop}
    (semicolon : ∀ place ts, P (⟨.semicolon, place⟩ :: ts))
    (identifier : ∀ name place ts, P (⟨.identifier name, place⟩ :: ts))
    (ifWord : ∀ place ts, (∀ rest, rest.length < ts.length → P rest) → P (⟨.ifWord, place⟩ :: ts))
    (whileWord : ∀ place ts, (∀ rest, rest.length < ts.length → P rest) →
      P (⟨.whileWord, place⟩ :: ts))
    (printWord : ∀ place ts, P (⟨.printWord, place⟩ :: ts))
    (putcWord : ∀ place ts, P (⟨.putcWord, place⟩ :: ts))
    (leftBrace : ∀ place ts, Q ts → P (⟨.leftBrace, place⟩ :: ts))
    (other : ∀ ts, (kinds ts).head?.any opensStmt = false → P ts)
    (stop : ∀ ts, closesStmts (kinds ts) = true → Q ts)
    (more : ∀ ts, closesStmts (kinds ts) = false → P ts →
      (∀ rest, rest.length < ts.length → Q rest) → Q ts) :
    (∀ ts, P ts) ∧ ∀ ts, Q ts := by
  apply stmt.mutual_induct
  case case1 => exact semicolon
  case case2 => exact identifier
  case case3 => exact fun place ts hbody _ => ifWord place ts hbody
  case case4 => exact whileWord
  case case5 => exact printWord
  case case6 => exact putcWord
  case case7 => exact leftBrace
  case case8 =>
    intro ts hsemicolon hidentifier hif hwhile hprint hputc hbrace
    apply other
    cases ts with
    | nil => rfl
    | cons t ts =>
      obtain ⟨kind, place⟩ := t
      cases kind with
      | semicolon => exact absurd rfl (hsemicolon place ts)
      | identifier name => exact absurd rfl (hidentifier name place ts)
      | ifWord => exact absurd rfl (hif place ts)
      | whileWord => exact absurd rfl (hwhile place ts)
      | printWord => exact absurd rfl (hprint place ts)
      | putcWord => exact absurd rfl (hputc place ts)
      | leftBrace => exact absurd rfl (hbrace place ts)
      | _ => rfl
  case case9 => exact stop [] rfl
  case case10 => exact fun place ts => stop _ rfl
  case case11 =>
    intro ts hnil hbrace
    apply more
    cases ts with
    | nil => exact absurd rfl hnil
    | cons t ts =>
      apply beq_eq_false_iff_ne.2
      intro hkind
      obtain ⟨kind, place⟩ := t
      exact hbrace place ts (congrArg (⟨·, place⟩ :: ts) hkind)

end Grammar
end ImpSyntax

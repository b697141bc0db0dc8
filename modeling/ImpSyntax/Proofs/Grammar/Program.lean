import ImpSyntax.Proofs.Grammar.Recast
import ImpSyntax.Proofs.Grammar.Stmt.Completeness
import ImpSyntax.Proofs.Grammar.Stmt.Soundness

/-!
# ImpSyntax.Proofs.Grammar.Program

The rule for whole programs: statements, and the end behind them. It finds exactly what the grammar
derives, and where it fails, the tokens in front could have been the start of a program.

* `program_eq_ok_iff`   — the rule and the grammar agree.
* `rest_of_program`     — nothing is left behind a program.
* `viable_of_program`   — a failure leaves the end of the tokens; those in front of it start some
  program, and it depends on one token more.
* `programRule_of_recast` — texts do not matter to it, but for those in the program found, and
  neither do the kinds of minus (`program_of_recast`) and the places.
* `not_end_of_program`  — no program contains an end of input.
-/

namespace ImpSyntax
namespace Grammar

open Phrase (done seq inhabited_done)

def programRule : Rule Program := fun ts => outcome (program ts)

/-- What comes behind the statements of a program: the end. -/
def endRule (body : List Stmt) : Rule Program := fun ts =>
  if ts.isEmpty then ⟨.ok ⟨body⟩, ts⟩ else ⟨.error .statementOrEnd, ts⟩

theorem programRule_eq : programRule = stmtsRule.bind endRule := by
  funext ts
  rw [programRule, program]
  refine Rule.outcome_bind _ _ ts rfl fun body rest h => ?_
  cases rest <;> rfl

theorem endRule_nil (body : List Stmt) : endRule body [] = ⟨.ok ⟨body⟩, []⟩ := rfl

theorem endRule_fail {ts : List Token} (body : List Stmt) (h : ts ≠ []) :
    endRule body ts = ⟨.error .statementOrEnd, ts⟩ := by
  rw [endRule, if_neg (by simpa using h)]

/-- Behind a program nothing is left. -/
theorem rest_of_program {ts rest : List Token} {p : Program}
    (h : programRule ts = ⟨.ok p, rest⟩) : rest = [] := by
  rw [programRule_eq] at h
  cases hres : (stmtsRule ts).result with
  | ok body =>
    rw [Rule.bind_of_ok endRule hres] at h
    by_cases hrest : (stmtsRule ts).rest = []
    · rw [hrest, endRule_nil] at h
      cases h
      rfl
    · rw [endRule_fail body hrest] at h
      cases h
  | error expected =>
    rw [Rule.bind_of_error endRule hres] at h
    cases h

/-! ## What is read -/

def programPhrase : Phrase Program := fun ks p => DerivesProgram ks p.toTree

theorem reads_end (body : List Stmt) (ts : List Token) :
    Reads (done ⟨body⟩) (endRule body) ts := by
  cases ts with
  | nil =>
    refine Reads.stop fun rest hrest => ?_
    have hnil : rest = [] := by simpa using hrest
    rw [hnil, endRule_nil]
  | cons t ts =>
    refine Reads.fail (inhabited_done _) fun rest hrest => endRule_fail body ?_
    rintro rfl
    cases hrest

theorem reads_program (ts : List Token) : Reads programPhrase programRule ts := by
  rw [programRule_eq]
  have hbind := (reads_stmts ts).bind (fun body => inhabited_done (Program.mk body))
    fun body _ => reads_end body _
  refine hbind.mono ?_
  rintro _ _ ⟨ks, body, _, rfl, hbody, rfl, rfl⟩
  rw [List.append_nil]
  exact .intro hbody

theorem takes_program {ks : List TokenKind} {body : List Stmt}
    (h : Takes stmtsRule EndsStmts ks body) : Takes programRule (· = []) ks ⟨body⟩ := by
  have hend : Takes (endRule body) (· = []) [] ⟨body⟩ := Takes.stop fun rest hrest => by
    rw [List.map_eq_nil_iff.1 hrest, endRule_nil]
  have hall := h.bind endRule hend fun rest hrest => by rw [hrest]; rfl
  rwa [List.append_nil, ← programRule_eq] at hall

theorem program_eq_ok_iff {ts : List Token} {t : Tree} :
    (programRule ts).result.map Program.toTree = .ok t ↔ DerivesProgram (kinds ts) t := by
  constructor
  · intro h
    obtain ⟨taken, hreading⟩ := reads_program ts
    cases hprogram : programRule ts with
    | mk result rest =>
      rw [hprogram] at h
      cases result with
      | ok p =>
        cases h
        have hsplit := hreading.split
        have hvalue := hreading.value p (by rw [hprogram])
        rw [hprogram, rest_of_program hprogram, List.append_nil] at hsplit
        rw [hsplit]
        exact hvalue
      | error expected => cases h
  · rintro ⟨hstmts⟩
    obtain ⟨body, rfl, htakes⟩ := takes_of_derivesStmts hstmts
    have hall := takes_program htakes ts [] rfl rfl
    rw [List.append_nil] at hall
    rw [hall]
    rfl

/-- The tokens that a failed rule took can be completed to a program, and the failure is the same
wherever they are and whatever is behind the first token that was not taken. -/
theorem viable_of_program {ts rest : List Token} {expected : Expected}
    (h : programRule ts = ⟨.error expected, rest⟩) :
    ∃ taken, ts = taken ++ rest ∧ (∃ more t, DerivesProgram (kinds taken ++ more) t) ∧
      ∀ taken' rest', kinds taken' = kinds taken → (kinds rest').head? = (kinds rest).head? →
        programRule (taken' ++ rest') = ⟨.error expected, rest'⟩ := by
  obtain ⟨taken, hreading⟩ := reads_program ts
  obtain ⟨more, p, hmore⟩ := hreading.viable expected (by rw [h])
  have hsplit := hreading.split
  have hlookahead := hreading.lookahead
  rw [h] at hsplit hlookahead
  exact ⟨taken, hsplit, ⟨more, _, hmore⟩, hlookahead⟩

/-! ## What is not looked at -/

theorem mirrors_end (f : String → String) (body : List Stmt) (ts : List Token) :
    Mirrors f (Program.mapText f) (endRule body) (endRule (Stmt.mapTexts f body)) ts := by
  cases ts with
  | nil => exact .ok (endRule_nil body) (endRule_nil _)
  | cons t ts =>
    exact .error (endRule_fail body (List.cons_ne_nil _ _))
      (endRule_fail _ (List.cons_ne_nil _ _))

theorem mirrors_program (f : String → String) (ts : List Token) :
    Mirrors f (Program.mapText f) programRule programRule ts := by
  rw [programRule_eq]
  exact (mirrors_stmts f ts).bind fun body _ => mirrors_end f body _

/-- With the texts kept, the same program is found. -/
theorem programRule_recast (ts : List Token) :
    programRule (ts.map (Token.recast id)) =
      ⟨(programRule ts).result, (programRule ts).rest.map (Token.recast id)⟩ := by
  have hmirrors := mirrors_program id ts
  rw [Mirrors] at hmirrors
  rw [hmirrors]
  cases (programRule ts).result with
  | ok p => rw [Except.map, Program.mapText_id]
  | error expected => rfl

section recast

variable {f : String → String} {ts ts' : List Token}

/-- On tokens with other texts, kinds of minus and places, the program with the other texts is found
or the same is missing, with as many tokens left. -/
theorem programRule_of_recast
    (h : (kinds ts').map (TokenKind.recast id) = (kinds ts).map (TokenKind.recast f)) :
    (programRule ts').result = (programRule ts).result.map (Program.mapText f) ∧
      (programRule ts').rest.length = (programRule ts).rest.length := by
  have hmirrors := mirrors_program f ts
  rw [Mirrors, ← map_recast_eq h, programRule_recast] at hmirrors
  have hlength := congrArg (fun found => found.rest.length) hmirrors
  simp only [List.length_map] at hlength
  exact ⟨congrArg Outcome.result hmirrors, hlength⟩

/-- The kinds of minus and the places are read alike. -/
theorem program_of_recast {p : Program}
    (h : (kinds ts').map (TokenKind.recast id) = (kinds ts).map (TokenKind.recast id))
    (hp : programRule ts = ⟨.ok p, []⟩) : programRule ts' = ⟨.ok p, []⟩ := by
  obtain ⟨hresult, hlength⟩ := programRule_of_recast h
  rw [hp] at hresult hlength
  rw [Except.map, Program.mapText_id] at hresult
  exact Outcome.ext hresult (List.length_eq_zero_iff.1 hlength)

end recast

/-! ## No end of input -/

theorem not_end_of_expr {level : Nat} {ks : List TokenKind} {t : Tree}
    (h : DerivesExpr level ks t) : .endOfInput ∉ ks := by
  induction h with
  | identifier name => simp
  | integer digits => simp
  | parens _ ih => simpa using ih
  | unary hop _ ih => cases hop <;> simpa using ih
  | tighter _ ih => exact ih
  | chain hop _ _ _ ihl ihr => cases hop <;> simpa using ⟨ihl, ihr⟩
  | comparison hop _ _ ihl ihr => cases hop <;> simpa using ⟨ihl, ihr⟩

theorem not_end_of_items {ks : List TokenKind} {ts : List Tree} (h : DerivesItems ks ts) :
    .endOfInput ∉ ks := by
  have hitem : ∀ {ks t}, DerivesItem ks t → .endOfInput ∉ ks := by
    rintro _ _ (text | hexpr)
    · simp
    · exact not_end_of_expr hexpr
  induction h with
  | single h => exact hitem h
  | cons h _ ih => simpa using ⟨hitem h, ih⟩

mutual

theorem not_end_of_stmt {ks : List TokenKind} {t : Tree} (h : DerivesStmt ks t) :
    .endOfInput ∉ ks := by
  match h with
  | .empty => simp
  | .assign name hvalue => simpa using not_end_of_expr hvalue
  | .ifThen htest hbody => simpa using ⟨not_end_of_expr htest, not_end_of_stmt hbody⟩
  | .ifElse htest hbody _ hother =>
    simpa using ⟨not_end_of_expr htest, not_end_of_stmt hbody, not_end_of_stmt hother⟩
  | .whileLoop htest hbody => simpa using ⟨not_end_of_expr htest, not_end_of_stmt hbody⟩
  | .print hitems => simpa using not_end_of_items hitems
  | .putc hvalue => simpa using not_end_of_expr hvalue
  | .block hbody => simpa using not_end_of_stmts hbody

theorem not_end_of_stmts {ks : List TokenKind} {ts : List Tree} (h : DerivesStmts ks ts) :
    .endOfInput ∉ ks := by
  match h with
  | .nil => simp
  | .cons hhead htail => simpa using ⟨not_end_of_stmt hhead, not_end_of_stmts htail⟩

end

theorem not_end_of_program {ks : List TokenKind} {t : Tree} (h : DerivesProgram ks t) :
    .endOfInput ∉ ks := by
  cases h with
  | intro hstmts => exact not_end_of_stmts hstmts

end Grammar
end ImpSyntax

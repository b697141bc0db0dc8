import ImpSyntax.Proofs.TokenStream.ViablePrefix

/-!
# ImpSyntax.Proofs.TokenStream.Session

A stream from which programs are read again and again, also behind errors. It goes on where it
stands, as a stream of the tokens from there on (`resumes_afterPrograms`).

* `Consumes`             — the tokens that one program takes, and what is found.
* `Stands`               — the tokens in front of a stream, and behind its end.
* `stands_afterPrograms` — by induction on the programs, every stream of a session stands in the
  tokens it began with.
-/

namespace ImpSyntax

/-- The index of the first end of input. -/
def endIndex (tokens : List Token) : Nat := (withEnd tokens).findIdx (·.kind = .endOfInput)

namespace TokenStream

/-- The stream behind some programs, whatever errors were met. -/
def afterPrograms (stream : TokenStream) : Nat → TokenStream
  | 0 => stream
  | count + 1 => (stream.afterPrograms count).program.2

/-- The number of tokens in front of a stream. -/
def position (tokens : List Token) (stream : TokenStream) : Nat :=
  endIndex tokens - stream.ahead.length

/-! ## One program -/

/-- A program takes all tokens ahead. A failure leaves the end of them, of which it names the first;
that is ahead then, and the error is at the next token. -/
inductive Consumes (stream : TokenStream) : Except SyntaxError Program × TokenStream → Prop where
  | program (p : Program) : Consumes stream (.ok p, ⟨[], stream.stop⟩)
  | fault {taken rest : List Token} (expected : Grammar.Expected) :
      Grammar.program stream.ahead = .error ⟨expected, rest.head?, rest⟩ →
        stream.ahead = taken ++ rest →
          Consumes stream (.error ⟨expected, (mk rest stream.stop).head.kind,
            (mk rest stream.stop).head.location⟩, ⟨rest, stream.stop⟩)

theorem consumes_program (stream : TokenStream) : Consumes stream stream.program := by
  cases hprogram : Grammar.programRule stream.ahead with
  | mk result rest =>
    cases result with
    | ok p =>
      rw [program_of_ok hprogram, Grammar.rest_of_program hprogram]
      exact .program p
    | error expected =>
      obtain ⟨taken, hahead, -, -⟩ := Grammar.viable_of_program hprogram
      have hfailure := Grammar.eq_error_of_outcome (Grammar.namesNext_program _) hprogram
      rw [program_of_error hprogram]
      exact .fault expected hfailure hahead

/-- The next token behind an error is the one that the error is at. -/
theorem head_of_error {stream : TokenStream} {e : SyntaxError} (h : stream.program.1 = .error e) :
    stream.program.2.head = ⟨e.found, e.location⟩ := by
  have hconsumes := consumes_program stream
  generalize stream.program = found at hconsumes h ⊢
  cases hconsumes with
  | program p => cases h
  | fault expected hfailure hahead =>
    cases h
    rfl

/-- Where nothing is ahead there is an empty program. -/
theorem program_of_exhausted (stop : Location) :
    (mk [] stop).program = (.ok ⟨[]⟩, ⟨[], stop⟩) := by
  have hempty : Grammar.programRule [] = ⟨.ok ⟨[]⟩, []⟩ := by
    rw [Grammar.programRule_eq, Grammar.Rule.bind_ok (Grammar.stmtsRule_stop rfl),
      Grammar.endRule_nil]
  exact program_of_ok hempty

theorem afterPrograms_of_stays {stream : TokenStream} (h : stream.program.2 = stream)
    (count : Nat) : stream.afterPrograms count = stream := by
  induction count with
  | zero => rfl
  | succ count ih => rw [afterPrograms, ih, h]

theorem afterPrograms_of_program {stream : TokenStream} {p : Program}
    (h : stream.program.1 = .ok p) (tokens : List Token) :
    stream.program.2.ahead = [] ∧ stream.program.2.position tokens = endIndex tokens ∧ ∀ count,
      (stream.program.2.afterPrograms count).program = (.ok ⟨[]⟩, stream.program.2) := by
  have hconsumes := consumes_program stream
  generalize stream.program = found at hconsumes h ⊢
  cases hconsumes with
  | program p =>
    refine ⟨rfl, Nat.sub_zero _, fun count => ?_⟩
    have hempty := program_of_exhausted stream.stop
    have hstays : (mk [] stream.stop).program.2 = ⟨[], stream.stop⟩ := by rw [hempty]
    rw [afterPrograms_of_stays hstays, hempty]
  | fault expected hfailure hahead => cases h

/-! ## Sessions -/

/-- What is known of a stream of some tokens. -/
structure Resumes (tokens : List Token) (stream : TokenStream) : Prop where
  /-- The stream is in front of one of the tokens, at the latest of the first end of input. -/
  stands : stream.position tokens ≤ endIndex tokens ∧ endIndex tokens < (withEnd tokens).length ∧
    (withEnd tokens)[stream.position tokens]? = some stream.head
  /-- What is ahead are the tokens from there to the first end of input. -/
  ahead : stream.position tokens + stream.ahead.length = endIndex tokens ∧
    ∃ behind, (withEnd tokens).drop (stream.position tokens) =
      stream.ahead ++ ⟨.endOfInput, stream.stop⟩ :: behind
  /-- It never goes back. -/
  forward : stream.position tokens ≤ stream.program.2.position tokens
  /-- It is the stream of the tokens from there on, and finds what is found in them alone. -/
  fresh : stream = ofTokens ((withEnd tokens).drop (stream.position tokens)) ∧
    stream.program.1 = parse ((withEnd tokens).drop (stream.position tokens))
  /-- Behind a program nothing is ahead: the stream is in front of the first end of input and stays
  there, and all programs to come are empty. -/
  finishes : ∀ p, stream.program.1 = .ok p →
    stream.program.2.ahead = [] ∧ stream.program.2.position tokens = endIndex tokens ∧ ∀ count,
      (stream.program.2.afterPrograms count).program.2 = stream.program.2 ∧
        (stream.program.2.afterPrograms count).program.1.map Program.toTree =
          .ok (.unary .sequence .empty)
  /-- Behind an error the tokens are ahead that the failed rule left, the end of those that were
  ahead before. The next one is the token that the failure names, and the error is at it and names
  it. -/
  faults : ∀ e, stream.program.1 = .error e → ∃ failure token,
    Grammar.program stream.ahead = .error failure ∧ failure.rest <:+ stream.ahead ∧
      stream.program.2 = ⟨failure.rest, stream.stop⟩ ∧
      failure.found.getD ⟨.endOfInput, stream.stop⟩ = token ∧
      (withEnd tokens)[stream.program.2.position tokens]? = some token ∧
      e.location = token.location ∧ e.expected = failure.expected ∧
      e.message = e.expected.text ++ ", found " ++ token.kind.name
  /-- An error in front of which no token is taken is found again and again. -/
  repeats : ∀ e, stream.program.1 = .error e →
    stream.program.2.position tokens = stream.position tokens → ∀ count,
      (stream.afterPrograms count).program = (.error e, stream)

/-- The tokens in front of a stream, and behind the first end of input. -/
structure Stands (tokens passed behind : List Token) (stream : TokenStream) : Prop where
  tokens : withEnd tokens = passed ++ (stream.ahead ++ ⟨.endOfInput, stream.stop⟩ :: behind)
  before : ∀ t ∈ passed ++ stream.ahead, t.kind ≠ .endOfInput

section stands

variable {tokens passed behind : List Token} {stream : TokenStream}

theorem Stands.endIndex (h : Stands tokens passed behind stream) :
    endIndex tokens = passed.length + stream.ahead.length := by
  have hnone : (passed ++ stream.ahead).findIdx (·.kind = .endOfInput) =
      (passed ++ stream.ahead).length :=
    List.findIdx_eq_length_of_false (by simpa using h.before)
  rw [ImpSyntax.endIndex, h.tokens, ← List.append_assoc, List.findIdx_append, hnone,
    if_neg (Nat.lt_irrefl _), List.findIdx_cons]
  simp

theorem Stands.endIndex_lt (h : Stands tokens passed behind stream) :
    ImpSyntax.endIndex tokens < (withEnd tokens).length := by
  have hlength := congrArg List.length h.tokens
  simp only [List.length_append, List.length_cons] at hlength
  have hend := h.endIndex
  omega

theorem Stands.position (h : Stands tokens passed behind stream) :
    stream.position tokens = passed.length := by
  rw [TokenStream.position, h.endIndex, Nat.add_sub_cancel]

theorem Stands.drop (h : Stands tokens passed behind stream) :
    (withEnd tokens).drop (stream.position tokens) =
      stream.ahead ++ ⟨.endOfInput, stream.stop⟩ :: behind := by
  rw [h.position, h.tokens, List.drop_left]

theorem Stands.head (h : Stands tokens passed behind stream) :
    (withEnd tokens)[stream.position tokens]? = some stream.head := by
  rw [← List.head?_drop, h.drop, TokenStream.head]
  cases stream.ahead <;> rfl

theorem Stands.fresh (h : Stands tokens passed behind stream) :
    ofTokens ((withEnd tokens).drop (stream.position tokens)) = stream := by
  have hahead : ∀ t ∈ stream.ahead, t.kind ≠ .endOfInput :=
    fun t ht => h.before t (List.mem_append_right _ ht)
  rw [h.drop, ofTokens_append_stop hahead rfl]

theorem Stands.of_ahead (h : Stands tokens passed behind stream) {taken rest : List Token}
    (hahead : stream.ahead = taken ++ rest) :
    Stands tokens (passed ++ taken) behind ⟨rest, stream.stop⟩ := by
  refine ⟨?_, ?_⟩
  · rw [h.tokens, hahead, List.append_assoc, List.append_assoc]
  · have hbefore := h.before
    rwa [hahead, ← List.append_assoc] at hbefore

theorem Stands.program (h : Stands tokens passed behind stream) :
    ∃ taken, stream.ahead = taken ++ stream.program.2.ahead ∧
      Stands tokens (passed ++ taken) behind stream.program.2 := by
  have hconsumes := consumes_program stream
  generalize stream.program = found at hconsumes ⊢
  cases hconsumes with
  | program p =>
    have hahead := (List.append_nil stream.ahead).symm
    exact ⟨stream.ahead, hahead, h.of_ahead hahead⟩
  | @fault taken rest expected hfailure hahead => exact ⟨taken, hahead, h.of_ahead hahead⟩

theorem stands_ofTokens (tokens : List Token) :
    ∃ behind, Stands tokens [] behind (ofTokens tokens) := by
  obtain ⟨front, ⟨kind, stop⟩, behind, htokens, rfl, hfront⟩ := exists_end tokens
  refine ⟨behind, ?_⟩
  rw [← ofTokens_withEnd, htokens, ofTokens_append_stop hfront rfl]
  exact ⟨htokens, hfront⟩

theorem endIndex_eq (tokens : List Token) : endIndex tokens = (ofTokens tokens).ahead.length := by
  obtain ⟨behind, hstands⟩ := stands_ofTokens tokens
  rw [hstands.endIndex, List.length_nil, Nat.zero_add]

theorem stands_afterPrograms (tokens : List Token) (count : Nat) :
    ∃ passed behind, Stands tokens passed behind ((ofTokens tokens).afterPrograms count) := by
  induction count with
  | zero =>
    obtain ⟨behind, hstands⟩ := stands_ofTokens tokens
    exact ⟨[], behind, hstands⟩
  | succ count ih =>
    obtain ⟨passed, behind, hstands⟩ := ih
    obtain ⟨taken, -, hnext⟩ := hstands.program
    exact ⟨passed ++ taken, behind, hnext⟩

theorem Stands.faults (h : Stands tokens passed behind stream) {e : SyntaxError}
    (he : stream.program.1 = .error e) : ∃ failure token,
      Grammar.program stream.ahead = .error failure ∧ failure.rest <:+ stream.ahead ∧
        stream.program.2 = ⟨failure.rest, stream.stop⟩ ∧
        failure.found.getD ⟨.endOfInput, stream.stop⟩ = token ∧
        (withEnd tokens)[stream.program.2.position tokens]? = some token ∧
        e.location = token.location ∧ e.expected = failure.expected ∧
        e.message = e.expected.text ++ ", found " ++ token.kind.name := by
  obtain ⟨_, -, hnext⟩ := h.program
  have htoken := hnext.head
  have hconsumes := consumes_program stream
  generalize stream.program = found at hconsumes he htoken ⊢
  cases hconsumes with
  | program p => cases he
  | @fault taken rest expected hfailure hahead =>
    cases he
    have hsuffix : rest <:+ stream.ahead := ⟨taken, hahead.symm⟩
    have hnamed := (head_eq ⟨rest, stream.stop⟩).symm
    exact ⟨_, _, hfailure, hsuffix, rfl, hnamed, htoken, rfl, rfl, rfl⟩

theorem Stands.repeats (h : Stands tokens passed behind stream) {e : SyntaxError}
    (he : stream.program.1 = .error e)
    (hposition : stream.program.2.position tokens = stream.position tokens) (count : Nat) :
    (stream.afterPrograms count).program = (.error e, stream) := by
  obtain ⟨taken, hahead, hnext⟩ := h.program
  have htaken : taken = [] := by
    rw [hnext.position, h.position, List.length_append] at hposition
    exact List.length_eq_zero_iff.1 (by omega)
  have hstays : stream.program.2 = stream := by
    have hfresh := hnext.fresh
    rw [hposition, h.fresh] at hfresh
    exact hfresh.symm
  rw [afterPrograms_of_stays hstays]
  exact Prod.ext he hstays

theorem Stands.resumes (h : Stands tokens passed behind stream) : Resumes tokens stream where
  stands := ⟨Nat.sub_le _ _, h.endIndex_lt, h.head⟩
  ahead := ⟨by rw [h.position, h.endIndex], behind, h.drop⟩
  forward := by
    obtain ⟨taken, -, hnext⟩ := h.program
    rw [hnext.position, h.position, List.length_append]
    exact Nat.le_add_right _ _
  fresh := by
    have hfresh := h.fresh
    exact ⟨hfresh.symm, by rw [parse, hfresh]⟩
  finishes := fun p hp => by
    obtain ⟨hahead, hend, hempty⟩ := afterPrograms_of_program hp tokens
    refine ⟨hahead, hend, fun count => ?_⟩
    rw [hempty count]
    exact ⟨rfl, rfl⟩
  faults := fun _ => h.faults
  repeats := fun _ => h.repeats

end stands

/-- However many programs were read from a stream, errors included, it goes on where it stands. -/
theorem resumes_afterPrograms (tokens : List Token) (count : Nat) :
    Resumes tokens ((ofTokens tokens).afterPrograms count) := by
  obtain ⟨passed, behind, hstands⟩ := stands_afterPrograms tokens count
  exact hstands.resumes

/-- A brace that closes nothing is never passed. -/
example :
    ((ofTokens [⟨.semicolon, ⟨1, 1⟩⟩, ⟨.rightBrace, ⟨1, 2⟩⟩, ⟨.semicolon, ⟨1, 3⟩⟩]).afterPrograms
      2).program.1 = .error ⟨.statementOrEnd, .rightBrace, ⟨1, 2⟩⟩ := by
  cbv

end TokenStream
end ImpSyntax

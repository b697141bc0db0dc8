import ImpSyntax.Proofs.Source.Session

/-!
# ImpSyntax.Proofs.Source.Lines

A source text is cut into tokens line by line: what is in front of a line feed has the tokens that
it has alone, and so has what is behind it, only further down (`tokenize_append_line`). Nothing but
the place and the end of an operand goes over from token to token.

* `next_down`, `tokenize_down` — the place of the first character does not matter.
* `tokenize_withOperand`       — an operand in front matters to a minus at the very front only.
* `Finds.beforeLine`           — no token reaches over the line feed.
* `next_line`                  — behind the last token the line feed ends the gap.
-/

namespace ImpSyntax

def Location.down (n : UInt64) (l : Location) : Location := { l with line := l.line + n }

theorem Location.next_down (n : UInt64) (l : Location) (c : Char) :
    (l.down n).next c = (l.next c).down n := by
  unfold next
  split
  · rw [down, down, UInt64.add_assoc, UInt64.add_comm n, UInt64.add_assoc]
  · rfl

theorem Location.after_down (n : UInt64) (l : Location) (text : List Char) :
    (l.down n).after text = (l.after text).down n := by
  induction text generalizing l with
  | nil => rfl
  | cons c text ih => rw [after_cons, next_down, ih, after_cons]

theorem Location.start_after_line (text : List Char) :
    (start.after text).next '\n' = start.down (.ofNat (text.count '\n' + 1)) := by
  have hbehind : start.after text = behind text := (behind_append [] text).symm
  rw [hbehind, next, if_pos rfl, behind, down, UInt64.add_comm]
  rfl

def Token.down (n : UInt64) (token : Token) : Token :=
  { token with location := token.location.down n }

def LexError.down (n : UInt64) (e : LexError) : LexError := { e with location := e.location.down n }

namespace Source

def Cursor.down (n : UInt64) (cursor : Cursor) : Cursor :=
  { cursor with location := cursor.location.down n }

/-! ## Further down -/

namespace Cursor

theorem skipGap_down (n : UInt64) (cursor : Cursor) :
    (cursor.down n).skipGap = cursor.skipGap.down n := by
  simp only [skipGap, down, Location.after_down]

theorem take_down (n : UInt64) (cursor : Cursor) (found : Lexeme) :
    (cursor.down n).take found =
      (((cursor.take found).1.map (Token.down n)).mapError (LexError.down n),
        (cursor.take found).2.down n) := by
  unfold take
  split <;> simp only [down, Location.after_down] <;> rfl

theorem next_down (n : UInt64) (cursor : Cursor) :
    (cursor.down n).next =
      ((cursor.next.1.map (Token.down n)).mapError (LexError.down n), cursor.next.2.down n) := by
  rw [next, next, skipGap_down]
  cases hrest : cursor.skipGap.rest with
  | nil =>
    have hdown : (cursor.skipGap.down n).rest = [] := hrest
    rw [nextLexeme, nextLexeme]
    simp only [hrest, hdown]
    rfl
  | cons c cs =>
    have hdown : (cursor.skipGap.down n).rest = c :: cs := hrest
    rw [nextLexeme, nextLexeme]
    simp only [hrest, hdown]
    exact take_down n cursor.skipGap _

/-- One turn of the loop. -/
theorem tokenize_eq (cursor : Cursor) : cursor.tokenize.1 =
    match cursor.next with
    | (.error e, _) => .error e
    | (.ok token, after) =>
      if token.kind = .endOfInput then .ok [token] else after.tokenize.1.map (token :: ·) := by
  cases hnext : cursor.next with
  | mk found after =>
    cases found with
    | error e => rw [tokenize_of_error hnext]
    | ok token =>
      obtain ⟨kind, place⟩ := token
      by_cases hend : kind = .endOfInput
      · cases hend
        rw [tokenize_of_end hnext]
        rfl
      · rw [tokenize_of_next hnext hend]
        exact (if_neg hend).symm

theorem tokenize_of_next_eq {cursor cursor' : Cursor} (h : cursor.next = cursor'.next) :
    cursor.tokenize.1 = cursor'.tokenize.1 := by
  rw [tokenize_eq, h, ← tokenize_eq]

theorem tokenize_down (n : UInt64) (cursor : Cursor) :
    (cursor.down n).tokenize.1 =
      (cursor.tokenize.1.map (·.map (Token.down n))).mapError (LexError.down n) := by
  have hdown := next_down n cursor
  fun_induction tokenize cursor with
  | case1 cursor e after hnext =>
    rw [hnext] at hdown
    rw [tokenize_of_error hdown]
    rfl
  | case2 cursor token after hnext hend =>
    obtain ⟨kind, place⟩ := token
    cases hend
    rw [hnext] at hdown
    rw [tokenize_of_end hdown]
    rfl
  | case3 cursor token after hnext hend tokens last hrec ih =>
    have hmore := ih (next_down n after)
    rw [hrec] at hmore
    rw [hnext] at hdown
    rw [tokenize_of_next hdown hend, hmore]
    rfl
  | case4 cursor token after hnext hend e last hrec ih =>
    have hmore := ih (next_down n after)
    rw [hrec] at hmore
    rw [hnext] at hdown
    rw [tokenize_of_next hdown hend, hmore]
    rfl

end Cursor

/-! ## Behind an operand or not

Of a cursor, `afterOperand` is read for the next lexeme only: behind any token it is set anew.
-/

def Cursor.withOperand (afterOperand : Bool) (cursor : Cursor) : Cursor :=
  { cursor with afterOperand := afterOperand }

theorem Decodes.withOperand {afterOperand : Bool} {lexeme : List Char} {kind : TokenKind}
    (h : Decodes afterOperand lexeme kind) (afterOperand' : Bool) :
    Decodes afterOperand' lexeme (kind.resolve afterOperand') := by
  cases h with
  | spelling hspellable _ =>
    unfold TokenKind.resolve
    split
    · exact decodes_minus afterOperand'
    · exact decodes_minus afterOperand'
    · rename_i hsubtract hnegate
      refine .spelling hspellable ?_
      unfold TokenKind.resolve
      split
      · exact absurd rfl hsubtract
      · exact absurd rfl hnegate
      · rfl
  | character hquote hslash => exact .character hquote hslash
  | lineFeed => exact .lineFeed
  | backslash => exact .backslash

theorem Step.withOperand {cursor after : Cursor} {token : Token} (h : Step cursor token after)
    (afterOperand : Bool) :
    Step (cursor.withOperand afterOperand) ⟨token.kind.resolve afterOperand, token.location⟩
      after := by
  cases h with
  | last hgap => exact .last hgap
  | @lexeme gap lexeme rest kind hrest hgap hne hdecodes hmaximal =>
    have hstep : Step (cursor.withOperand afterOperand) _ _ :=
      .lexeme hrest hgap hne (hdecodes.withOperand afterOperand) hmaximal
    rwa [TokenKind.endsOperand_resolve] at hstep

theorem scan_of_error {afterOperand : Bool} {c : Char} {cs : List Char} {fault : LexFault}
    (h : (Lexeme.scan afterOperand c cs).outcome = .error fault) (afterOperand' : Bool) :
    Lexeme.scan afterOperand' c cs = Lexeme.scan afterOperand c cs := by
  unfold Lexeme.scan at h ⊢
  cases hlead : Lead.of c with
  | minus =>
    rw [hlead] at h
    cases h
  | _ => rfl

theorem next_of_error {cursor after : Cursor} {e : LexError} (h : cursor.next = (.error e, after))
    (afterOperand : Bool) : (cursor.withOperand afterOperand).next.1 = .error e := by
  have hskip : (cursor.withOperand afterOperand).skipGap =
      cursor.skipGap.withOperand afterOperand := rfl
  rw [Cursor.next, Cursor.nextLexeme] at h
  rw [Cursor.next, hskip, Cursor.nextLexeme, Cursor.withOperand]
  split at h
  · cases h
  · rename_i c cs hrest
    simp only [hrest]
    rw [Cursor.take] at h
    split at h
    · cases h
    · rename_i fault hfault
      cases h
      rw [scan_of_error hfault, Cursor.take, hfault]

/-- The tokens of a text, the first one with the kind that it has behind an operand or not. -/
def resolveFirst (afterOperand : Bool) : List Token → List Token
  | [] => []
  | token :: tokens => ⟨token.kind.resolve afterOperand, token.location⟩ :: tokens

theorem tokenize_withOperand (cursor : Cursor) (afterOperand : Bool) :
    (cursor.withOperand afterOperand).tokenize.1 =
      cursor.tokenize.1.map (resolveFirst afterOperand) := by
  rw [Cursor.tokenize_eq, Cursor.tokenize_eq cursor]
  cases hnext : cursor.next with
  | mk found after =>
    cases found with
    | error e =>
      have herror : (cursor.withOperand afterOperand).next = (.error e, _) :=
        Prod.ext (next_of_error hnext afterOperand) rfl
      rw [herror]
      rfl
    | ok token =>
      rw [next_of_step ((step_of_next hnext).withOperand afterOperand)]
      simp only [TokenKind.resolve_eq_end]
      split
      · rfl
      · cases after.tokenize.1 <;> rfl

/-! ## In front of a line feed -/

def Cursor.before (cursor : Cursor) (more : List Char) : Cursor :=
  { cursor with rest := cursor.rest ++ more }

theorem Maximal.beforeLine {lexeme rest : List Char} (h : Maximal lexeme rest)
    (more : List Char) : Maximal lexeme (rest ++ '\n' :: more) := by
  cases rest with
  | nil =>
    -- a line feed is white space, which belongs to no lexeme
    have hseparated : Separated ('\n' :: more) := by
      intro c hc
      cases hc
      rfl
    exact hseparated.maximal lexeme
  | cons c cs => exact ⟨h.word, h.mark, h.slash⟩

theorem Finds.beforeLine {cursor last : Cursor} {tokens : List Token}
    (h : Finds cursor tokens last) (more : List Char) :
    Finds (cursor.before ('\n' :: more)) tokens (last.before ('\n' :: more)) := by
  induction h with
  | nil => exact .nil
  | @cons cursor after last token tokens hnext hend _ ih =>
    cases step_of_next hnext with
    | last _ => exact absurd rfl hend
    | @lexeme gap lexeme rest kind hrest hgap hne hdecodes hmaximal =>
      have hstep : Step (cursor.before ('\n' :: more)) _ _ :=
        .lexeme (by simp [Cursor.before, hrest]) hgap hne hdecodes (hmaximal.beforeLine more)
      exact .cons (next_of_step hstep) hend ih

theorem Finds.afterOperand {cursor last : Cursor} {tokens : List Token}
    (h : Finds cursor tokens last) : last.afterOperand =
      (tokens.getLast?.map (·.kind.endsOperand)).getD cursor.afterOperand := by
  induction h with
  | nil => rfl
  | @cons cursor after last token tokens hnext hend _ ih =>
    cases step_of_next hnext with
    | last _ => exact absurd rfl hend
    | lexeme _ _ _ _ _ =>
      rw [ih, List.getLast?_cons]
      cases tokens.getLast? <;> rfl

/-- A line feed ends a line comment, and anywhere else it is white space. -/
theorem LastGap.beforeLine {gap : List Char} (h : LastGap gap) : ClosedGap (gap ++ ['\n']) := by
  cases h with
  | closed hgap => exact hgap.append (.item (.whiteSpace rfl))
  | lineComment hgap hbody =>
    rw [List.append_assoc]
    exact hgap.append (.item (.lineComment hbody))

theorem next_line {cursor : Cursor} (h : LastGap cursor.rest) (more : List Char) :
    (cursor.before ('\n' :: more)).next =
      (Cursor.mk more ((cursor.location.after cursor.rest).next '\n')
        cursor.afterOperand).next := by
  have hgap := splitGap_closed h.beforeLine more
  rw [List.append_assoc, List.singleton_append] at hgap
  rw [Cursor.next, Cursor.next]
  simp only [Cursor.skipGap, Cursor.before, hgap, Location.after_append, Location.after_cons,
    Location.after_nil]

/-! ## Two texts -/

/-- Whether a minus behind the tokens subtracts. -/
def endInOperand (tokens : List Token) : Bool := tokens.getLast?.any (·.kind.endsOperand)

/-- The tokens of two texts, one behind the other. A minus that the second text starts with may have
an operand in front of it now. -/
def joinTokens (front : List Token) : List Token → List Token
  | ⟨.negate, place⟩ :: behind =>
    front ++ ⟨if endInOperand front then .subtract else .negate, place⟩ :: behind
  | behind => front ++ behind

theorem resolveFirst_of_tokenize {cursor : Cursor} {tokens : List Token}
    (h : cursor.tokenize.1 = .ok tokens) : resolveFirst cursor.afterOperand tokens = tokens := by
  have hsame := tokenize_withOperand cursor cursor.afterOperand
  have hcursor : cursor.withOperand cursor.afterOperand = cursor := rfl
  rw [hcursor, h] at hsame
  exact (Except.ok.inj hsame).symm

theorem joinTokens_eq {behind : List Token} (h : resolveFirst false behind = behind)
    (front : List Token) :
    joinTokens front behind = front ++ resolveFirst (endInOperand front) behind := by
  cases behind with
  | nil => rfl
  | cons token behind =>
    obtain ⟨kind, place⟩ := token
    cases kind with
    | subtract => cases h
    | _ => rfl

/-- Where the tokens of a text end and a line feed follows, the next text starts as if it stood
alone, but for its place and an operand in front. -/
theorem tokenize_last_line {text : List Char} {last : Cursor} {tokens : List Token}
    (hfinds : Finds (.ofText text) tokens last) (hgap : LastGap last.rest) (more : List Char) :
    (last.before ('\n' :: more)).tokenize.1 =
      (((Cursor.ofText more).down (.ofNat (text.count '\n' + 1))).withOperand
        (endInOperand tokens)).tokenize.1 := by
  obtain ⟨piece, hpiece⟩ := passes_finds hfinds
  have hplace : (last.location.after last.rest).next '\n' =
      Location.start.down (.ofNat (text.count '\n' + 1)) := by
    rw [hpiece.location, ← Location.after_append, ← hpiece.text]
    exact Location.start_after_line text
  have hoperand : last.afterOperand = endInOperand tokens := by
    rw [hfinds.afterOperand, endInOperand]
    cases tokens.getLast? <;> rfl
  rw [Cursor.tokenize_of_next_eq (next_line hgap more), hplace, hoperand]
  rfl

theorem tokenize_line {s : String} {front : List Token} {stop : Location}
    (h : tokenize s = .ok (front ++ [⟨.endOfInput, stop⟩])) (t : String) :
    tokenize (s ++ "\n" ++ t) =
      (((Cursor.ofText t.toList).down (.ofNat (s.toList.count '\n' + 1))).withOperand
        (endInOperand front)).tokenize.1.map (front ++ ·) := by
  obtain ⟨tokens, last, hfinds, hleaves⟩ := finds_of_tokenize (Cursor.ofText s.toList)
  have hbefore : Cursor.ofText (s ++ "\n" ++ t).toList =
      (Cursor.ofText s.toList).before ('\n' :: t.toList) := by
    simp [Cursor.ofText, Cursor.before]
  unfold tokenize at h ⊢
  rw [hbefore, (hfinds.beforeLine t.toList).tokenize]
  generalize (Cursor.ofText s.toList).tokenize = found at h hleaves
  cases hleaves with
  | fault _ => cases h
  | stop hstop =>
    have hfront : tokens = front := List.append_inj_left' (Except.ok.inj h) rfl
    cases step_of_next hstop with
    | last hgap => rw [tokenize_last_line hfinds hgap, hfront]
    | lexeme _ _ _ hdecodes _ => exact absurd rfl hdecodes.ne_end

/-- Lines of a source text compose. -/
theorem tokenize_append_line {s : String} {front : List Token} {stop : Location}
    (h : tokenize s = .ok (front ++ [⟨.endOfInput, stop⟩])) (t : String) :
    (∀ behind, tokenize t = .ok behind → tokenize (s ++ "\n" ++ t) =
      .ok (joinTokens front (behind.map (Token.down (.ofNat (s.toList.count '\n' + 1)))))) ∧
    ∀ e, tokenize t = .error e → tokenize (s ++ "\n" ++ t) =
      .error (e.down (.ofNat (s.toList.count '\n' + 1))) := by
  have hline := tokenize_line h t
  have hdown := Cursor.tokenize_down (.ofNat (s.toList.count '\n' + 1)) (Cursor.ofText t.toList)
  refine ⟨fun behind hbehind => ?_, fun e herror => ?_⟩
  · rw [tokenize] at hbehind
    rw [hbehind] at hdown
    rw [hline, tokenize_withOperand, hdown, joinTokens_eq (resolveFirst_of_tokenize hdown)]
    rfl
  · rw [tokenize] at herror
    rw [herror] at hdown
    rw [hline, tokenize_withOperand, hdown]
    rfl

/-- A line comment is open at the end of the first text, and the operand in front of it is that of
the minus in the second. -/
theorem tokenize_append_line_minus :
    tokenize ("a // b" ++ "\n" ++ "-1 - \"") = .error ⟨.unterminatedString, ⟨2, 6⟩⟩ ∧
      tokenize ("a // b" ++ "\n" ++ "- -1") = .ok [⟨.identifier "a", ⟨1, 1⟩⟩,
        ⟨.subtract, ⟨2, 1⟩⟩, ⟨.negate, ⟨2, 3⟩⟩, ⟨.integer "1", ⟨2, 4⟩⟩, ⟨.endOfInput, ⟨2, 5⟩⟩] := by
  have h : tokenize "a // b" = .ok ([⟨.identifier "a", ⟨1, 1⟩⟩] ++ [⟨.endOfInput, ⟨1, 7⟩⟩]) := by
    decide +kernel
  have hcount : "a // b".toList.count '\n' = 0 := by decide +kernel
  refine ⟨?_, ?_⟩
  · have herror : tokenize "-1 - \"" = .error ⟨.unterminatedString, ⟨1, 6⟩⟩ := by decide +kernel
    rw [(tokenize_append_line h _).2 _ herror, hcount]
    rfl
  · have hbehind : tokenize "- -1" = .ok [⟨.negate, ⟨1, 1⟩⟩, ⟨.negate, ⟨1, 3⟩⟩,
        ⟨.integer "1", ⟨1, 4⟩⟩, ⟨.endOfInput, ⟨1, 5⟩⟩] := by decide +kernel
    rw [(tokenize_append_line h _).1 _ hbehind, hcount]
    rfl

end Source
end ImpSyntax

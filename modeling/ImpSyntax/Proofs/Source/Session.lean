import ImpSyntax.Proofs.Source.Run
import Mathlib.Control.Monad.Basic

/-!
# ImpSyntax.Proofs.Source.Session

A cursor that is used again and again, also behind errors. What is known of it does not depend on
the calls that led to where it is (`Sound`).

* `Passes`            — the text that a call passes, and the places of what it finds there.
* `passes_next`       — one token; `passes_call` and `passes_afterCalls` follow by induction.
* `call_of_exhausted` — behind the end of input nothing moves.
* `sound_afterCalls`  — every cursor of a session is sound.
-/

namespace ImpSyntax

namespace Source

/-- The two ways to use a cursor. -/
inductive Call where
  | next
  | tokenize
  deriving DecidableEq, Repr

namespace Cursor

/-- What is found, and the cursor behind it. -/
def call (cursor : Cursor) : Call → Except LexError (List Token) × Cursor
  | .next => (cursor.next.1.map fun token => [token], cursor.next.2)
  | .tokenize => cursor.tokenize

/-- The cursor behind some calls, whatever they found. -/
def afterCalls (cursor : Cursor) (calls : List Call) : Cursor :=
  calls.foldl (fun cursor call => (cursor.call call).2) cursor

/-- The number of characters in front of a cursor in the text. -/
def offset (text : List Char) (cursor : Cursor) : Nat := text.length - cursor.rest.length

theorem afterCalls_cons (cursor : Cursor) (call : Call) (calls : List Call) :
    cursor.afterCalls (call :: calls) = (cursor.call call).2.afterCalls calls := rfl

end Cursor

/-- The places of the tokens that are found, or of the error. -/
def placesOf : Except LexError (List Token) → List Location
  | .ok tokens => tokens.map (·.location)
  | .error e => [e.location]

/-! ## The text that a call passes -/

/-- From the cursor to the one behind, `piece` is passed, and the places are in it or at its
ends. -/
structure Passes (cursor : Cursor) (piece : List Char) (places : List Location)
    (behind : Cursor) : Prop where
  text : cursor.rest = piece ++ behind.rest
  location : behind.location = cursor.location.after piece
  places : ∀ place ∈ places, ∃ front, front <+: piece ∧ place = cursor.location.after front

theorem Passes.nothing (cursor : Cursor) : Passes cursor [] [] cursor :=
  ⟨rfl, rfl, fun _ hplace => by cases hplace⟩

theorem Passes.trans {cursor middle last : Cursor} {piece piece' : List Char}
    {places places' : List Location} (h : Passes cursor piece places middle)
    (h' : Passes middle piece' places' last) :
    Passes cursor (piece ++ piece') (places ++ places') last := by
  refine ⟨?_, ?_, fun place hplace => ?_⟩
  · rw [h.text, h'.text, List.append_assoc]
  · rw [h'.location, h.location, Location.after_append]
  · rcases List.mem_append.mp hplace with hfirst | hsecond
    · obtain ⟨front, hfront, rfl⟩ := h.places place hfirst
      exact ⟨front, hfront.trans (List.prefix_append _ _), rfl⟩
    · obtain ⟨front, hfront, rfl⟩ := h'.places place hsecond
      refine ⟨piece ++ front, (List.prefix_append_right_inj piece).mpr hfront, ?_⟩
      rw [h.location, Location.after_append]

theorem Passes.of_subset {cursor behind : Cursor} {piece : List Char}
    {places places' : List Location} (h : Passes cursor piece places behind)
    (hsubset : places' ⊆ places) : Passes cursor piece places' behind :=
  ⟨h.text, h.location, fun place hplace => h.places place (hsubset hplace)⟩

theorem Cursor.take_location (cursor : Cursor) (found : Lexeme) :
    (cursor.take found).2.location = cursor.location.after found.lexeme := by
  unfold take
  split <;> rfl

theorem Cursor.placesOf_take (cursor : Cursor) (found : Lexeme) :
    placesOf ((cursor.take found).1.map fun token => [token]) = [cursor.location] := by
  unfold take
  split <;> rfl

/-- A lexeme is passed with the gap in front of it, and its first character is the place of the
token or the error. -/
theorem passes_next (cursor : Cursor) :
    ∃ piece, Passes cursor piece (placesOf (cursor.call .next).1) cursor.next.2 := by
  rw [Cursor.call]
  rcases next_cases cursor with ⟨_, hnext⟩ | ⟨gap, c, cs, hrest, _, _, hnext⟩
  · refine ⟨cursor.rest, ?_⟩
    rw [hnext]
    refine ⟨(List.append_nil _).symm, rfl, fun place hplace => ?_⟩
    cases List.mem_singleton.mp hplace
    exact ⟨cursor.rest, List.prefix_rfl, rfl⟩
  · have hscan := Lexeme.scan_append cursor.afterOperand c cs
    refine ⟨gap ++ (Lexeme.scan cursor.afterOperand c cs).lexeme, ?_⟩
    rw [hnext]
    refine ⟨?_, ?_, fun place hplace => ?_⟩
    · rw [Cursor.take_rest, List.append_assoc, hscan, hrest]
    · rw [Cursor.take_location, Location.after_append]
    · rw [Cursor.placesOf_take, List.mem_singleton] at hplace
      exact ⟨gap, List.prefix_append _ _, hplace⟩

theorem passes_finds {cursor last : Cursor} {tokens : List Token} (h : Finds cursor tokens last) :
    ∃ piece, Passes cursor piece (tokens.map (·.location)) last := by
  induction h with
  | nil => exact ⟨[], .nothing _⟩
  | @cons cursor after last token tokens hnext _ _ ih =>
    obtain ⟨piece, hpiece⟩ := passes_next cursor
    obtain ⟨more, hmore⟩ := ih
    simp only [Cursor.call, hnext] at hpiece
    exact ⟨piece ++ more, hpiece.trans hmore⟩

theorem passes_call (cursor : Cursor) (call : Call) :
    ∃ piece, Passes cursor piece (placesOf (cursor.call call).1) (cursor.call call).2 := by
  cases call with
  | next => exact passes_next cursor
  | tokenize =>
    obtain ⟨tokens, last, hfinds, hleaves⟩ := finds_of_tokenize cursor
    obtain ⟨piece, hpiece⟩ := passes_finds hfinds
    obtain ⟨more, hmore⟩ := passes_next last
    have hall := hpiece.trans hmore
    refine ⟨piece ++ more, ?_⟩
    rw [Cursor.call]
    generalize cursor.tokenize = found at hleaves ⊢
    cases hleaves with
    | stop hstop =>
      simp only [Cursor.call, hstop] at hall
      simpa [placesOf, Except.map] using hall
    | fault hfault =>
      simp only [Cursor.call, hfault] at hall
      exact hall.of_subset (List.subset_append_right _ _)

theorem passes_afterCalls (cursor : Cursor) (calls : List Call) :
    ∃ piece places, Passes cursor piece places (cursor.afterCalls calls) := by
  induction calls generalizing cursor with
  | nil => exact ⟨[], [], .nothing cursor⟩
  | cons call calls ih =>
    obtain ⟨piece, hpiece⟩ := passes_call cursor call
    obtain ⟨more, places, hmore⟩ := ih (cursor.call call).2
    exact ⟨piece ++ more, _, hpiece.trans hmore⟩

/-! ## The end of input -/

theorem exhausted_of_next {cursor after : Cursor} {token : Token}
    (h : cursor.next = (.ok token, after)) (hend : token.kind = .endOfInput) :
    token = ⟨.endOfInput, after.location⟩ ∧ after = ⟨[], after.location, false⟩ := by
  cases step_of_next h with
  | last _ => exact ⟨rfl, rfl⟩
  | lexeme _ _ _ hdecodes _ => exact absurd hend hdecodes.ne_end

theorem call_of_exhausted (place : Location) (call : Call) :
    (Cursor.mk [] place false).call call = (.ok [⟨.endOfInput, place⟩], ⟨[], place, false⟩) := by
  have hnext : (Cursor.mk [] place false).next =
      (.ok ⟨.endOfInput, place⟩, ⟨[], place, false⟩) :=
    Cursor.next_of_end (splitGap_of_none rfl)
  cases call with
  | next => rw [Cursor.call, hnext]; rfl
  | tokenize => rw [Cursor.call, Cursor.tokenize_of_end hnext]

theorem afterCalls_of_exhausted (place : Location) (calls : List Call) :
    (Cursor.mk [] place false).afterCalls calls = ⟨[], place, false⟩ := by
  induction calls with
  | nil => rfl
  | cons call calls ih => rw [Cursor.afterCalls_cons, call_of_exhausted, ih]

/-- An end of input is the last thing that is found, by either way to use the cursor. -/
theorem exhausted_of_call {cursor : Cursor} {call : Call} {tokens : List Token} {stop : Token}
    (h : (cursor.call call).1 = .ok tokens) (hmem : stop ∈ tokens)
    (hend : stop.kind = .endOfInput) :
    stop = ⟨.endOfInput, (cursor.call call).2.location⟩ ∧
      (cursor.call call).2 = ⟨[], (cursor.call call).2.location, false⟩ := by
  cases call with
  | next =>
    simp only [Cursor.call] at h ⊢
    cases hnext : cursor.next with
    | mk found after =>
      rw [hnext] at h
      cases found with
      | error e => cases h
      | ok token =>
        cases h
        cases List.mem_singleton.mp hmem
        exact exhausted_of_next hnext hend
  | tokenize =>
    obtain ⟨front, last, hfinds, hleaves⟩ := finds_of_tokenize cursor
    simp only [Cursor.call] at h ⊢
    generalize cursor.tokenize = found at h hleaves ⊢
    cases hleaves with
    | stop hstop =>
      cases h
      rcases List.mem_append.mp hmem with hfront | hlast
      · exact absurd hend (hfinds.ne_end stop hfront)
      · cases List.mem_singleton.mp hlast
        exact exhausted_of_next hstop rfl
    | fault hfault => cases h

/-- Whatever is found on the way, the end of input is found as soon as the text is used up. -/
theorem exists_end_of_input (cursor : Cursor) : ∃ k, k ≤ cursor.rest.length ∧
    ∃ place, (cursor.afterCalls (List.replicate k .next)).next.1 = .ok ⟨.endOfInput, place⟩ := by
  induction hlength : cursor.rest.length using Nat.strongRecOn generalizing cursor with
  | _ n ih =>
    rcases cursor.next_length with ⟨place, hend⟩ | hlt
    · exact ⟨0, Nat.zero_le n, place, hend⟩
    · obtain ⟨k, hk, place, hend⟩ := ih _ (hlength ▸ hlt) cursor.next.2 rfl
      refine ⟨k + 1, by omega, place, ?_⟩
      rw [List.replicate_succ, Cursor.afterCalls_cons]
      exact hend

/-! ## Sessions -/

/-- What is known of a cursor in a text. -/
structure Sound (text : List Char) (cursor : Cursor) : Prop where
  /-- The cursor is in the text, and has the line and the column of its offset there. -/
  stands : cursor.offset text ≤ text.length ∧ cursor.rest = text.drop (cursor.offset text) ∧
    cursor.location = .behind (text.take (cursor.offset text))
  /-- Tokens and errors have the place of an offset that the call passes. -/
  places : ∀ call, ∀ place ∈ placesOf (cursor.call call).1, ∃ k,
    cursor.offset text ≤ k ∧ k ≤ (cursor.call call).2.offset text ∧
      place = .behind (text.take k)
  /-- A token passes text, and so does an error. -/
  progress : cursor.next.1.map Token.kind ≠ .ok .endOfInput →
    cursor.offset text < cursor.next.2.offset text
  /-- All tokens ahead are found one by one, and they are not more than the characters. -/
  ends : ∃ tokens last, tokens.length ≤ text.length ∧ Finds cursor tokens last ∧
    Leaves tokens last cursor.tokenize
  /-- Token by token, whatever errors are met, the end of input is found at the end. -/
  exhausts : ∃ k, k ≤ text.length ∧
    (cursor.afterCalls (List.replicate k .next)).next.1 = .ok ⟨.endOfInput, .behind text⟩
  /-- Behind an end of input, every call finds this very token, and the cursor stays. -/
  stays : ∀ call tokens stop, (cursor.call call).1 = .ok tokens → stop ∈ tokens →
    stop.kind = .endOfInput → stop.location = .behind text ∧ ∀ calls again,
      ((cursor.call call).2.afterCalls calls).call again = (.ok [stop], (cursor.call call).2)

/-- The text in front of a cursor. -/
structure Stands (text front : List Char) (cursor : Cursor) : Prop where
  text : text = front ++ cursor.rest
  location : cursor.location = .behind front

section stands

variable {text front : List Char} {cursor : Cursor}

theorem Stands.offset (h : Stands text front cursor) : cursor.offset text = front.length := by
  rw [Cursor.offset, h.text, List.length_append, Nat.add_sub_cancel]

theorem Stands.of_passes (h : Stands text front cursor) {behind : Cursor} {piece : List Char}
    {places : List Location} (hpiece : Passes cursor piece places behind) :
    Stands text (front ++ piece) behind := by
  refine ⟨?_, ?_⟩
  · rw [h.text, hpiece.text, List.append_assoc]
  · rw [hpiece.location, h.location, Location.behind_append]

theorem stands_afterCalls (text : List Char) (calls : List Call) :
    ∃ front, Stands text front ((Cursor.ofText text).afterCalls calls) := by
  obtain ⟨piece, places, hpiece⟩ := passes_afterCalls (Cursor.ofText text) calls
  have hstart : Stands text [] (Cursor.ofText text) := ⟨rfl, rfl⟩
  exact ⟨[] ++ piece, hstart.of_passes hpiece⟩

theorem Stands.places (h : Stands text front cursor) (call : Call) {place : Location}
    (hplace : place ∈ placesOf (cursor.call call).1) : ∃ k, cursor.offset text ≤ k ∧
      k ≤ (cursor.call call).2.offset text ∧ place = .behind (text.take k) := by
  obtain ⟨piece, hpiece⟩ := passes_call cursor call
  obtain ⟨first, ⟨second, rfl⟩, rfl⟩ := hpiece.places place hplace
  have htext : text = front ++ first ++ (second ++ (cursor.call call).2.rest) := by
    rw [h.text, hpiece.text]
    simp
  refine ⟨(front ++ first).length, ?_, ?_, ?_⟩
  · rw [h.offset, List.length_append]
    omega
  · rw [(h.of_passes hpiece).offset]
    simp only [List.length_append]
    omega
  · rw [htext, List.take_left, Location.behind_append, h.location]

theorem Stands.progress (h : Stands text front cursor)
    (hend : cursor.next.1.map Token.kind ≠ .ok .endOfInput) :
    cursor.offset text < cursor.next.2.offset text := by
  have hlength : cursor.rest.length ≤ text.length := by
    rw [h.text, List.length_append]
    omega
  rcases cursor.next_length with ⟨place, hstop⟩ | hlt
  · rw [hstop] at hend
    exact absurd rfl hend
  · simp only [Cursor.offset]
    omega

/-- Where nothing is ahead, the place is that of the end of the text. -/
theorem Stands.location_of_exhausted (h : Stands text front cursor) (hrest : cursor.rest = []) :
    cursor.location = .behind text := by
  rw [h.location, h.text, hrest, List.append_nil]

/-- An end of input that a call finds is at the end of the text. -/
theorem Stands.exhausted (h : Stands text front cursor) {call : Call} {tokens : List Token}
    {stop : Token} (hcall : (cursor.call call).1 = .ok tokens) (hmem : stop ∈ tokens)
    (hend : stop.kind = .endOfInput) :
    stop = ⟨.endOfInput, .behind text⟩ ∧
      (cursor.call call).2 = ⟨[], .behind text, false⟩ := by
  obtain ⟨piece, hpiece⟩ := passes_call cursor call
  obtain ⟨hstop, hafter⟩ := exhausted_of_call hcall hmem hend
  have hrest : (cursor.call call).2.rest = [] := by rw [hafter]
  have hplace := (h.of_passes hpiece).location_of_exhausted hrest
  rw [hplace] at hstop hafter
  exact ⟨hstop, hafter⟩

theorem Stands.sound (h : Stands text front cursor) : Sound text cursor where
  stands := by
    have hdrop : text.drop front.length = cursor.rest := by rw [h.text, List.drop_left]
    have htake : text.take front.length = front := by rw [h.text, List.take_left]
    refine ⟨Nat.sub_le _ _, ?_, ?_⟩
    · rw [h.offset, hdrop]
    · rw [h.offset, htake, h.location]
  places := fun call _ hplace => h.places call hplace
  progress := h.progress
  ends := by
    obtain ⟨tokens, last, hfinds, hleaves⟩ := finds_of_tokenize cursor
    have hlength := hfinds.length_le
    have htext := congrArg List.length h.text
    rw [List.length_append] at htext
    exact ⟨tokens, last, by omega, hfinds, hleaves⟩
  exhausts := by
    obtain ⟨k, hk, place, hend⟩ := exists_end_of_input cursor
    have htext := congrArg List.length h.text
    rw [List.length_append] at htext
    obtain ⟨piece, places, hpiece⟩ := passes_afterCalls cursor (List.replicate k .next)
    have hcall : ((cursor.afterCalls (List.replicate k .next)).call .next).1 =
        .ok [⟨.endOfInput, place⟩] := by
      rw [Cursor.call, hend]
      rfl
    obtain ⟨hstop, _⟩ := (h.of_passes hpiece).exhausted hcall (List.mem_singleton_self _) rfl
    cases hstop
    exact ⟨k, by omega, hend⟩
  stays := by
    intro call tokens stop hcall hmem hend
    obtain ⟨rfl, hafter⟩ := h.exhausted hcall hmem hend
    refine ⟨rfl, fun calls again => ?_⟩
    rw [hafter, afterCalls_of_exhausted, call_of_exhausted]

end stands

/-- Whatever calls a cursor has seen, errors included, it is sound. -/
theorem sound_afterCalls (source : String) (calls : List Call) :
    Sound source.toList ((Cursor.ofText source.toList).afterCalls calls) := by
  obtain ⟨front, hstands⟩ := stands_afterCalls source.toList calls
  exact hstands.sound

/-- A session goes on behind the errors of a lone ampersand and of a quote at the end. -/
example :
    ((Cursor.ofText "&b'".toList).afterCalls [.tokenize, .next, .next]).next.1 =
      .ok ⟨.endOfInput, ⟨1, 4⟩⟩ := by
  decide +kernel

end Source
end ImpSyntax

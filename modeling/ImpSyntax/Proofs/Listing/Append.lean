import ImpSyntax.Proofs.Listing.Reread

/-!
# ImpSyntax.Proofs.Listing.Append

Two listings, one below the other, read as the tokens of the one and then those of the other. An
entry depends on its own lines alone, and of the numbers of the lines only an error tells.

* `readEntry_split`      — an entry has lines of its own, and reads alike in front of any others.
* `readEntry_fault`      — a fault is one of a single line, unless a string is not closed.
* `readEntry_down`       — the numbers of the lines do not matter.
* `readRows_append`, `readRows_error_append` — by induction on the entries above.
* `readRows_error_split` — above an error there are whole entries.
* `readListing_append`   — the two listings.
-/

namespace ImpSyntax

/-- The same error, further down by some lines. -/
def ListingError.down (n : UInt64) (e : ListingError) : ListingError :=
  { e with line := e.line + n }

namespace Listing

def Row.down (n : UInt64) (row : Row) : Row := { row with number := row.number + n }

/-! ## An entry among other lines -/

theorem closeString?_split {text content : List Char} {rows rest : List Row}
    (h : closeString? text rows = some (content, rest)) :
    ∃ used, rows = used ++ rest ∧
      ∀ more, closeString? text (used ++ more) = some (content, more) := by
  fun_induction closeString? text rows with
  | case1 text hclose =>
    cases h
    exact ⟨[], rfl, fun more => closeString?_of_closesString more hclose⟩
  | case2 => cases h
  | case3 text row rows hclose =>
    cases h
    exact ⟨[], rfl, fun more => closeString?_of_closesString more hclose⟩
  | case4 text row rows hclose ih =>
    obtain ⟨used, rfl, hused⟩ := ih h
    refine ⟨row :: used, rfl, fun more => ?_⟩
    rw [List.cons_append, closeString?, if_neg hclose, hused]

theorem readText_of_ne {kindName : List Char} (h : kindName ≠ "String".toList) (tail : List Char)
    (rows : List Row) : readText kindName tail rows = .ok (trim tail, rows) := if_neg h

theorem readText_split {kindName tail text : List Char} {rows rest : List Row}
    (h : readText kindName tail rows = .ok (text, rest)) :
    ∃ used, rows = used ++ rest ∧
      ∀ more, readText kindName tail (used ++ more) = .ok (text, more) := by
  by_cases hname : kindName = "String".toList
  · rw [readText, if_pos hname] at h
    split at h
    · rename_i htrim
      split at h
      · rename_i hclose
        cases h
        obtain ⟨used, hrows, hused⟩ := closeString?_split hclose
        exact ⟨used, hrows, fun more => by simp only [readText, if_pos hname, htrim, hused]⟩
      · cases h
    · cases h
  · rw [readText_of_ne hname] at h
    cases h
    exact ⟨[], rfl, readText_of_ne hname tail⟩

theorem readEntry_split {text : List Char} {rows rest : List Row} {token : Token}
    (h : readEntry text rows = .ok (token, rest)) :
    ∃ used, rows = used ++ rest ∧
      ∀ more, readEntry text (used ++ more) = .ok (token, more) := by
  unfold readEntry at h ⊢
  split at h
  · cases h
  · split at h
    · cases h
    · rename_i htext
      split at h
      · cases h
      · rename_i hkind
        cases h
        obtain ⟨used, hrows, hused⟩ := readText_split htext
        exact ⟨used, hrows, fun more => by simp only [hused, hkind]⟩

theorem kindOf_string (text : String) :
    kindOf "String".toList text.toList = .ok (.string text) :=
  @kindOf_name (.string text) rfl

/-- Other lines are read only to look for the end of a string. -/
theorem readText_fault {kindName tail : List Char} {rows : List Row} {fault : ListingFault}
    (h : readText kindName tail rows = .error fault) (hfault : fault ≠ .unterminatedString)
    (rows' : List Row) : readText kindName tail rows' = .error fault := by
  by_cases hname : kindName = "String".toList
  · rw [readText, if_pos hname] at h ⊢
    split at h
    · split at h
      · cases h
      · cases h
        exact absurd rfl hfault
    · exact h
  · rw [readText_of_ne hname] at h
    cases h

theorem readEntry_fault {text : List Char} {rows : List Row} {fault : ListingFault}
    (h : readEntry text rows = .error fault) (hfault : fault ≠ .unterminatedString)
    (rows' : List Row) : readEntry text rows' = .error fault := by
  unfold readEntry at h ⊢
  split at h
  · exact h
  · rename_i header _
    split at h
    · rename_i htext
      cases h
      simp only [readText_fault htext hfault rows']
    · rename_i content _ htext
      -- the text of a string is never at fault
      have hname : header.kindName ≠ "String".toList := by
        intro heq
        rw [heq, ← String.toList_ofList (l := content), kindOf_string] at h
        cases h
      rw [readText_of_ne hname] at htext
      cases htext
      split at h
      · rename_i hkind
        cases h
        simp only [readText_of_ne hname, hkind]
      · cases h

/-! ## An entry further down -/

theorem closeString?_down (n : UInt64) (text : List Char) (rows : List Row) :
    closeString? text (rows.map (Row.down n)) =
      (closeString? text rows).map fun found => (found.1, found.2.map (Row.down n)) := by
  fun_induction closeString? text rows with
  | case1 text hclose => simp [closeString?, hclose]
  | case2 text hclose => simp [closeString?, hclose]
  | case3 text row rows hclose => simp [closeString?, hclose]
  | case4 text row rows hclose ih => simpa [closeString?, hclose, Row.down] using ih

theorem readText_down (n : UInt64) (kindName tail : List Char) (rows : List Row) :
    readText kindName tail (rows.map (Row.down n)) =
      (readText kindName tail rows).map fun found => (found.1, found.2.map (Row.down n)) := by
  unfold readText
  split
  · split
    · rw [closeString?_down]
      cases closeString? _ rows <;> rfl
    · rfl
  · rfl

theorem readEntry_down (n : UInt64) (text : List Char) (rows : List Row) :
    readEntry text (rows.map (Row.down n)) =
      (readEntry text rows).map fun found => (found.1, found.2.map (Row.down n)) := by
  unfold readEntry
  split
  · rfl
  · rename_i header _
    rw [readText_down]
    cases readText header.kindName header.tail rows with
    | error fault => rfl
    | ok found =>
      simp only [Except.map]
      split <;> rfl

/-! ## All entries -/

theorem readRows_down (n : UInt64) (rows : List Row) :
    readRows (rows.map (Row.down n)) = (readRows rows).mapError (·.down n) := by
  fun_induction readRows rows with
  | case1 => rw [List.map_nil, readRows]; rfl
  | case2 row rows hblank ih => rw [List.map_cons, readRows_blank (row.down n) hblank, ih]
  | case3 row rows hblank fault hentry =>
    have hdown := readEntry_down n row.text rows
    rw [hentry] at hdown
    rw [List.map_cons, readRows_fault (row.down n) hblank hdown]
    rfl
  | case4 row rows hblank token rest hentry e hrest ih =>
    have hdown := readEntry_down n row.text rows
    rw [hentry] at hdown
    rw [List.map_cons, readRows_entry (row.down n) hblank hdown, ih, hrest]
    rfl
  | case5 row rows hblank token rest hentry tokens hrest ih =>
    have hdown := readEntry_down n row.text rows
    rw [hentry] at hdown
    rw [List.map_cons, readRows_entry (row.down n) hblank hdown, ih, hrest]
    rfl

theorem readRows_append {front : List Row} {tokens : List Token} (h : readRows front = .ok tokens)
    (behind : List Row) : readRows (front ++ behind) = (readRows behind).map (tokens ++ ·) := by
  fun_induction readRows front generalizing tokens with
  | case1 =>
    cases h
    cases hbehind : readRows behind <;> simp [hbehind, Except.map]
  | case2 row rows hblank ih => rw [List.cons_append, readRows_blank row hblank, ih h]
  | case3 => cases h
  | case4 => cases h
  | case5 row rows hblank token rest hentry tokens hrest ih =>
    cases h
    -- the entry keeps the lines that it used, whatever is below
    obtain ⟨used, rfl, hused⟩ := readEntry_split hentry
    rw [List.cons_append, List.append_assoc, readRows_entry row hblank (hused _), ih hrest]
    cases readRows behind <;> rfl

theorem readRows_error_append {front : List Row} {e : ListingError} (h : readRows front = .error e)
    (hfault : e.fault ≠ .unterminatedString) (behind : List Row) :
    readRows (front ++ behind) = .error e := by
  fun_induction readRows front with
  | case1 => cases h
  | case2 row rows hblank ih => rw [List.cons_append, readRows_blank row hblank, ih h]
  | case3 row rows hblank fault hentry =>
    cases h
    exact readRows_fault row hblank (readEntry_fault hentry hfault _)
  | case4 row rows hblank token rest hentry e' hrest ih =>
    cases h
    obtain ⟨used, rfl, hused⟩ := readEntry_split hentry
    rw [List.cons_append, List.append_assoc, readRows_entry row hblank (hused _), ih hrest]
    rfl
  | case5 => cases h

/-- An error is at the line on which an entry starts, and the entries above it are whole. -/
theorem readRows_error_split {rows : List Row} {e : ListingError} (h : readRows rows = .error e) :
    ∃ front row behind tokens, rows = front ++ row :: behind ∧ e.line = row.number ∧
      readRows front = .ok tokens := by
  fun_induction readRows rows with
  | case1 => cases h
  | case2 row rows hblank ih =>
    obtain ⟨front, row', behind, tokens, rfl, hline, hfront⟩ := ih h
    have hread : readRows (row :: front) = .ok tokens := by rw [readRows_blank row hblank, hfront]
    exact ⟨row :: front, row', behind, tokens, rfl, hline, hread⟩
  | case3 row rows hblank fault hentry =>
    cases h
    exact ⟨[], row, rows, [], rfl, rfl, by rw [readRows]⟩
  | case4 row rows hblank token rest hentry e' hrest ih =>
    cases h
    obtain ⟨front, row', behind, tokens, rfl, hline, hfront⟩ := ih hrest
    obtain ⟨used, rfl, hused⟩ := readEntry_split hentry
    refine ⟨row :: (used ++ front), row', behind, token :: tokens, by simp, hline, ?_⟩
    rw [readRows_entry row hblank (hused front), hfront]
    rfl
  | case5 => cases h

/-! ## Lines of a text -/

theorem rowsFrom_down (number n : UInt64) (lines : List (List Char)) :
    rowsFrom (number + n) lines = (rowsFrom number lines).map (Row.down n) := by
  induction lines generalizing number with
  | nil => rfl
  | cons line lines ih =>
    have hnext : number + n + 1 = number + 1 + n := by
      rw [UInt64.add_assoc, UInt64.add_comm n, UInt64.add_assoc]
    rw [rowsFrom, hnext, ih, rowsFrom, List.map_cons]
    rfl

theorem rows_append (a b : List Char) :
    rows (a ++ '\n' :: b) =
      rows a ++ (rows b).map (Row.down (.ofNat (a.splitOn '\n').length)) := by
  rw [rows, List.splitOn_append_cons_self, rowsFrom_append, rowsFrom_down]
  rfl

theorem rowsFrom_eq_append_cons {number : UInt64} {lines : List (List Char)} {front : List Row}
    {row : Row} {behind : List Row} (h : rowsFrom number lines = front ++ row :: behind) :
    front.length < lines.length ∧ front = rowsFrom number (lines.take front.length) ∧
      row.number = number + .ofNat front.length := by
  induction front generalizing number lines with
  | nil =>
    cases lines with
    | nil => cases h
    | cons line lines =>
      cases h
      exact ⟨Nat.succ_pos _, rfl, by simp⟩
  | cons first front ih =>
    cases lines with
    | nil => cases h
    | cons line lines =>
      rw [rowsFrom, List.cons_append, List.cons.injEq] at h
      obtain ⟨hlength, hfront, hnumber⟩ := ih h.2
      refine ⟨Nat.succ_lt_succ hlength, ?_, ?_⟩
      · rw [List.length_cons, List.take_succ_cons, rowsFrom, ← hfront, h.1]
      · rw [hnumber, List.length_cons, UInt64.ofNat_add, UInt64.add_assoc,
          UInt64.add_comm 1]
        rfl

/-- No line at all reads like one empty line. -/
theorem read_intercalate {lines : List (List Char)} (h : ∀ line ∈ lines, '\n' ∉ line) :
    read (['\n'].intercalate lines) = readRows (rowsFrom 1 lines) := by
  cases lines with
  | nil => simp [read, rows, rowsFrom, readRows, isBlank]
  | cons line lines => rw [read, rows, List.splitOn_intercalate _ h (List.cons_ne_nil _ _)]

end Listing

open Listing

/-- The number of lines of a text. -/
def lineCount (text : String) : Nat := (text.toList.splitOn '\n').length

/-- The first lines of a text. -/
def firstLines (k : Nat) (text : String) : String :=
  String.ofList (['\n'].intercalate ((text.toList.splitOn '\n').take k))

theorem readListing_append_line (a b : String) :
    readListing (a ++ "\n" ++ b) = readRows (rows a.toList ++
      (rows b.toList).map (Row.down (.ofNat (lineCount a)))) := by
  have htext : (a ++ "\n" ++ b).toList = a.toList ++ '\n' :: b.toList := by simp
  rw [readListing, htext, Listing.read, rows_append]
  rfl

theorem readListing_below {a : String} {tokens : List Token} (h : readListing a = .ok tokens)
    (b : String) : readListing (a ++ "\n" ++ b) =
      ((readListing b).mapError (·.down (.ofNat (lineCount a)))).map (tokens ++ ·) := by
  rw [readListing_append_line, readRows_append h, readRows_down]
  rfl

theorem readListing_error_line {text : String} {e : ListingError}
    (h : readListing text = .error e) :
    ∃ k < lineCount text, e.line = .ofNat (k + 1) ∧
      ∃ tokens, readListing (firstLines k text) = .ok tokens := by
  obtain ⟨front, row, behind, tokens, hrows, hline, hfront⟩ := readRows_error_split h
  obtain ⟨hlength, htake, hnumber⟩ := rowsFrom_eq_append_cons hrows
  refine ⟨front.length, hlength, ?_, tokens, ?_⟩
  · rw [hline, hnumber, UInt64.ofNat_add, UInt64.add_comm]
    rfl
  · have hlines : ∀ line ∈ (text.toList.splitOn '\n').take front.length, '\n' ∉ line :=
      fun line hmem => not_mem_splitOn _ line (List.mem_of_mem_take hmem)
    rw [readListing, firstLines, String.toList_ofList, read_intercalate hlines, ← htake, hfront]

/-- What is below a whole listing is read as if it were alone, its errors only further down. What is
below an error does not matter, unless it may still close a string. Above an error there is a whole
listing. -/
theorem readListing_append (a b : String) :
    (∀ ta tb, readListing a = .ok ta → readListing b = .ok tb →
      readListing (a ++ "\n" ++ b) = .ok (ta ++ tb)) ∧
    (∀ ta e, readListing a = .ok ta → readListing b = .error e →
      readListing (a ++ "\n" ++ b) = .error (e.down (.ofNat (lineCount a)))) ∧
    (∀ e, readListing a = .error e → e.fault ≠ .unterminatedString →
      readListing (a ++ "\n" ++ b) = .error e) ∧
    ∀ e, readListing a = .error e → e.location.column = 1 ∧
      ∃ k < lineCount a, e.location.line = .ofNat (k + 1) ∧
        ∃ tokens, readListing (firstLines k a) = .ok tokens := by
  refine ⟨?_, ?_, ?_, ?_⟩
  · intro ta tb ha hb
    rw [readListing_below ha, hb]
    rfl
  · intro ta e ha hb
    rw [readListing_below ha, hb]
    rfl
  · intro e ha hfault
    rw [readListing_append_line]
    exact readRows_error_append ha hfault _
  · intro e ha
    exact ⟨rfl, readListing_error_line ha⟩

/-- A string over two lines, and a blank line. -/
def upperListing : String := "1 1 String \"a\n b\"\n"

/-- A column on the second line is no number. -/
def lowerListing : String := "3 1 Comma\n3 x Comma"

theorem readListing_append_malformedColumn :
    readListing (upperListing ++ "\n" ++ lowerListing) = .error ⟨.malformedColumn "x", 5⟩ ∧
      (∀ b, readListing (lowerListing ++ "\n" ++ b) = .error ⟨.malformedColumn "x", 2⟩) ∧
      1 < lineCount lowerListing ∧
      readListing (firstLines 1 lowerListing) = .ok [⟨.comma, ⟨3, 1⟩⟩] := by
  have hupper : readListing upperListing = .ok [⟨.string "a\n b", ⟨1, 1⟩⟩] := by decide +kernel
  have hlower : readListing lowerListing = .error ⟨.malformedColumn "x", 2⟩ := by decide +kernel
  have hcount : lineCount upperListing = 3 := by decide +kernel
  obtain ⟨_, hbelow, _, _⟩ := readListing_append upperListing lowerListing
  refine ⟨?_, fun b => ?_, ?_⟩
  · rw [hbelow _ _ hupper hlower, hcount]
    rfl
  · obtain ⟨_, _, habove, _⟩ := readListing_append lowerListing b
    exact habove _ hlower (by decide)
  · obtain ⟨_, _, _, hline⟩ := readListing_append lowerListing ""
    obtain ⟨-, k, hk, hnumber, tokens, htokens⟩ := hline _ hlower
    have honly : ∀ k < 2, (2 : UInt64) = .ofNat (k + 1) → k = 1 := by decide +kernel
    have hlines : lineCount lowerListing = 2 := by decide +kernel
    have hfirst : readListing (firstLines 1 lowerListing) = .ok [⟨.comma, ⟨3, 1⟩⟩] := by
      decide +kernel
    have hone : k = 1 := honly k (hlines ▸ hk) hnumber
    subst hone
    rw [hfirst] at htokens
    cases htokens
    exact ⟨hk, hfirst⟩

end ImpSyntax

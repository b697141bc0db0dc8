import ImpSyntax.Proofs.Listing.RoundTrip

/-!
# ImpSyntax.Proofs.Listing.Reread

Many listings read as the same tokens: columns may have any width, numbers a plus sign and zeros in
front, and blank lines may be anywhere. Reading a listing and writing its tokens picks one of them,
and that one reads as the same tokens again (`readListing_write`).

* `listable_readEntry` — a listing can hold what was read from one, whatever it looked like.
* `listable_readRows`  — by induction on the entries.
-/

namespace ImpSyntax
namespace Listing

/-! ## Entries -/

theorem text?_of_ofName? {kindName text : String} {kind : TokenKind}
    (h : TokenKind.ofName? kindName text = some kind) :
    kind.name = kindName ∧ (kind.text? = none ∨ kind.text? = some text) := by
  have hall : ∀ k ∈ TokenKind.all text, k.text? = none ∨ k.text? = some text := by
    simp [TokenKind.all, TokenKind.text?]
  exact ⟨by simpa using List.find?_some h, hall kind (List.mem_of_find?_eq_some h)⟩

/-- The texts of all kinds but strings are checked. -/
theorem isLexical_of_kindOf {kindName text : List Char} {kind : TokenKind}
    (h : kindOf kindName text = .ok kind) :
    kind.name = String.ofList kindName ∧
      (kind.isLexical = true ∨ kind = .string (String.ofList text)) := by
  unfold kindOf at h
  split at h
  · cases h
  · rename_i hname
    split at h
    · cases h
    · rename_i hfault
      cases h
      obtain ⟨hkindName, htext⟩ := text?_of_ofName? hname
      refine ⟨hkindName, ?_⟩
      rcases htext with hnone | hsome
      · exact .inl (TokenKind.isLexical_of_text? hnone)
      · cases kind with
        | identifier name =>
          cases hsome
          exact .inl (by simpa [TokenKind.isLexical, textFault?] using hfault)
        | integer digits =>
          cases hsome
          exact .inl (by simpa [TokenKind.isLexical, textFault?] using hfault)
        | string content =>
          cases hsome
          exact .inr rfl
        | _ => cases hsome

theorem subset_splitField (text : List Char) : (splitField text).2 ⊆ text := by
  intro c hc
  exact (List.dropWhile_suffix _).mem ((List.dropWhile_suffix _).mem hc)

theorem subset_header {text : List Char} {header : Header} (h : Header.read text = .ok header) :
    header.tail ⊆ text := by
  unfold Header.read at h
  simp only at h
  split at h
  · cases h
  · cases h
  · cases h
    exact fun c hc =>
      subset_splitField text (subset_splitField _ (subset_splitField _ hc))

theorem readText_string {tail content : List Char} {rows rest : List Row}
    (h : readText "String".toList tail rows = .ok (content, rest)) (htail : '\n' ∉ tail)
    (hrows : ∀ row ∈ rows, '\n' ∉ row.text) :
    IsContent content := by
  rw [readText, if_pos rfl] at h
  split at h
  · rename_i text htrim
    split at h
    · rename_i hclose
      cases h
      have htext : '\n' ∉ text := by
        intro hc
        have hmem : '\n' ∈ trimStart tail := htrim ▸ List.mem_cons_of_mem _ hc
        exact htail ((List.dropWhile_suffix _).mem hmem)
      exact isContent_of_closeString? hclose (staysOpen_of_not_mem htext) hrows
    · cases h
  · cases h

theorem listable_readEntry {text : List Char} {rows rest : List Row} {token : Token}
    (h : readEntry text rows = .ok (token, rest)) (htext : '\n' ∉ text)
    (hrows : ∀ row ∈ rows, '\n' ∉ row.text) : Listable token.kind := by
  unfold readEntry at h
  split at h
  · cases h
  · rename_i header hheader
    split at h
    · cases h
    · rename_i content rest' hread
      split at h
      · cases h
      · rename_i kind hkind
        cases h
        obtain ⟨hname, hlexical | rfl⟩ := isLexical_of_kindOf hkind
        · exact listable_of_isLexical hlexical
        · have hstring : header.kindName = "String".toList := by
            rw [← String.toList_ofList (l := header.kindName), ← hname]
            rfl
          rw [hstring] at hread
          have htail : '\n' ∉ header.tail := fun hc => htext (subset_header hheader hc)
          have hcontent := readText_string hread htail hrows
          exact .string (by simpa using hcontent)

theorem listable_readRows {rows : List Row} {tokens : List Token}
    (h : readRows rows = .ok tokens) (hrows : ∀ row ∈ rows, '\n' ∉ row.text) :
    ∀ token ∈ tokens, Listable token.kind := by
  fun_induction readRows rows generalizing tokens with
  | case1 =>
    cases h
    exact fun _ hmem => by cases hmem
  | case2 row rows hblank ih =>
    exact ih h fun r hr => hrows r (List.mem_cons_of_mem _ hr)
  | case3 => cases h
  | case4 => cases h
  | case5 row rows hblank token rest hentry tokens' hrest ih =>
    cases h
    have hmore : ∀ r ∈ rows, '\n' ∉ r.text := fun r hr => hrows r (List.mem_cons_of_mem _ hr)
    intro t ht
    rcases List.mem_cons.mp ht with rfl | ht
    · exact listable_readEntry hentry (hrows row (List.mem_cons_self ..)) hmore
    · exact ih hrest (fun r hr => hmore r ((readEntry_suffix hentry).mem hr)) t ht

theorem not_mem_splitOn {c : Char} (text : List Char) : ∀ line ∈ text.splitOn c, c ∉ line := by
  induction text with
  | nil => simp [List.splitOn_nil]
  | cons d text ih =>
    rw [List.splitOn_cons_eq_if_modifyHead]
    split
    · simpa using ih
    · rename_i hd
      have hne : c ≠ d := fun heq => hd (by simp [heq])
      obtain ⟨first, others, hlines⟩ := List.exists_cons_of_ne_nil (List.splitOn_ne_nil c text)
      rw [hlines] at ih
      rw [hlines, List.modifyHead_cons]
      simpa [hne] using ih

theorem not_mem_rowsFrom {lines : List (List Char)} (h : ∀ line ∈ lines, '\n' ∉ line)
    (number : UInt64) : ∀ row ∈ rowsFrom number lines, '\n' ∉ row.text := by
  induction lines generalizing number with
  | nil => exact fun _ hmem => by cases hmem
  | cons line lines ih =>
    intro row hrow
    rw [rowsFrom, List.mem_cons] at hrow
    rcases hrow with rfl | hrow
    · exact h line (List.mem_cons_self ..)
    · exact ih (fun l hl => h l (List.mem_cons_of_mem _ hl)) _ row hrow

theorem listable_read {text : List Char} {tokens : List Token} (h : read text = .ok tokens) :
    ∀ token ∈ tokens, Listable token.kind :=
  listable_readRows h (not_mem_rowsFrom (not_mem_splitOn text) 1)

end Listing

/-- The tokens of any listing read back from their own one. -/
theorem readListing_write {text : String} {tokens : List Token}
    (h : readListing text = .ok tokens) :
    readListing (String.ofList (Listing.write tokens)) = .ok tokens := by
  rw [readListing, String.toList_ofList]
  exact Listing.read_write_of_listable (Listing.listable_read h)

/-- A listing with a plus sign, zeros in front, a blank line and narrow columns, the string of which
has a bare quote and blanks before its line break. -/
def handwrittenListing : String :=
  "+01 007 Integer 0042\n\n 2 +3 String \"a\"b  \n  c\"\n"

def handwrittenTokens : List Token :=
  [⟨.integer "0042", ⟨1, 7⟩⟩, ⟨.string "a\"b  \n  c", ⟨2, 3⟩⟩]

theorem readListing_write_handwritten :
    readListing handwrittenListing = .ok handwrittenTokens ∧
      readListing (String.ofList (Listing.write handwrittenTokens)) = .ok handwrittenTokens := by
  have h : readListing handwrittenListing = .ok handwrittenTokens := by decide +kernel
  exact ⟨h, readListing_write h⟩

end ImpSyntax

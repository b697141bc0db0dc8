import ImpSyntax.FrontEnd
import ImpSyntax.Proofs.Grammar.Leaves
import ImpSyntax.Proofs.Source.Lexical
import ImpSyntax.Proofs.TokenStream.Accepts
import ImpSyntax.Proofs.Tree.Tidy
import ImpSyntax.Proofs.WordChars
import Mathlib.Control.Monad.Basic

/-!
# ImpSyntax.Proofs.Source.Dump

What the dump of a program tells about source texts without line ends in their strings.

* `isOneLine_of_parseSource`   — every text in the tree of the program is on one line.
* `dump_eq_iff_of_parseSource` — the dump tells the labels of the tree, except for an empty
  statement from a separator; among tidy programs it tells the tree.
* `dump_not_identifying`       — it does not among all programs.
-/

namespace ImpSyntax

/-- Whether the text of a string is on one line. -/
def TokenKind.isOneLine : TokenKind → Bool
  | .string text => !text.toList.contains '\n'
  | _ => true

/-- Whether no string of the source text contains a line end. -/
def hasOneLineStrings (source : String) : Bool :=
  match Source.tokenize source with
  | .ok tokens => tokens.all (·.kind.isOneLine)
  | .error _ => true

theorem isOneLine_of_isWordChar {text : List Char} (h : ∀ c ∈ text, isWordChar c = true) :
    '\n' ∉ text := by
  intro hmem
  have hspace : Unicode.isWhiteSpace '\n' = true := rfl
  rw [isWhiteSpace_eq_false (h '\n' hmem)] at hspace
  cases hspace

theorem isOneLine_of_leaf? {kind : TokenKind} {label : Label} (hlexical : kind.isLexical = true)
    (hline : kind.isOneLine = true) (h : kind.leaf? = some label) : label.IsOneLine := by
  cases kind <;> cases h <;> rintro text ⟨⟩
  case identifier name => exact isOneLine_of_isWordChar (isWordChar_of_isIdentifier hlexical)
  case integer digits => exact isOneLine_of_isWordChar (isWordChar_of_isNumeral hlexical)
  case string text => simpa [TokenKind.isOneLine] using hline

theorem isOneLine_of_isLeaf {label : Label} (h : label.isLeaf = false) : label.IsOneLine := by
  intro text htext
  cases label <;> simp [Label.isLeaf, Label.text?] at h htext

theorem derives_of_parseSource {source : String} {program : Program}
    (h : parseSource source = .ok program) :
    ∃ tokens, Source.tokenize source = .ok tokens ∧
      Grammar.DerivesProgram (kindsAhead tokens) program.toTree := by
  unfold parseSource at h
  cases htokens : Source.tokenize source with
  | error e => simp [htokens] at h
  | ok tokens =>
    simp only [htokens] at h
    have htree : (parse tokens).map Program.toTree = .ok program.toTree := by
      cases hparse : parse tokens <;> rw [hparse] at h <;> cases h
      rfl
    exact ⟨tokens, rfl, map_parse_eq_ok_iff.1 htree⟩

theorem isOneLine_of_parseSource {source : String} {program : Program}
    (hparse : parseSource source = .ok program) (hline : hasOneLineStrings source = true) :
    ∀ label ∈ program.toTree.labels, label.IsOneLine := by
  obtain ⟨tokens, htokens, hderives⟩ := derives_of_parseSource hparse
  simp only [hasOneLineStrings, htokens, List.all_eq_true] at hline
  intro label hlabel
  cases hleaf : label.isLeaf with
  | false => exact isOneLine_of_isLeaf hleaf
  | true =>
    have hmem : label ∈ program.toTree.leaves := List.mem_filter.2 ⟨hlabel, hleaf⟩
    rw [Grammar.leaves_of_program hderives] at hmem
    obtain ⟨kind, hkind, hof⟩ := List.mem_filterMap.1 hmem
    obtain ⟨token, htoken, rfl⟩ := List.mem_map.1 hkind
    have hin : token ∈ tokens := (List.takeWhile_sublist _).subset htoken
    exact isOneLine_of_leaf? (Source.isLexical_of_tokenize htokens token hin) (hline token hin) hof

/-- Tokens of the same kinds are read alike, wherever they are. -/
theorem parseSource_of_kinds {source : String} (ks : List TokenKind) {program : Program}
    (hkinds : (Source.tokenize source).map kindsAhead = .ok ks)
    (hprogram : Grammar.programRule (ks.map fun k => ⟨k, .start⟩) = ⟨.ok program, []⟩) :
    parseSource source = .ok program := by
  cases htokens : Source.tokenize source with
  | error e => rw [htokens] at hkinds; cases hkinds
  | ok tokens =>
    rw [htokens] at hkinds
    cases hkinds
    have hsame : Grammar.kinds ((kindsAhead tokens).map fun k => ⟨k, .start⟩) =
        kindsAhead tokens := by simp [Function.comp_def]
    have hparse : parse tokens = .ok program :=
      parse_of_ok (Grammar.program_of_recast (by rw [hsame]; rfl) hprogram)
    simp only [parseSource, htokens, hparse]
    rfl

/-- The dump of the program of a source text without line ends in its strings tells the labels of
the tree, except for an empty statement from a separator, and no more. It tells the whole tree of a
tidy program from that of any other. -/
theorem dump_eq_iff_of_parseSource {source source' : String} {program program' : Program}
    (hparse : parseSource source = .ok program) (hparse' : parseSource source' = .ok program')
    (hline : hasOneLineStrings source = true) (hline' : hasOneLineStrings source' = true) :
    (program.dump = program'.dump ↔
        program.toTree.labels.map Label.shown = program'.toTree.labels.map Label.shown) ∧
      (program.isTidy = true → program'.isTidy = true →
        (program.dump = program'.dump ↔ program.toTree = program'.toTree)) := by
  have hshown := Tree.dump_eq_dump_iff (isOneLine_of_parseSource hparse hline)
    (isOneLine_of_parseSource hparse' hline')
  refine ⟨hshown, fun htidy htidy' => ⟨fun hdump => ?_, congrArg Tree.dump⟩⟩
  rw [Program.eq_of_shown htidy htidy' (hshown.1 hdump)]

/-- A loop around one assignment, and the statements behind the loop. -/
def loopBefore (behind : List Stmt) : Program :=
  ⟨.whileLoop (.identifier "a") (.block [.assign "b" (.integer "1")]) :: behind⟩

/-- A loop around one assignment and an empty statement. -/
def loopAroundEmpty : Program :=
  ⟨[.whileLoop (.identifier "a") (.block [.assign "b" (.integer "1"), .empty])]⟩

def loopKinds (inside behind : List TokenKind) : List TokenKind :=
  [.whileWord, .leftParen, .identifier "a", .rightParen, .leftBrace, .identifier "b", .assign,
    .integer "1", .semicolon] ++ inside ++ .rightBrace :: behind

/-- Behind the loop a text is printed. -/
def loopThenText : Program := loopBefore [.print (.string ";") []]

/-- Behind the loop a text and a number are printed. -/
def loopThenNumber : Program := loopBefore [.print (.string ";") [.expr (.identifier "a")]]

theorem dump_eq_iff_of_parseSource_loop :
    parseSource "while(a){b=1;}print(\";\");" = .ok loopThenText ∧
      parseSource "while(a){b=1;}print(\";\",a);" = .ok loopThenNumber ∧
      hasOneLineStrings "while(a){b=1;}print(\";\");" = true ∧
      hasOneLineStrings "while(a){b=1;}print(\";\",a);" = true ∧
      loopThenText.isTidy = true ∧ loopThenNumber.isTidy = true ∧
      (loopThenText.dump = loopThenNumber.dump ↔
        loopThenText.toTree.labels.map Label.shown =
          loopThenNumber.toTree.labels.map Label.shown) ∧
      (loopThenText.dump = loopThenNumber.dump ↔ loopThenText.toTree = loopThenNumber.toTree) := by
  have hparse : parseSource "while(a){b=1;}print(\";\");" = .ok loopThenText :=
    parseSource_of_kinds
      (loopKinds [] [.printWord, .leftParen, .string ";", .rightParen, .semicolon])
      (by decide +kernel) (by cbv)
  have hparse' : parseSource "while(a){b=1;}print(\";\",a);" = .ok loopThenNumber :=
    parseSource_of_kinds
      (loopKinds [] [.printWord, .leftParen, .string ";", .comma, .identifier "a", .rightParen,
        .semicolon])
      (by decide +kernel) (by cbv)
  have hline : hasOneLineStrings "while(a){b=1;}print(\";\");" = true := by decide +kernel
  have hline' : hasOneLineStrings "while(a){b=1;}print(\";\",a);" = true := by decide +kernel
  have htidy : loopThenText.isTidy = true := by decide +kernel
  have htidy' : loopThenNumber.isTidy = true := by decide +kernel
  obtain ⟨hlabels, htree⟩ := dump_eq_iff_of_parseSource hparse hparse' hline hline'
  exact ⟨hparse, hparse', hline, hline', htidy, htidy', hlabels, htree htidy htidy'⟩

/-- Accepted source texts without line ends in strings whose programs have one dump, but not one
tree; one of the programs is tidy. -/
def LookAlike (source source' : String) : Prop :=
  hasOneLineStrings source = true ∧ hasOneLineStrings source' = true ∧
    ∃ program program', parseSource source = .ok program ∧ parseSource source' = .ok program' ∧
      program.isTidy ≠ program'.isTidy ∧ program.dump = program'.dump ∧
        program.toTree ≠ program'.toTree

/-- It is not seen whether an empty statement is in a block or behind it, be the block a statement
of a list or the body of a loop. -/
theorem dump_not_identifying :
    LookAlike "{;};" "{;;}" ∧ LookAlike "while(a){b=1;};" "while(a){b=1;;}" := by
  have hbehind : parseSource "{;};" = .ok ⟨[.block [.empty], .empty]⟩ :=
    parseSource_of_kinds [.leftBrace, .semicolon, .rightBrace, .semicolon]
      (by decide +kernel) (by cbv)
  have hinside : parseSource "{;;}" = .ok ⟨[.block [.empty, .empty]]⟩ :=
    parseSource_of_kinds [.leftBrace, .semicolon, .semicolon, .rightBrace]
      (by decide +kernel) (by cbv)
  have hloop : parseSource "while(a){b=1;};" = .ok (loopBefore [.empty]) :=
    parseSource_of_kinds (loopKinds [] [.semicolon]) (by decide +kernel) (by cbv)
  have hloop' : parseSource "while(a){b=1;;}" = .ok loopAroundEmpty :=
    parseSource_of_kinds (loopKinds [.semicolon] []) (by decide +kernel) (by cbv)
  constructor
  · exact ⟨by decide +kernel, by decide +kernel, _, _, hbehind, hinside, by decide +kernel,
      by decide +kernel, by decide +kernel⟩
  · exact ⟨by decide +kernel, by decide +kernel, _, _, hloop, hloop', by decide +kernel,
      by decide +kernel, by decide +kernel⟩

end ImpSyntax

import ImpSyntax.Source.Fault
import ImpSyntax.Word

/-!
# ImpSyntax.Source.Lexeme

Lexemes: the longest piece at the front of a text that is one token, or the piece that is at fault
if no token can be cut off.

* `Lead.of`            — what the first character of a lexeme announces.
* `Lexeme.scan`        — the lexeme at the front of a text.
* `Lexeme.scan_append` — a lexeme and the text behind it make up the text scanned.

A faulty lexeme ends with the character that showed the fault, which is consumed with it. So a
character literal that is not closed takes the character that stands where its closing quote
should be, and one that is cut off by the end of the text takes all of it.
-/

namespace ImpSyntax
namespace Source

inductive Lead where
  /-- A mark that is a token by itself. -/
  | mark (kind : TokenKind)
  /-- A mark that is one token alone and another with an equals sign behind it. -/
  | maybeEqual (alone withEqual : TokenKind)
  /-- A mark that has to stand twice. -/
  | doubled (kind : TokenKind)
  | minus
  | slash
  | charQuote
  | stringQuote
  | word
  | unexpected
  deriving DecidableEq, Repr

def Lead.of : Char → Lead
  | ';' => .mark .semicolon
  | ',' => .mark .comma
  | '(' => .mark .leftParen
  | ')' => .mark .rightParen
  | '\x7b' => .mark .leftBrace
  | '\x7d' => .mark .rightBrace
  | '+' => .mark .add
  | '*' => .mark .multiply
  | '%' => .mark .mod
  | '=' => .maybeEqual .assign .equal
  | '<' => .maybeEqual .less .lessEqual
  | '>' => .maybeEqual .greater .greaterEqual
  | '!' => .maybeEqual .not .notEqual
  | '&' => .doubled .and
  | '|' => .doubled .or
  | '-' => .minus
  | '/' => .slash
  | '\'' => .charQuote
  | '"' => .stringQuote
  | c => if isWordStart c then .word else .unexpected

theorem Lead.eq_of_charQuote {c : Char} (h : Lead.of c = .charQuote) : c = '\'' := by
  unfold Lead.of at h
  split at h
  case h_18 => rfl
  case h_20 => split at h <;> cases h
  all_goals cases h

theorem Lead.eq_of_stringQuote {c : Char} (h : Lead.of c = .stringQuote) : c = '"' := by
  unfold Lead.of at h
  split at h
  case h_19 => rfl
  case h_20 => split at h <;> cases h
  all_goals cases h

/-- The kind or the fault found, the text it was found in, and the text behind that. -/
structure Lexeme where
  outcome : Except LexFault TokenKind
  lexeme : List Char
  rest : List Char

namespace Lexeme

/-- The content of a string up to its closing quote, and the text behind that. A backslash keeps
the character behind it from closing the string; both stay in the content. -/
def splitString? : List Char → Option (List Char × List Char)
  | [] => none
  | '"' :: rest => some ([], rest)
  | ['\\'] => none
  | '\\' :: c :: cs => (splitString? cs).map fun (text, rest) => ('\\' :: c :: text, rest)
  | c :: cs => (splitString? cs).map fun (text, rest) => (c :: text, rest)

/-- The end of a character literal for the character `code`, of which `opening` is read. -/
def closeChar (code : Nat) (opening : List Char) : List Char → Lexeme
  | [] => ⟨.error .unterminatedCharLiteral, opening, []⟩
  | '\'' :: rest =>
    ⟨.ok (.integer (String.ofList (Nat.toDigits 10 code))), opening ++ ['\''], rest⟩
  | c :: rest => ⟨.error .unterminatedCharLiteral, opening ++ [c], rest⟩

/-- A character literal behind its opening quote: the code of the character, as an integer. Only a
line feed and a backslash can be written with a backslash. -/
def charLiteral : List Char → Lexeme
  | [] => ⟨.error .unterminatedCharLiteral, ['\''], []⟩
  | '\'' :: rest => ⟨.error .emptyCharLiteral, ['\'', '\''], rest⟩
  | ['\\'] => ⟨.error .unterminatedCharLiteral, ['\'', '\\'], []⟩
  | '\\' :: 'n' :: cs => closeChar 10 ['\'', '\\', 'n'] cs
  | '\\' :: '\\' :: cs => closeChar 92 ['\'', '\\', '\\'] cs
  | '\\' :: c :: rest => ⟨.error (.invalidEscape c), ['\'', '\\', c], rest⟩
  | c :: cs => closeChar c.toNat ['\'', c] cs

def stringLiteral (cs : List Char) : Lexeme :=
  match splitString? cs with
  | some (text, rest) => ⟨.ok (.string (String.ofList text)), '"' :: text ++ ['"'], rest⟩
  | none => ⟨.error .unterminatedString, '"' :: cs, []⟩

def word (c : Char) (cs : List Char) : Lexeme :=
  let more := cs.takeWhile isWordChar
  ⟨match wordKind? c more with
    | some kind => .ok kind
    | none => .error (.invalidNumber (String.ofList (c :: more))),
   c :: more, cs.dropWhile isWordChar⟩

/-- The lexeme of a text that starts with `c`, goes on with `cs` and has no gap in front. So a
slash in front of a star opens a comment that is never closed, and any other slash divides. -/
def scan (afterOperand : Bool) (c : Char) (cs : List Char) : Lexeme :=
  match Lead.of c with
  | .mark kind => ⟨.ok kind, [c], cs⟩
  | .maybeEqual alone withEqual =>
    match cs with
    | '=' :: rest => ⟨.ok withEqual, [c, '='], rest⟩
    | _ => ⟨.ok alone, [c], cs⟩
  | .doubled kind =>
    match cs with
    | d :: rest =>
      if d = c then ⟨.ok kind, [c, d], rest⟩ else ⟨.error (.incompleteOperator c), [c], cs⟩
    | [] => ⟨.error (.incompleteOperator c), [c], cs⟩
  | .minus => ⟨.ok (if afterOperand then .subtract else .negate), [c], cs⟩
  | .slash =>
    match cs with
    | '*' :: _ => ⟨.error .unterminatedComment, c :: cs, []⟩
    | _ => ⟨.ok .divide, [c], cs⟩
  | .charQuote => charLiteral cs
  | .stringQuote => stringLiteral cs
  | .word => word c cs
  | .unexpected => ⟨.error (.unexpectedCharacter c), [c], cs⟩

theorem splitString?_append {cs text rest : List Char}
    (h : splitString? cs = some (text, rest)) : text ++ '"' :: rest = cs := by
  fun_induction splitString? cs generalizing text rest with
  | case1 => cases h
  | case2 => cases h; rfl
  | case3 => cases h
  | case4 c cs ih =>
    simp only [Option.map_eq_some_iff, Prod.mk.injEq] at h
    obtain ⟨⟨text', rest'⟩, h', rfl, rfl⟩ := h
    simp [ih h']
  | case5 c cs _ _ _ ih =>
    simp only [Option.map_eq_some_iff, Prod.mk.injEq] at h
    obtain ⟨⟨text', rest'⟩, h', rfl, rfl⟩ := h
    simp [ih h']

theorem closeChar_append (code : Nat) (opening cs : List Char) :
    (closeChar code opening cs).lexeme ++ (closeChar code opening cs).rest = opening ++ cs := by
  fun_cases closeChar code opening cs <;> simp

theorem charLiteral_append (cs : List Char) :
    (charLiteral cs).lexeme ++ (charLiteral cs).rest = '\'' :: cs := by
  fun_cases charLiteral cs <;> simp [closeChar_append]

theorem stringLiteral_append (cs : List Char) :
    (stringLiteral cs).lexeme ++ (stringLiteral cs).rest = '"' :: cs := by
  unfold stringLiteral
  split
  · rename_i text rest h
    simp [splitString?_append h]
  · simp

theorem word_append (c : Char) (cs : List Char) :
    (word c cs).lexeme ++ (word c cs).rest = c :: cs := by
  simp [word, List.takeWhile_append_dropWhile]

theorem scan_append (afterOperand : Bool) (c : Char) (cs : List Char) :
    (scan afterOperand c cs).lexeme ++ (scan afterOperand c cs).rest = c :: cs := by
  unfold scan
  split
  · rfl
  · split <;> rfl
  · split
    · split <;> rfl
    · rfl
  · rfl
  · split
    · simp
    · rfl
  · rename_i h
    rw [charLiteral_append, Lead.eq_of_charQuote h]
  · rename_i h
    rw [stringLiteral_append, Lead.eq_of_stringQuote h]
  · exact word_append c cs
  · rfl

theorem charLiteral_ne_nil (cs : List Char) : (charLiteral cs).lexeme ≠ [] := by
  have hclose : ∀ code c opening cs, (closeChar code (c :: opening) cs).lexeme ≠ [] := by
    intro code c opening cs
    fun_cases closeChar code (c :: opening) cs <;> simp
  fun_cases charLiteral cs <;> simp [hclose]

theorem scan_ne_nil (afterOperand : Bool) (c : Char) (cs : List Char) :
    (scan afterOperand c cs).lexeme ≠ [] := by
  unfold scan stringLiteral word
  repeat' split
  case h_6 => exact charLiteral_ne_nil cs
  all_goals simp

theorem scan_length (afterOperand : Bool) (c : Char) (cs : List Char) :
    (scan afterOperand c cs).rest.length ≤ cs.length := by
  have happ := congrArg List.length (scan_append afterOperand c cs)
  have hne := List.length_pos_iff.mpr (scan_ne_nil afterOperand c cs)
  simp only [List.length_append, List.length_cons] at happ
  omega

end Lexeme
end Source
end ImpSyntax

import ImpSyntax.Location

/-!
# ImpSyntax.Token

Tokens: a closed set of kinds, three of which carry text, and the place of the first character.

* `TokenKind.name`     — the name of a kind in token listings and in messages.
* `TokenKind.ofName?`  — the kind of a given name and text.
* `TokenKind.spelling` — how the kind is written in a source text.

There are two kinds for the minus sign. A source text spells both `-`; which one a minus becomes
is decided by the token in front of it (`TokenKind.endsOperand`).
-/

namespace ImpSyntax

inductive TokenKind where
  | endOfInput
  | multiply | divide | mod | add | subtract | negate
  | not | less | lessEqual | greater | greaterEqual | equal | notEqual
  | assign | and | or
  | ifWord | elseWord | whileWord | printWord | putcWord
  | leftParen | rightParen | leftBrace | rightBrace | semicolon | comma
  | identifier (name : String)
  | integer (digits : String)
  | string (text : String)
  deriving DecidableEq, Repr

namespace TokenKind

def name : TokenKind → String
  | endOfInput => "End_of_input"
  | multiply => "Op_multiply"
  | divide => "Op_divide"
  | mod => "Op_mod"
  | add => "Op_add"
  | subtract => "Op_subtract"
  | negate => "Op_negate"
  | not => "Op_not"
  | less => "Op_less"
  | lessEqual => "Op_lessequal"
  | greater => "Op_greater"
  | greaterEqual => "Op_greaterequal"
  | equal => "Op_equal"
  | notEqual => "Op_notequal"
  | assign => "Op_assign"
  | and => "Op_and"
  | or => "Op_or"
  | ifWord => "Keyword_if"
  | elseWord => "Keyword_else"
  | whileWord => "Keyword_while"
  | printWord => "Keyword_print"
  | putcWord => "Keyword_putc"
  | leftParen => "LeftParen"
  | rightParen => "RightParen"
  | leftBrace => "LeftBrace"
  | rightBrace => "RightBrace"
  | semicolon => "Semicolon"
  | comma => "Comma"
  | identifier _ => "Identifier"
  | integer _ => "Integer"
  | string _ => "String"

/-- Every kind once, those that carry text with the given one. -/
def all (text : String) : List TokenKind :=
  [endOfInput, multiply, divide, mod, add, subtract, negate, not, less, lessEqual, greater,
    greaterEqual, equal, notEqual, assign, and, or, ifWord, elseWord, whileWord, printWord,
    putcWord, leftParen, rightParen, leftBrace, rightBrace, semicolon, comma, identifier text,
    integer text, string text]

/-- The text is ignored for a kind that carries none. -/
def ofName? (kindName text : String) : Option TokenKind :=
  (all text).find? fun kind => kind.name == kindName

/-- The text that a kind carries. -/
def text? : TokenKind → Option String
  | identifier text | integer text | string text => some text
  | _ => none

/-- A minus behind such a token subtracts; behind any other it negates. -/
def endsOperand : TokenKind → Bool
  | identifier _ | integer _ => true
  | _ => false

def spelling : TokenKind → String
  | endOfInput => ""
  | multiply => "*"
  | divide => "/"
  | mod => "%"
  | add => "+"
  | subtract => "-"
  | negate => "-"
  | not => "!"
  | less => "<"
  | lessEqual => "<="
  | greater => ">"
  | greaterEqual => ">="
  | equal => "=="
  | notEqual => "!="
  | assign => "="
  | and => "&&"
  | or => "||"
  | ifWord => "if"
  | elseWord => "else"
  | whileWord => "while"
  | printWord => "print"
  | putcWord => "putc"
  | leftParen => "("
  | rightParen => ")"
  | leftBrace => "\x7b"
  | rightBrace => "\x7d"
  | semicolon => ";"
  | comma => ","
  | identifier name => name
  | integer digits => digits
  | string text => "\"" ++ text ++ "\""

theorem ofName?_name (kind : TokenKind) :
    ofName? kind.name (kind.text?.getD "") = some kind := by
  cases kind <;> rfl

end TokenKind

structure Token where
  kind : TokenKind
  location : Location
  deriving DecidableEq, Repr

end ImpSyntax

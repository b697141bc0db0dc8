import ImpSyntax.Diagnostic
import ImpSyntax.Grammar.Stmt

/-!
# ImpSyntax.TokenStream

Reading programs from tokens. A stream holds the tokens that are ahead, up to the first end of
input, and the place of the end. Tokens behind the first end of input are never looked at.

* `TokenStream.program` — one program. What the grammar leaves is ahead then, behind a program and
  behind a syntax error.
* `parse`               — the program that a list of tokens is.
-/

namespace ImpSyntax

/-- What was expected, what is there instead, and where. -/
structure SyntaxError where
  expected : Grammar.Expected
  found : TokenKind
  location : Location
  deriving DecidableEq, Repr

def SyntaxError.message (e : SyntaxError) : String := e.expected.text ++ ", found " ++ e.found.name

def SyntaxError.diagnostic (e : SyntaxError) : Diagnostic := ⟨.parsing, e.location, e.message⟩

@[ext]
structure TokenStream where
  ahead : List Token
  stop : Location
  deriving DecidableEq, Repr

namespace TokenStream

/-- The place of the first end of input. A list without one ends at the place of its last token,
and the empty list at the start. -/
def stopOf (tokens : List Token) : Location :=
  match tokens.find? (·.kind = .endOfInput), tokens.getLast? with
  | some stop, _ => stop.location
  | none, some last => last.location
  | none, none => .start

def ofTokens (tokens : List Token) : TokenStream :=
  ⟨tokens.takeWhile (·.kind ≠ .endOfInput), stopOf tokens⟩

/-- The token behind all that is ahead. -/
def endToken (stream : TokenStream) : Token := ⟨.endOfInput, stream.stop⟩

def syntaxError (stream : TokenStream) (failure : Grammar.Failure) : SyntaxError :=
  let found := failure.found.getD stream.endToken
  ⟨failure.expected, found.kind, found.location⟩

def program (stream : TokenStream) : Except SyntaxError Program × TokenStream :=
  match Grammar.program stream.ahead with
  | .ok found => (.ok found.value, { stream with ahead := found.rest })
  | .error failure => (.error (stream.syntaxError failure), { stream with ahead := failure.rest })

end TokenStream

def parse (tokens : List Token) : Except SyntaxError Program :=
  (TokenStream.ofTokens tokens).program.1

end ImpSyntax

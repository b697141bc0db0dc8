/-!
# ImpSyntax.Location

Places in a text. A location names a line and a column, both counted from one, and a column
counts characters. Both numbers are 64-bit words, the width in which token listings carry them.

* `Location.next`  — the place behind one character.
* `Location.after` — the place behind a stretch of text.
-/

namespace ImpSyntax

structure Location where
  line : UInt64
  column : UInt64
  deriving DecidableEq, Repr

namespace Location

/-- The first character of a text. -/
def start : Location := ⟨1, 1⟩

/-- Only a line feed ends a line. -/
def next (l : Location) (c : Char) : Location :=
  if c = '\n' then ⟨l.line + 1, 1⟩ else ⟨l.line, l.column + 1⟩

def after (l : Location) (text : List Char) : Location := text.foldl next l

@[simp] theorem after_nil (l : Location) : l.after [] = l := rfl

@[simp] theorem after_cons (l : Location) (c : Char) (text : List Char) :
    l.after (c :: text) = (l.next c).after text := rfl

theorem after_append (l : Location) (s t : List Char) :
    l.after (s ++ t) = (l.after s).after t := List.foldl_append

end Location
end ImpSyntax

import ImpSyntax.Expr

/-!
# ImpSyntax.Tree.Label

The labels of tree nodes: a closed set, three of which carry text.

* `Label.name`    — tells any two kinds of label apart.
* `Label.heading` — what a label is printed as. A separator and an empty statement print alike.
-/

namespace ImpSyntax

inductive Label where
  | sequence
  | separator
  | empty
  | identifier (name : String)
  | integer (digits : String)
  | string (text : String)
  | assign
  /-- Both nodes of a conditional: condition and arms, and the two arms. -/
  | branch
  | loop
  | printInteger
  | printString
  | printChar
  | binary (op : BinaryOp)
  | unary (op : UnaryOp)
  deriving DecidableEq, Repr

def BinaryOp.name : BinaryOp → String
  | multiply => "Multiply"
  | divide => "Divide"
  | mod => "Mod"
  | add => "Add"
  | subtract => "Subtract"
  | less => "Less"
  | lessEqual => "LessEqual"
  | greater => "Greater"
  | greaterEqual => "GreaterEqual"
  | equal => "Equal"
  | notEqual => "NotEqual"
  | and => "And"
  | or => "Or"

def UnaryOp.name : UnaryOp → String
  | negate => "Negate"
  | not => "Not"

namespace Label

def name : Label → String
  | sequence => "Sequence"
  | separator => "Separator"
  | empty => "Empty"
  | identifier _ => "Identifier"
  | integer _ => "Integer"
  | string _ => "String"
  | assign => "Assign"
  | branch => "If"
  | loop => "While"
  | printInteger => "Prti"
  | printString => "Prts"
  | printChar => "Prtc"
  | binary op => op.name
  | unary op => op.name

def heading : Label → String
  | separator | empty => ";"
  | label => label.name

/-- The text that a label carries. -/
def text? : Label → Option String
  | identifier text | integer text | string text => some text
  | _ => none

/-- The label as it is printed: its heading, and behind a blank the text that it carries. -/
def line (label : Label) : String :=
  match label.text? with
  | some text => label.heading ++ " " ++ text ++ "\n"
  | none => label.heading ++ "\n"

/-- Every label once, those that carry text with the given one. -/
def all (text : String) : List Label :=
  [sequence, separator, empty, identifier text, integer text, string text, assign, branch, loop,
    printInteger, printString, printChar, binary .multiply, binary .divide, binary .mod,
    binary .add, binary .subtract, binary .less, binary .lessEqual, binary .greater,
    binary .greaterEqual, binary .equal, binary .notEqual, binary .and, binary .or,
    unary .negate, unary .not]

/-- The text is ignored for a label that carries none. -/
def ofName? (labelName text : String) : Option Label :=
  (all text).find? fun label => label.name == labelName

theorem ofName?_name (label : Label) : ofName? label.name (label.text?.getD "") = some label := by
  cases label with
  | binary op => cases op <;> rfl
  | unary op => cases op <;> rfl
  | _ => rfl

end Label
end ImpSyntax

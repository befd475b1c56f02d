import Polyform.Datum.Operand

/-!
# Faults

Every way in which the library refuses its input is a constructor of `Fault`, and
`Fault.message` is the one place where the texts of the messages are written. A fault that
refuses an operand of the wrong type holds it, to show it by its written form or its type's
name. Faults fall into five kinds (`Fault.Kind`): a bad constant, a bad variable name, text
that does not parse, a value of the wrong type, and an integer too large for a double.

## Main definitions

* `Fault`: the causes.
* `Fault.kind`: the kind of a fault.
* `Fault.message`: its message.
-/

namespace Polyform

/-- Why the library refused its input. -/
inductive Fault where
  /-- A constant was given something that is not a number. -/
  | notNumber (x : Operand)
  /-- A constant was given an integer beyond the range of doubles. -/
  | numberTooLarge (n : Int)
  /-- A constant was given NaN or an infinity. -/
  | notFinite (x : Float)
  /-- A constant was given a negative number. -/
  | negative (x : Float)
  /-- A variable was given something that is not a non-empty text. -/
  | notName (x : Operand)
  /-- A variable name holds a character that is not an ASCII letter. -/
  | badName (s : List CodePoint)
  /-- An operand that should be an expression is a plain value. -/
  | notExpression (d : Datum)
  /-- Truncation was given something that is not a number. -/
  | notReal (x : Operand)
  /-- Truncation was given an integer beyond the range of doubles. -/
  | intTooLarge
  /-- The parser was given something that is not text. -/
  | notText (x : Operand)
  /-- A closing parenthesis at this position has no opening one before it. -/
  | unbalanced (pos : Nat) (text : List CodePoint)
  /-- An opening parenthesis is never closed. -/
  | unclosed (text : List CodePoint)
  /-- An operand, or the whole text, is empty. -/
  | empty
  /-- A piece of text is neither a number nor a variable. -/
  | badAtom (text : List CodePoint)
  /-- A numeral is beyond the range of doubles. -/
  | literalTooLarge (text : List CodePoint)

namespace Fault

/-- The kinds of fault. -/
inductive Kind where
  /-- A bad constant. -/
  | constant
  /-- A bad variable name. -/
  | name
  /-- Text that does not parse. -/
  | parsing
  /-- A value of the wrong type. -/
  | type
  /-- An integer too large for a double. -/
  | overflow
deriving DecidableEq, Repr

/-- The kind of a fault. -/
def kind : Fault → Kind
  | .notNumber _ | .numberTooLarge _ | .notFinite _ | .negative _ => .constant
  | .notName _ | .badName _ => .name
  | .notExpression _ | .notReal _ => .type
  | .intTooLarge => .overflow
  | .notText _ | .unbalanced _ _ | .unclosed _ | .empty | .badAtom _ | .literalTooLarge _ => .parsing

/-- The message of a fault. -/
def message : Fault → String
  | .notNumber x => "Constants must be numbers, got " ++ x.toText ++ "."
  | .numberTooLarge n => "Constant " ++ Datum.intText n ++ " is too large."
  | .notFinite x => "Constants must be finite, got " ++ Binary64.text x ++ "."
  | .negative x => "Constants must be non-negative, got " ++ Binary64.text x ++ "."
  | .notName x => "Variable names must be non-empty strings, got " ++ x.toText ++ "."
  | .badName s => "Variable name contains invalid chars: " ++ Text.quote s ++ "."
  | .notExpression d => "Expected an Expression, got " ++ d.typeName ++ "."
  | .notReal x => "must be real number, not " ++ x.typeName
  | .intTooLarge => "int too large to convert to float"
  | .notText x => "Can only parse strings, got " ++ x.typeName ++ "."
  | .unbalanced pos text =>
    "Unbalanced ')' at position " ++ Datum.intText pos ++ " in " ++ Text.quote text ++ "."
  | .unclosed text => "Unclosed '(' in " ++ Text.quote text ++ "."
  | .empty => "Can't parse an empty expression."
  | .badAtom text => "Can't parse " ++ Text.quote text ++ " as a number or a variable."
  | .literalTooLarge text => "Number " ++ Text.quote text ++ " is too large."

end Fault

end Polyform

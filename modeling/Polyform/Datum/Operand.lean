import Polyform.Datum.Basic
import Polyform.Expr.Basic

/-!
# Operands

Whatever is handed to the library is an `Operand`: an expression, or a plain value that is not
one. A constant, a variable, the parser and the combinators each take an operand, and a check
that refuses one shows it in its message: by its written form, which for an expression is its
text, or by the name of its type, which for an expression is the name of its class.

## Main definitions

* `Operand`: an expression or a plain value.
* `Operand.typeName`: the name of an operand's type.
* `Operand.toText`: the written form of an operand.
-/

namespace Polyform

/-- The name of the class of an expression of this kind. -/
def Expr.Kind.className : Expr.Kind → String
  | .const => "Constant"
  | .var => "Variable"
  | .sum => "Sum"
  | .prod => "Product"

/-- What is handed to the library: an expression, or a plain value that is not one. -/
inductive Operand where
  /-- An expression. -/
  | expr (e : Expr)
  /-- A plain value. -/
  | plain (d : Datum)
deriving Inhabited

namespace Operand

/-- The name of the type of an operand: the class of an expression, the type of a plain value. -/
def typeName : Operand → String
  | .expr e => e.kind.className
  | .plain d => d.typeName

/-- The written form of an operand: the text of an expression, the written form of a plain
value. -/
def toText : Operand → String
  | .expr e => e.render
  | .plain d => d.toText

end Operand

end Polyform

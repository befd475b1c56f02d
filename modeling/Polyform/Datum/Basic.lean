import Polyform.Binary64.Text
import Polyform.Text.Quoted

/-!
# Supplied values

A `Datum` is a value handed to the library from outside before anything has checked it: the
argument of a constructor or of a combinator, or the text given to the parser. Checks refuse a
datum of the wrong kind with a message that shows it, so a datum has a type name and a written
form: text quoted as `Text.quote` says, doubles as `Binary64.text`, `None`, `True`, `False`,
lists in brackets and maps in braces, items separated by `, `.

## Main definitions

* `Datum`: the values.
* `Datum.typeName`: the name of a datum's type.
* `Datum.toText`: the written form.
-/

namespace Polyform

/-- A value handed to the library from outside, not yet checked. -/
inductive Datum where
  /-- The absent value. -/
  | none
  /-- A truth value. -/
  | bool (b : Bool)
  /-- An integer of any size. -/
  | int (n : Int)
  /-- A double. -/
  | float (x : Float)
  /-- A text, as code points. -/
  | str (s : List CodePoint)
  /-- A list of values. -/
  | list (items : List Datum)
  /-- A map from texts to values, in the order of its entries. -/
  | dict (entries : List (List CodePoint × Datum))
deriving Inhabited

namespace Datum

/-- The name of the type of a datum. -/
def typeName : Datum → String
  | .none => "NoneType"
  | .bool _ => "bool"
  | .int _ => "int"
  | .float _ => "float"
  | .str _ => "str"
  | .list _ => "list"
  | .dict _ => "dict"

/-- The decimal digits of an integer, with a minus sign when it is negative. -/
def intText (n : Int) : String :=
  (if n < 0 then "-" else "") ++ String.ofList (Decimal.digitsOf n.natAbs)

mutual

/-- The written form of a datum. -/
def toText : Datum → String
  | .none => "None"
  | .bool b => if b then "True" else "False"
  | .int n => intText n
  | .float x => Binary64.text x
  | .str s => Text.quote s
  | .list items => "[" ++ itemsText items ++ "]"
  | .dict entries => "\x7b" ++ entriesText entries ++ "\x7d"

/-- The written forms of list items, separated by `, `. -/
def itemsText : List Datum → String
  | [] => ""
  | [d] => toText d
  | d :: ds => toText d ++ ", " ++ itemsText ds

/-- The written forms of map entries, key and value separated by `: `, entries by `, `. -/
def entriesText : List (List CodePoint × Datum) → String
  | [] => ""
  | [(k, d)] => Text.quote k ++ ": " ++ toText d
  | (k, d) :: es => Text.quote k ++ ": " ++ toText d ++ ", " ++ entriesText es

end

end Datum

end Polyform

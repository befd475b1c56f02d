import Polyform.Text.Printable

/-!
# Quoted text

`Text.quote` writes text between quotes so that it can be read back unambiguously. The quote is
the apostrophe, unless the text holds an apostrophe and no double quote. Inside, the quote and
the backslash are escaped by a backslash, tab, line feed and carriage return are written `\t`,
`\n` and `\r`, other control characters `\xNN`, and characters that are not printable `\xNN`,
`\uNNNN` or `\UNNNNNNNN` by the size of their code point, with lowercase hexadecimal digits.
Printable characters beyond ASCII stand for themselves.

## Main definitions

* `Text.quoteChar`: the quote chosen for a text.
* `Text.escape`: what one code point is written as.
* `Text.quote`: the quoted text.
-/

namespace Polyform

namespace Text

/-- The quote chosen for a text: the apostrophe, unless the text holds an apostrophe and no
double quote. -/
def quoteChar (cs : List CodePoint) : Char :=
  if cs.contains (.ofChar '\'') && !cs.contains (.ofChar '"') then '"' else '\''

/-- The lowercase hexadecimal digits of `n`, padded with zeros to `width`. -/
def hexDigits (width n : Nat) : List Char :=
  let ds := Nat.toDigits 16 n
  List.replicate (width - ds.length) '0' ++ ds

/-- What one code point is written as inside text quoted by `q`. -/
def escape (q : Char) (c : CodePoint) : List Char :=
  if c.val = q.toNat ∨ c.val = 0x5C then ['\\', c.toChar]
  else if c.val = 0x09 then ['\\', 't']
  else if c.val = 0x0A then ['\\', 'n']
  else if c.val = 0x0D then ['\\', 'r']
  else if c.val < 0x20 ∨ c.val = 0x7F then '\\' :: 'x' :: hexDigits 2 c.val
  else if c.val < 0x7F ∨ isPrintable c then [c.toChar]
  else if c.val ≤ 0xFF then '\\' :: 'x' :: hexDigits 2 c.val
  else if c.val ≤ 0xFFFF then '\\' :: 'u' :: hexDigits 4 c.val
  else '\\' :: 'U' :: hexDigits 8 c.val

/-- The text between quotes, each code point escaped as `escape` says. -/
def quote (cs : List CodePoint) : String :=
  let q := quoteChar cs
  String.ofList (q :: cs.flatMap (escape q) ++ [q])

example : quote (CodePoint.ofString "x\n") = "'x\\n'" := by decide +kernel
example : quote (CodePoint.ofString "it's") = "\"it's\"" := by decide +kernel
example : quote (CodePoint.ofString "\u2003x") = "'\\u2003x'" := by decide +kernel
example : quote [.ofChar 'x', ⟨0xDFFF⟩] = "'x\\udfff'" := by decide +kernel

end Text

end Polyform

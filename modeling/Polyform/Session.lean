import Polyform.Expr.Parse

/-!
# The reading session

A session reads lines one by one. Each line is trimmed; a blank line is passed over, and `exit`
or `quit` ends the session. Any other line is read as an expression: the reply is ` =  ` and
its text when it reads, and ` -> ` and the message of the refusal when it does not. The session
keeps the expressions it has read.

## Main definitions

* `Session.Reply`: what one line gets.
* `Session.respond`: the reply to one line.
* `Session.run`: the replies to the lines, and the expressions read.
-/

namespace Polyform

namespace Session

/-- The lines that end a session. -/
def exitCommands : List (List CodePoint) := ["exit", "quit"].map CodePoint.ofString

/-- What one line of a session gets. -/
inductive Reply where
  /-- The line is blank; nothing is written. -/
  | skip
  /-- The line ends the session. -/
  | stop
  /-- The line reads as an expression. -/
  | read (e : Expr)
  /-- The line does not read. -/
  | refuse (f : Fault)

/-- The reply to one line. -/
def respond (line : List CodePoint) : Reply :=
  let s := Text.trimList line
  if s.isEmpty then .skip
  else if s ∈ exitCommands then .stop
  else match Expr.parse s with
    | .ok e => .read e
    | .error f => .refuse f

/-- The line a reply writes, if any. -/
def Reply.text : Reply → Option String
  | .read e => some (" =  " ++ e.render)
  | .refuse f => some (" -> " ++ f.message)
  | _ => none

/-- The expression a reply has read, if any. -/
def Reply.expr? : Reply → Option Expr
  | .read e => some e
  | _ => none

/-- What a session has written and read. -/
structure Outcome where
  /-- The lines written, in order. -/
  output : List String
  /-- The expressions read, in order. -/
  parsed : List Expr

/-- The replies to the lines, up to the first that ends the session, and the expressions read. -/
def run : List (List CodePoint) → Outcome
  | [] => ⟨[], []⟩
  | line :: rest =>
    match respond line with
    | .stop => ⟨[], []⟩
    | r =>
      let o := run rest
      ⟨r.text.toList ++ o.output, r.expr?.toList ++ o.parsed⟩

end Session

end Polyform

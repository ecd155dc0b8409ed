/-!
# Reports of failures

A failure that a program reports is a chain of wordings: the outermost one first, each one followed by
what caused it.

* `Report.line`: the chain on one line.
* `Report.paragraphs`: the outermost wording, and below it a list of its causes.
-/

namespace SortLast

/-- A failure with its causes. -/
structure Report where
  text : String
  /-- The wordings of its causes, each one caused by the next. -/
  causes : List String := []
  deriving DecidableEq, Repr

namespace Report

/-- The report put below a wording of what was being done. -/
def within (r : Report) (context : String) : Report := ⟨context, r.text :: r.causes⟩

/-- All wordings, joined by colons. -/
def line (r : Report) : String := ": ".intercalate (r.text :: r.causes)

/-- A cause, indented below the label of its first line. -/
def causeText (label indent cause : String) : String :=
  "\n" ++ label ++ ("\n" ++ indent).intercalate (cause.splitOn "\n")

/-- The causes from number `n` on, each with its number. -/
def numbered (n : Nat) : List String → String
  | [] => ""
  | cause :: causes =>
    let number := toString n
    let label := "".pushn ' ' (5 - number.length) ++ number ++ ": "
    causeText label "       " cause ++ numbered (n + 1) causes

/-- The outermost wording and, if there are causes, a list of them; several causes are numbered. -/
def paragraphs (r : Report) : String :=
  match r.causes with
  | [] => r.text
  | [cause] => r.text ++ "\n\nCaused by:" ++ causeText "    " "    " cause
  | causes => r.text ++ "\n\nCaused by:" ++ numbered 0 causes

end Report

end SortLast

/-
A command line cut into tokens.  Blanks separate tokens; a double quote begins
and ends a stretch in which blanks are kept and a backslash takes the next
character as it is.  A token is a run of bare and quoted stretches, so `""` is
an empty token and `a"b c"d` is one token.
-/
import RemoteConsole.Log
import RemoteConsole.Text.Blank

namespace RemoteConsole.Text

/-- Where a line has been read to: the token under way, if one has begun, and
whether the place is inside quotes. -/
structure Scan where
  token : Log Char := .empty
  begun : Bool := false
  quoted : Bool := false
deriving DecidableEq, Repr

/-- Read a line from a given place. -/
def tokensFrom (scan : Scan) : List Char → List (List Char)
  | [] => if scan.begun then [scan.token.toList] else []
  | c :: cs =>
      if c = '"' then tokensFrom { scan with quoted := !scan.quoted, begun := true } cs
      else if c = '\\' ∧ scan.quoted then
        match cs with
        | [] => tokensFrom { scan with token := scan.token.add '\\' } []
        | d :: ds => tokensFrom { scan with token := scan.token.add d } ds
      else if isBlank c ∧ !scan.quoted then
        if scan.begun then scan.token.toList :: tokensFrom { quoted := scan.quoted } cs
        else tokensFrom scan cs
      else tokensFrom { scan with token := scan.token.add c, begun := true } cs

/-- The tokens of a command line, quotes and escapes resolved. -/
def tokens (line : String) : List String :=
  (tokensFrom {} line.toList).map String.ofList

end RemoteConsole.Text

/-
Text in lines.  `lines` reads a text as the lines it shows, `withNewline` puts
the line end of a transport in the place of each line feed.
-/
import RemoteConsole.Text.Blank

namespace RemoteConsole.Text

/-- Drop one carriage return from the end of a line. -/
def dropReturn (line : List Char) : List Char :=
  if line.getLast? = some '\r' then line.dropLast else line

/-- The lines of a text.  A line ends at a line feed or at a carriage return
and line feed; the last line may lack its end, and keeps a carriage return
that no line feed follows. -/
def lines (text : String) : List String :=
  let cut := pieces (· == '\n') text.toList
  let closed := cut.dropLast.map dropReturn
  let last := cut.getLastD []
  (closed ++ if last.isEmpty then [] else [last]).map String.ofList

/-- Put `newline` in the place of every line feed.  A text stays as it is if it has none,
or if line feeds are the line ends. -/
def withNewline (newline text : String) : String :=
  if !text.toList.contains '\n' || newline = "\n" then text
  else newline.intercalate ((pieces (· == '\n') text.toList).map String.ofList)

end RemoteConsole.Text

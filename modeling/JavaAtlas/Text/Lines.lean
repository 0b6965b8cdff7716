/-!
# Lines

Line ends of a text: reading turns every kind of line end into a line feed, and
a text has as many lines as it has line feeds, plus one for a last line without.
-/

namespace JavaAtlas.Text

/-- Turns carriage return with line feed, and carriage return alone, into line feed. -/
def unifyLineEnds : List Char → List Char
  | [] => []
  | '\r' :: '\n' :: rest => '\n' :: unifyLineEnds rest
  | c :: rest => (if c = '\r' then '\n' else c) :: unifyLineEnds rest

/-- A text whose line ends are all line feeds. -/
def withLineFeeds (s : String) : String :=
  String.ofList (unifyLineEnds s.toList)

/-- Number of lines of a text; a last line needs no line end. -/
def lineCount (s : String) : Nat :=
  let cs := s.toList
  cs.count '\n' + (if cs.isEmpty || cs.getLast? == some '\n' then 0 else 1)

end JavaAtlas.Text

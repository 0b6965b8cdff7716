import JavaAtlas.Text.Substring

/-!
# Choice of the layout engine

Where the usual layout engine is not installed, a diagram asks for another one
by a line of its own behind its first marker.  A text that has the request
already, or no marker, stays as it is.
-/

namespace JavaAtlas.Image

/-- The line that asks for the built-in layout engine. -/
def layoutRequest : String := "!pragma layout smetana"

/-- The marker behind which the request stands. -/
def diagramMarker : String := "@startuml"

/-- The text with the request for the built-in layout engine, if it is needed. -/
def withLayout (engineInstalled : Bool) (text : String) : String :=
  if engineInstalled then text
  else if Text.occursIn layoutRequest.toList text.toList then text
  else
    String.ofList
      (Text.replaceFirst diagramMarker.toList (diagramMarker ++ "\n" ++ layoutRequest).toList
        text.toList)

end JavaAtlas.Image

/-!
# Pieces of a text

Whether a piece occurs in a text, and replacing its first occurrence.
-/

namespace JavaAtlas.Text

/-- The piece occurs in the characters. -/
def occursIn (piece : List Char) : List Char → Bool
  | [] => piece.isEmpty
  | c :: cs => piece.isPrefixOf (c :: cs) || occursIn piece cs

/-- The characters with the first occurrence of a piece replaced. -/
def replaceFirst (piece new : List Char) : List Char → List Char
  | [] => if piece.isEmpty then new else []
  | c :: cs =>
    if piece.isPrefixOf (c :: cs) then new ++ (c :: cs).drop piece.length
    else c :: replaceFirst piece new cs

end JavaAtlas.Text

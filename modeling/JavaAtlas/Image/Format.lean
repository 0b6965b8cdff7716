import JavaAtlas.Text.Blank
import JavaAtlas.Text.Substring
import JavaAtlas.Text.Utf8

/-!
# Image formats

The formats in which diagrams are drawn, their media types, and how an image is
told from other octets.
-/

namespace JavaAtlas.Image

open Text.Utf8 (Bytes)

/-- A format of images. -/
inductive Format where
  | svg
  | png
  deriving DecidableEq, Repr, Inhabited

namespace Format

/-- Name of the format. -/
def name : Format → String
  | svg => "svg"
  | png => "png"

/-- All formats. -/
def all : List Format := [svg, png]

/-- The format with a name. -/
def ofName? (name : String) : Option Format :=
  all.find? fun f => f.name == name

theorem ofName?_name (f : Format) : ofName? f.name = some f := by
  cases f <;> decide

end Format

/-- Media type for the name of a format; an unknown name stands for any octets. -/
def mediaType (format : String) : String :=
  match Format.ofName? format with
  | some .svg => "image/svg+xml"
  | some .png => "image/png"
  | none => "application/octet-stream"

/-- The octets that begin every image of the second format. -/
def pngSignature : Bytes :=
  [0x89, 0x50, 0x4E, 0x47, 0x0D, 0x0A, 0x1A, 0x0A]

/-- Number of octets at the front that are looked at. -/
def headSize : Nat := 500

/-- The octets look like an image of the format. -/
def Format.resembles (f : Format) (data : Bytes) : Bool :=
  match f with
  | .png => pngSignature.isPrefixOf data
  | .svg =>
    let head := (Text.Utf8.decode (data.take headSize)).toList
    (Text.trimStart head).head? == some '<' && Text.occursIn "<svg".toList head

end JavaAtlas.Image

import JavaAtlas.Proofs.Text.Lines
import JavaAtlas.Proofs.Text.Utf8
import JavaAtlas.Source.Reader

/-!
# Texts given by their characters

A file holds octets, and its tokens are found in a list of characters.  Where the text of a
file is given by its characters, the file is read as just these: nothing has to be encoded
and decoded to tell its unit.

Main definitions:

- `Java.readCharacters`: reading a list of characters.
- `CompilationUnit.ofCharacters`: the unit of a list of characters.
- `HoldsTexts`: files with texts that are given by their characters.
- `charactersReader`: reading the characters of files.

Main results:

- Theorem `CompilationUnit.ofText_ofList`: the unit of a text is that of its characters.
- Theorem `HoldsTexts.hinderedReader_eq`: files that hold texts are read as their characters.
-/

namespace JavaAtlas

namespace Java

/-- Reads a list of characters. -/
def readCharacters (cs : List Char) : Except FaultTree Tree :=
  let inside := match cs with
    | '\uFEFF' :: rest => rest
    | all => all
  let ts := scanFrom (inside.length + 1) [] 0 [] inside
  match parse Grammar.table .program .program ts with
  | .ok t => .ok t
  | .error f => .error (f.tree ts)

theorem read_ofList (cs : List Char) : read (String.ofList cs) = readCharacters cs := by
  change readCharacters (String.ofList cs).toList = readCharacters cs
  rw [String.toList_ofList]

end Java

namespace Source

open Java Storage FileSystem
open Text.Utf8 (encode decode_encode)

/-- The unit of a list of characters. -/
def CompilationUnit.ofCharacters (language : Language) (path : String) (cs : List Char) :
    CompilationUnit :=
  let lines := Text.lineCount (String.ofList cs)
  match readCharacters cs with
  | .ok tree => ofTree language path lines tree
  | .error fault => broken language path lines (.syntaxFault fault.firstFaultLine)

/-- The unit of a text is that of its characters. -/
theorem CompilationUnit.ofText_ofList (language : Language) (path : String) (cs : List Char) :
    ofText language path (String.ofList cs) = ofCharacters language path cs := by
  have hread := read_ofList cs
  unfold ofText ofCharacters
  cases hchars : readCharacters cs with
  | ok tree =>
      rw [hread.trans hchars]
  | error fault =>
      rw [hread.trans hchars]

/-- Texts one behind the other have the characters of both. -/
theorem append_eq_ofList {s t : String} {as bs : List Char} (hs : s = String.ofList as)
    (ht : t = String.ofList bs) : s ++ t = String.ofList (as ++ bs) := by
  rw [hs, ht, String.ofList_append]

/-- A text is read from its octets; only carriage returns would be changed. -/
theorem textOfFile_encode {text : String} (h : '\r' ∉ text.toList) :
    textOfFile (encode text) = text := by
  rw [textOfFile, decode_encode, Text.withLineFeeds_eq_self h]

/-- A file that holds the octets of a text is read as the characters of that text. -/
theorem unitOfFile_of_characters {fs : FileSystem} {language : Language} {p : Path}
    {text : String} {cs : List Char} (hread : fs.read p = .ok (encode text))
    (htext : text = String.ofList cs) (hreturn : '\r' ∉ cs) :
    unitOfFile fs language "" p = .ofCharacters language (shownPath "" p.text) cs := by
  have hchars : '\r' ∉ text.toList := by rwa [htext, String.toList_ofList]
  simp only [unitOfFile, hread]
  rw [textOfFile_encode hchars, htext, CompilationUnit.ofText_ofList]

/-! ## Files -/

/-- Files hold the octets of texts that are given by their characters. -/
inductive HoldsTexts (fs : FileSystem) : List (Path × List Char) → Prop where
  | nil : HoldsTexts fs []
  | cons {p : Path} {text : String} {cs : List Char} {texts : List (Path × List Char)}
      (hread : fs.read p = .ok (encode text)) (htext : text = String.ofList cs)
      (hreturn : '\r' ∉ cs) (h : HoldsTexts fs texts) : HoldsTexts fs ((p, cs) :: texts)

/-- Reads files from the characters of their texts. -/
def charactersReader (texts : List (Path × List Char)) : Reader := fun p =>
  match texts.lookup p with
  | some cs => .ok (.ofCharacters .java (shownPath "" p.text) cs)
  | none => .error ""

/-- Files that hold texts are read as their characters. -/
theorem HoldsTexts.hinderedReader_eq {fs : FileSystem} {texts : List (Path × List Char)}
    (h : HoldsTexts fs texts) :
    ∀ p ∈ texts.map Prod.fst, hinderedReader fs {} p = charactersReader texts p := by
  induction h with
  | nil => exact nofun
  | @cons q text cs texts hread htext hreturn _ ih =>
      intro p hp
      by_cases hpq : p = q
      case pos =>
        subst hpq
        rw [charactersReader, List.lookup_cons_self]
        exact congrArg Except.ok (unitOfFile_of_characters hread htext hreturn)
      case neg =>
        rw [ih p (by simpa [hpq] using hp), charactersReader, charactersReader, List.lookup_cons,
          beq_false_of_ne hpq]

end Source

end JavaAtlas

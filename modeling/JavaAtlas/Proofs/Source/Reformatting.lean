import JavaAtlas.Source.CompilationUnit
import JavaAtlas.Proofs.Java.Correspondence
import JavaAtlas.Proofs.Java.Joints

/-!
# Reformatted files

A file may be formatted anew, with other blanks and comments between the same tokens.  It
is then read as before, and its declarations have the same kinds, names and members.  As
long as the formatting is even where names of packages and imports and types are read, the
unit is the same but for the number of lines.  Elsewhere the formatting shows: in the text
of a package, as a type in a clause, in the text of a type.

Main results:

- Theorem `ofText_of_sameCode`: a reformatted file is valid if the file was, and its unit
  is the same wherever the formatting is even.
- Theorem `formatting_shows`: uneven formatting does change the unit.
-/

namespace JavaAtlas.Source

open Java Java.Tree

/-- Both texts are formatted evenly where declarations are read from them. -/
def EvenlyFormatted (source source' : String) : Prop :=
  match read source, read source' with
  | .ok t, .ok u => t.EvenlyFormatted u
  | _, _ => True

instance (source source' : String) : Decidable (EvenlyFormatted source source') := by
  unfold EvenlyFormatted
  split <;> infer_instance

namespace CompilationUnit

/-- A text that consists of the same tokens as a valid one is valid too.  Both declare the
same types with the same members, and if they are evenly formatted, their units are the
same but for the number of lines. -/
theorem ofText_of_sameCode {language : Language} {path source source' : String}
    (hcode : SameCode source source') (hvalid : (ofText language path source).isValid = true) :
    let u := ofText language path source
    let u' := ofText language path source'
    u'.isValid = true ∧
      List.Forall₂ (Declaration.Like fun _ _ => True) u.declarations u'.declarations ∧
      (EvenlyFormatted source source' → u' = { u with lineCount := u'.lineCount }) := by
  obtain ⟨t, hread⟩ := exists_read_of_isValid hvalid
  obtain ⟨t', hread', hshape⟩ := read_alike hcode hread
  have hlisting := every_isListing_of_read hread
  dsimp only
  rw [ofText_of_read hread, ofText_of_read hread']
  refine ⟨rfl, forall₂_like_declarations hshape hlisting _ _, fun heven => ?_⟩
  have halike : t.EvenlyFormatted t' := by
    unfold EvenlyFormatted at heven
    rwa [hread, hread'] at heven
  rw [ofTree, ofTree, packageName_eq halike, imports_eq halike hlisting,
    declarations_eq halike hlisting]

/-- Blanks around brackets, between closing marks and behind commas make no difference, nor
do comments between members. -/
theorem ofText_of_sameCode_reformatted :
    let source := "package a.b;\nclass A extends D<E> \x7b List<List<B>> x[]; \x7d"
    let source' :=
      "package a.b;\nclass A extends D < E > \x7b\n // lists\n List<List<B> > x [ ];\n\x7d"
    let u := ofText .java "A.java" source
    let u' := ofText .java "A.java" source'
    SameCode source source' ∧ u.isValid = true ∧ u'.isValid = true ∧
      List.Forall₂ (Declaration.Like fun _ _ => True) u.declarations u'.declarations ∧
      u' = { u with lineCount := u'.lineCount } := by
  intro source source' u u'
  have hchecked : SameCode source source' ∧ u.isValid = true ∧
      EvenlyFormatted source source' := by decide +kernel
  obtain ⟨hcode, hvalid, heven⟩ := hchecked
  obtain ⟨hvalid', hlike, hsame⟩ := ofText_of_sameCode hcode hvalid
  exact ⟨hcode, hvalid, hvalid', hlike, hsame heven⟩

/-- Formatting shows where it is not even: blanks in the name of a package, a comment in a
clause, a missing blank behind a question mark, a comment before the type of a parameter
that takes any number of arguments. -/
theorem formatting_shows :
    (SameCode "package a.b;\nclass C \x7b\x7d" "package a . b;\nclass C \x7b\x7d" ∧
      (ofText .java "A.java" "package a.b;\nclass C \x7b\x7d").package = "a.b" ∧
      (ofText .java "A.java" "package a . b;\nclass C \x7b\x7d").package = "a . b") ∧
    (SameCode "class A extends B \x7b\x7d" "class A extends /*c*/ B \x7b\x7d" ∧
      (ofText .java "A.java" "class A extends B \x7b\x7d").declarations.map
        Declaration.extends = [[⟨"B", some "B"⟩]] ∧
      (ofText .java "A.java" "class A extends /*c*/ B \x7b\x7d").declarations.map
        Declaration.extends = [[⟨"/*c*/", none⟩, ⟨"B", some "B"⟩]]) ∧
    (SameCode "class A \x7b L<? extends B> x; \x7d" "class A \x7b L<?extends B> x; \x7d" ∧
      (ofText .java "A.java" "class A \x7b L<? extends B> x; \x7d").declarations.map
        (fun d => d.fields.map Field.type) = [[⟨"L<? extends B>", some "L"⟩]] ∧
      (ofText .java "A.java" "class A \x7b L<?extends B> x; \x7d").declarations.map
        (fun d => d.fields.map Field.type) = [[⟨"L<?extends B>", some "L"⟩]]) ∧
    SameCode "interface A \x7b void f(final B... b); \x7d"
        "interface A \x7b void f(final /*c*/ B... b); \x7d" ∧
      (ofText .java "A.java" "interface A \x7b void f(final B... b); \x7d").declarations.map
        (fun d => d.methods.map Method.parameters) = [[[⟨"b", ⟨"B", some "B"⟩⟩]]] ∧
      (ofText .java "A.java" "interface A \x7b void f(final /*c*/ B... b); \x7d").declarations.map
        (fun d => d.methods.map Method.parameters) = [[[⟨"b", ⟨"/*c*/", none⟩⟩]]] := by
  decide +kernel

end CompilationUnit

end JavaAtlas.Source

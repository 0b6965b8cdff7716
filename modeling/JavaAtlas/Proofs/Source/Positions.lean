import JavaAtlas.Proofs.Java.Parameters
import JavaAtlas.Proofs.Source.Characters

/-!
# Types in a valid unit

In the unit of a valid text every place that names a type is read once: the clauses of its
declarations, the results of their methods and the parameters.  Where a comment stands in a
clause between its types, or behind the modifiers of a parameter for any number of
arguments, it is read as a type.

Main results:

- Theorem `CompilationUnit.positions_exact`: what the declarations of a valid unit hold.
- Theorem `CompilationUnit.comments_read_as_types`: comments that are read as types.
-/

namespace JavaAtlas.Source

open Java

namespace CompilationUnit

/-- Places that name types are read exactly.  The declarations of a valid unit belong to the
classes and interfaces of its tree, one to each.  What they extend and implement are the types
that the clauses name, in their order, and nothing else exactly if no comment stands between
them; a comment there is read as one type more.  These types have simple names unless they
are primitive or arrays.  Every method directly in the body is read with the type that it
returns, and every parameter of it with the declared type, or with the first comment behind the
modifiers if it takes any number of arguments. -/
theorem positions_exact {language : Language} {path text : String}
    (h : (ofText language path text).isValid = true) :
    ∃ root, Java.read text = .ok root ∧
      List.Forall₂ DeclarationRead (typeDeclarationNodes root)
        (ofText language path text).declarations := by
  obtain ⟨root, hread⟩ := exists_read_of_isValid h
  refine ⟨root, hread, ?_⟩
  rw [ofText_of_read hread]
  exact forall₂_declarationRead hread _

set_option maxRecDepth 4096 in
/-- Annotations, type arguments and qualifiers in clauses, a parameter that stands for the
object itself, brackets behind a name, and a class inside a method, with comments elsewhere. -/
theorem positions_exact_nested :
    let text := "interface I extends J<K, L> /*x*/, p.M \x7b\x7d " ++
      "class A<T> extends @N B<int[]> /*y*/ implements I, q.O<T> \x7b " ++
      "void f(A<T> this, /*z*/ int n, C c[], final D... d) " ++
      "\x7b class E extends F \x7b\x7d \x7d \x7d"
    let u := ofText .java "A.java" text
    u.isValid = true ∧
      (∃ root, Java.read text = .ok root ∧
        List.Forall₂ DeclarationRead (typeDeclarationNodes root) u.declarations) ∧
      u.declarations.map (fun d => (d.name, d.extends, d.implements)) =
        [("I", [⟨"J<K, L>", some "J"⟩, ⟨"/*x*/", none⟩, ⟨"p.M", some "M"⟩], []),
          ("A", [⟨"@N B<int[]>", some "B"⟩],
            [⟨"I", some "I"⟩, ⟨"q.O<T>", some "O"⟩]),
          ("E", [⟨"F", some "F"⟩], [])] ∧
      u.declarations.flatMap (fun d => d.methods.map Method.parameters) =
        [[⟨"n", ⟨"int", none⟩⟩, ⟨"c", ⟨"C[]", none⟩⟩, ⟨"d", ⟨"D", some "D"⟩⟩]] := by
  intro text u
  have htext : text = String.ofList _ :=
    append_eq_ofList (append_eq_ofList (append_eq_ofList rfl rfl) rfl) rfl
  have hu : u = ofCharacters .java "A.java" _ :=
    (congrArg (ofText .java "A.java") htext).trans (ofText_ofList _ _ _)
  have hread : u.isValid = true ∧
      u.declarations.map (fun d => (d.name, d.extends, d.implements)) =
        [("I", [⟨"J<K, L>", some "J"⟩, ⟨"/*x*/", none⟩, ⟨"p.M", some "M"⟩], []),
          ("A", [⟨"@N B<int[]>", some "B"⟩],
            [⟨"I", some "I"⟩, ⟨"q.O<T>", some "O"⟩]),
          ("E", [⟨"F", some "F"⟩], [])] ∧
      u.declarations.flatMap (fun d => d.methods.map Method.parameters) =
        [[⟨"n", ⟨"int", none⟩⟩, ⟨"c", ⟨"C[]", none⟩⟩, ⟨"d", ⟨"D", some "D"⟩⟩]] := by
    rw [hu]
    decide +kernel
  exact ⟨hread.1, positions_exact hread.1, hread.2⟩

/-- In a clause a comment is read as a type without name, and behind the modifiers of a
parameter for any number of arguments it takes the place of the declared type. -/
theorem comments_read_as_types :
    let inClause := ofText .java "A.java" "class A extends /*c*/ B \x7b\x7d"
    let inParameter := ofText .java "A.java" "interface A \x7b void f(final /*c*/ B... b); \x7d"
    (inClause.isValid = true ∧
      inClause.declarations.map Declaration.extends =
        [[⟨"/*c*/", none⟩, ⟨"B", some "B"⟩]]) ∧
    inParameter.isValid = true ∧
      inParameter.declarations.flatMap (fun d => d.methods.map Method.parameters) =
        [[⟨"b", ⟨"/*c*/", none⟩⟩]] := by
  decide +kernel

end CompilationUnit

end JavaAtlas.Source

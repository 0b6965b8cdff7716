import Mathlib.Data.List.DropRight
import JavaAtlas.Text.Pieces
import JavaAtlas.Proofs.Diagram.Layout

/-!
# Reading the lines of a diagram

Each line of a diagram tells its own kind: a member begins with two blanks, an edge has
an arrow for its second word, and any other line of several words is a header.  No sign
stands in a name, so names end where the next sign begins, and the colon behind the name of
every parameter tells the commas between parameters from those inside a type.

Main definitions:

- `shownField`, `shownMethod`, `shownEdge`: what a line shows of a part.
- `readLine?`: what a line of text shows.
- `IsName`: texts that can stand for names.

Main results:

- Theorem `parametersOf_intercalate`: the list of parameters is read back.
- Theorems `readLine?_fieldLine`, `readLine?_methodLine`, `readLine?_header`,
  `readLine?_edgeLine`: every kind of line is read back.
-/

namespace JavaAtlas.Diagram.PlantUml

open Java Text

/-! ## What is shown -/

/-- A type is shown by its text. -/
def shownType (t : TypeUse) : TypeUse :=
  ⟨t.text, none⟩

/-- All of a variable is shown. -/
def shownField (f : Field) : Field :=
  { f with type := shownType f.type }

/-- All of a parameter is shown. -/
def shownParameter (p : Parameter) : Parameter :=
  { p with type := shownType p.type }

/-- All of a method is shown. -/
def shownMethod (m : Method) : Method :=
  { m with returnType := shownType m.returnType, parameters := m.parameters.map shownParameter }

/-- Inheritance and realization are not told apart. -/
def shownKind : EdgeKind → EdgeKind
  | .association => .association
  | .dependency => .dependency
  | .inheritance => .inheritance
  | .realization => .inheritance

/-- An edge is shown up to its kind; only an association shows its label. -/
def shownEdge (e : Edge) : Edge :=
  { e with
    kind := shownKind e.kind
    label := if e.kind = .association then e.label else none }

/-- A line that shows something. -/
inductive Line where
  | header (kind : TypeKind) (qualifiedName : String)
  | field (f : Field)
  | method (m : Method)
  | edge (e : Edge)
  deriving DecidableEq, Repr

/-! ## Reader of lines -/

/-- The characters before the first separator, and those behind it. -/
def cut? (separator : Char) (cs : List Char) : Option (List Char × List Char) :=
  match cs.dropWhile (· != separator) with
  | [] => none
  | _ :: behind => some (cs.takeWhile (· != separator), behind)

/-- The characters behind a mark at the front. -/
def behind? (mark : String) (cs : List Char) : Option (List Char) :=
  mark.toList.isPrefixOf? cs

/-- The type with a text. -/
def typeOf (text : List Char) : TypeUse :=
  ⟨String.ofList text, none⟩

/-- The visibility with a sign. -/
def visibilityOf? (mark : List Char) : Option Visibility :=
  [.public, .private, .protected, .package].find? fun v => (sign v).toList == mark

/-- The kind of edge with an arrow. -/
def kindOf? (mark : List Char) : Option EdgeKind :=
  [.association, .dependency, .inheritance].find? fun k => (arrow k).toList == mark

/-- The parameters from the pieces between colons, the first of which is given as a name.
A piece holds a type and, unless it is the last one, a comma and the next name. -/
def parametersFrom (name : List Char) : List (List Char) → List Parameter
  | [] => []
  | [last] => [⟨String.ofList name, typeOf (last.drop 1)⟩]
  | piece :: next :: rest =>
    let following := piece.rtakeWhile (· != ' ')
    ⟨String.ofList name, typeOf ((piece.drop 1).rdrop (following.length + 2))⟩ ::
      parametersFrom following (next :: rest)

/-- The parameters in a list. -/
def parametersOf (cs : List Char) : List Parameter :=
  match pieces ':' cs with
  | [] => []
  | name :: rest => parametersFrom name rest

/-- The method from its visibility, its name and what stands behind the name. -/
def methodOf? (visibility : Visibility) (name cs : List Char) : Option Method := do
  let cs ← behind? "(" cs
  let (parameters, cs) ← cut? ')' cs
  let returned ← behind? " : " cs
  return ⟨visibility, typeOf returned, String.ofList name, parametersOf parameters⟩

/-- The blank or the parenthesis behind the name of a member. -/
def endsName (c : Char) : Bool :=
  c == ' ' || c == '('

/-- The variable or the method of a line inside a block. -/
def memberOf? (cs : List Char) : Option Line := do
  let (mark, cs) ← cut? ' ' cs
  let visibility ← visibilityOf? mark
  let name := cs.takeWhile fun c => !endsName c
  let cs := cs.dropWhile fun c => !endsName c
  match behind? " : " cs with
  | some type => return .field ⟨visibility, typeOf type, String.ofList name⟩
  | none => (methodOf? visibility name cs).map .method

/-- The header or the edge of a line with a first word. -/
def outerOf? (first cs : List Char) : Option Line := do
  let (second, cs) ← cut? ' ' cs
  match kindOf? second with
  | some kind =>
    let target := cs.takeWhile (· != ' ')
    let label := behind? " : " (cs.dropWhile (· != ' '))
    return .edge ⟨String.ofList first, String.ofList target, kind, label.map String.ofList⟩
  | none =>
    let kind ← TypeKind.ofKeyword? (String.ofList first)
    return .header kind (String.ofList second)

/-- What a line shows.  The markers and the closing brace show nothing. -/
def readLine? (cs : List Char) : Option Line := do
  let (first, cs) ← cut? ' ' cs
  if first = [] then (behind? " " cs).bind memberOf? else outerOf? first cs

/-! ## Readers and marks -/

theorem cut?_append_cons {separator : Char} {cs : List Char} (h : separator ∉ cs)
    (rest : List Char) : cut? separator (cs ++ separator :: rest) = some (cs, rest) := by
  have hpos : ∀ c ∈ cs, (c != separator) = true := fun c hc =>
    bne_iff_ne.mpr fun heq => h (heq ▸ hc)
  simp [cut?, List.dropWhile_append_of_pos hpos, List.takeWhile_append_of_pos hpos]

theorem cut?_of_not_mem {separator : Char} {cs : List Char} (h : separator ∉ cs) :
    cut? separator cs = none := by
  have hpos : ∀ c ∈ cs, (c != separator) = true := fun c hc =>
    bne_iff_ne.mpr fun heq => h (heq ▸ hc)
  rw [cut?, List.dropWhile_eq_nil_iff.mpr hpos]

theorem behind?_append (mark : String) (rest : List Char) :
    behind? mark (mark.toList ++ rest) = some rest :=
  List.isPrefixOf?_eq_some_iff_append_eq.mpr rfl

theorem visibilityOf?_sign (v : Visibility) : visibilityOf? (sign v).toList = some v := by
  cases v <;> decide

theorem kindOf?_arrow (k : EdgeKind) : kindOf? (arrow k).toList = some (shownKind k) := by
  cases k <;> decide

theorem ofKeyword?_keyword (k : TypeKind) : TypeKind.ofKeyword? k.keyword = some k := by
  cases k <;> rfl

theorem blank_not_mem_sign (v : Visibility) : ' ' ∉ (sign v).toList := by
  cases v <;> decide

theorem blank_not_mem_arrow (k : EdgeKind) : ' ' ∉ (arrow k).toList := by
  cases k <;> decide

theorem blank_not_mem_keyword (k : TypeKind) : ' ' ∉ k.keyword.toList := by
  cases k <;> decide

/-! ## Legible parts -/

/-- Signs that never stand in a name. -/
def nameSigns : List Char := [' ', '\n', '(', ')', ',', ':', '<', '>']

/-- The text can stand for a name: it is not empty, and no sign is in it. -/
def IsName (name : String) : Prop :=
  name ≠ "" ∧ ∀ c ∈ nameSigns, c ∉ name.toList

/-- The text of the type has no line end, no closing parenthesis and no colon. -/
def IsLegibleType (t : TypeUse) : Prop :=
  ∀ c ∈ ['\n', ')', ':'], c ∉ t.text.toList

-- the signs are gone through one by one, not all characters
instance (name : String) : Decidable (IsName name) :=
  have : Decidable (∀ c ∈ nameSigns, c ∉ name.toList) := List.decidableBAll _ _
  inferInstanceAs (Decidable (_ ∧ _))

instance (t : TypeUse) : Decidable (IsLegibleType t) :=
  List.decidableBAll _ _

/-- The parts of a parameter are legible. -/
structure LegibleParameter (p : Parameter) : Prop where
  name : IsName p.name
  type : IsLegibleType p.type

/-- The parts of a variable are legible. -/
structure LegibleField (f : Field) : Prop where
  name : IsName f.name
  type : IsLegibleType f.type

/-- The parts of a method are legible. -/
structure LegibleMethod (m : Method) : Prop where
  name : IsName m.name
  parameters : ∀ p ∈ m.parameters, LegibleParameter p
  returnType : IsLegibleType m.returnType

/-- The ends of an edge are names, and the label of an association is not empty
and has no line end. -/
structure LegibleEdge (e : Edge) : Prop where
  source : IsName e.source
  target : IsName e.target
  label : e.kind = .association → ∀ label ∈ e.label, label ≠ "" ∧ '\n' ∉ label.toList

instance (p : Parameter) : Decidable (LegibleParameter p) :=
  decidable_of_iff (IsName p.name ∧ IsLegibleType p.type)
    ⟨fun h => ⟨h.1, h.2⟩, fun h => ⟨h.1, h.2⟩⟩

instance (f : Field) : Decidable (LegibleField f) :=
  decidable_of_iff (IsName f.name ∧ IsLegibleType f.type)
    ⟨fun h => ⟨h.1, h.2⟩, fun h => ⟨h.1, h.2⟩⟩

instance (m : Method) : Decidable (LegibleMethod m) :=
  decidable_of_iff
    (IsName m.name ∧ (∀ p ∈ m.parameters, LegibleParameter p) ∧ IsLegibleType m.returnType)
    ⟨fun h => ⟨h.1, h.2.1, h.2.2⟩, fun h => ⟨h.1, h.2, h.3⟩⟩

instance (e : Edge) : Decidable (LegibleEdge e) :=
  decidable_of_iff
    (IsName e.source ∧ IsName e.target ∧
      (e.kind = .association → ∀ label ∈ e.label, label ≠ "" ∧ '\n' ∉ label.toList))
    ⟨fun h => ⟨h.1, h.2.1, h.2.2⟩, fun h => ⟨h.1, h.2, h.3⟩⟩

theorem IsName.ne_nil {name : String} (h : IsName name) : name.toList ≠ [] := fun hnil =>
  h.1 (String.toList_eq_nil_iff.mp hnil)

/-- A name is not an arrow. -/
theorem IsName.kindOf?_eq_none {name : String} (h : IsName name) :
    kindOf? name.toList = none := by
  have hless : '<' ∉ name.toList := h.2 '<' (by decide)
  have hgreater : '>' ∉ name.toList := h.2 '>' (by decide)
  refine List.find?_eq_none.mpr fun k hk hmark => ?_
  rw [← beq_iff_eq.mp hmark] at hless hgreater
  cases k <;> revert hless hgreater <;> decide

/-! ## Lists of parameters -/

theorem toList_parameterText (p : Parameter) :
    (parameterText p).toList = p.name.toList ++ ':' :: ' ' :: p.type.text.toList := by
  simp [parameterText, toString]

/-- The last word of a piece is the next name, and what stands before the comma is the type. -/
theorem parametersFrom_cons_cons {name type following : List Char} (h : ' ' ∉ following)
    (next : List Char) (rest : List (List Char)) :
    parametersFrom name ((' ' :: (type ++ ',' :: ' ' :: following)) :: next :: rest) =
      ⟨String.ofList name, typeOf type⟩ :: parametersFrom following (next :: rest) := by
  have hword : (' ' :: (type ++ ',' :: ' ' :: following)).rtakeWhile (· != ' ') = following := by
    have hreverse : (' ' :: (type ++ ',' :: ' ' :: following)).reverse =
        following.reverse ++ ' ' :: ',' :: (type.reverse ++ [' ']) := by simp
    have hpos : ∀ c ∈ following.reverse, (c != ' ') = true := fun c hc =>
      bne_iff_ne.mpr fun heq => h (heq ▸ List.mem_reverse.mp hc)
    rw [List.rtakeWhile, hreverse, List.takeWhile_append_of_pos hpos,
      List.takeWhile_cons_of_neg (by decide), List.append_nil, List.reverse_reverse]
  have htype : (type ++ ',' :: ' ' :: following).rdrop (following.length + 2) = type := by
    have hlength : (type ++ ',' :: ' ' :: following).length - (following.length + 2) =
        type.length := by
      simp only [List.length_append, List.length_cons]
      omega
    rw [List.rdrop, hlength, List.take_left]
  rw [parametersFrom, hword, List.drop_one, List.tail_cons, htype]

/-- A list of parameters begins with the first name and a colon. -/
theorem exists_toList_intercalate (p : Parameter) (ps : List Parameter) :
    ∃ rest, (", ".intercalate ((p :: ps).map parameterText)).toList =
      p.name.toList ++ ':' :: rest := by
  cases ps with
  | nil => exact ⟨_, by simpa using toList_parameterText p⟩
  | cons q qs =>
      rw [List.map_cons, List.map_cons, String.intercalate_cons_cons, String.append_assoc,
        String.toList_append, toList_parameterText, List.append_assoc]
      exact ⟨_, rfl⟩

/-- Behind the first colon stand the type and the next name, up to the colon of that. -/
theorem toList_intercalate_cons_cons {p q : Parameter} {qs : List Parameter} {rest : List Char}
    (h : (", ".intercalate ((q :: qs).map parameterText)).toList = q.name.toList ++ ':' :: rest) :
    (", ".intercalate ((p :: q :: qs).map parameterText)).toList =
      p.name.toList ++ ':' ::
        ((' ' :: (p.type.text.toList ++ ',' :: ' ' :: q.name.toList)) ++ ':' :: rest) := by
  have hcons := String.intercalate_cons_cons (s := ", ") (t := parameterText p)
    (u := parameterText q) (l := qs.map parameterText)
  rw [List.map_cons] at h
  rw [List.map_cons, List.map_cons, hcons, String.toList_append, String.toList_append, h,
    toList_parameterText]
  simp

/-- The list of parameters is read back. -/
theorem parametersOf_intercalate {ps : List Parameter} (h : ∀ p ∈ ps, LegibleParameter p) :
    parametersOf (", ".intercalate (ps.map parameterText)).toList = ps.map shownParameter := by
  cases ps with
  | nil => rfl
  | cons p ps =>
      induction ps generalizing p with
      | nil =>
          have hp := h p List.mem_cons_self
          have htype : ':' ∉ ' ' :: p.type.text.toList := by
            simpa using hp.type ':' (by decide)
          have htext : (", ".intercalate ([p].map parameterText)).toList =
              p.name.toList ++ ':' :: ' ' :: p.type.text.toList := by
            simpa using toList_parameterText p
          rw [htext, parametersOf, pieces_append_cons (hp.name.2 ':' (by decide)),
            pieces_of_not_mem htype]
          simp [parametersFrom, typeOf, shownParameter, shownType]
      | cons q qs ih =>
          have hp := h p List.mem_cons_self
          have hq : LegibleParameter q := h q (by simp)
          have hcolon : ':' ∉ q.name.toList := hq.name.2 _ (by decide)
          have hpiece : ':' ∉ ' ' :: (p.type.text.toList ++ ',' :: ' ' :: q.name.toList) := by
            simp [hp.type ':' (by decide), hcolon]
          obtain ⟨rest, htext⟩ := exists_toList_intercalate q qs
          obtain ⟨next, others, hpieces⟩ := List.exists_cons_of_ne_nil (pieces_ne_nil ':' rest)
          have hrest := ih q fun r hr => h r (List.mem_cons_of_mem p hr)
          rw [htext, parametersOf, pieces_append_cons hcolon, hpieces] at hrest
          rw [toList_intercalate_cons_cons htext, parametersOf,
            pieces_append_cons (hp.name.2 ':' (by decide)), pieces_append_cons hpiece, hpieces]
          dsimp only at hrest ⊢
          rw [parametersFrom_cons_cons (hq.name.2 _ (by decide)), hrest, List.map_cons]
          simp [typeOf, shownParameter, shownType]

/-- No closing parenthesis stands in a list of parameters. -/
theorem parenthesis_not_mem_intercalate {ps : List Parameter}
    (h : ∀ p ∈ ps, LegibleParameter p) :
    ')' ∉ (", ".intercalate (ps.map parameterText)).toList := by
  refine not_mem_intercalate (by decide) fun line hline => ?_
  obtain ⟨p, hp, rfl⟩ := List.mem_map.mp hline
  have hname : ')' ∉ p.name.toList := (h p hp).name.2 ')' (by decide)
  have htype : ')' ∉ p.type.text.toList := (h p hp).type ')' (by decide)
  simp [toList_parameterText, hname, htype]

/-! ## Lines -/

theorem toList_inside (line : String) : (inside line).toList = ' ' :: ' ' :: line.toList := by
  simp [inside]

theorem toList_fieldLine (f : Field) :
    (fieldLine f).toList =
      (sign f.visibility).toList ++ ' ' ::
        (f.name.toList ++ ' ' :: ':' :: ' ' :: f.type.text.toList) := by
  simp [fieldLine, toString]

theorem toList_methodLine (m : Method) :
    (methodLine m).toList =
      (sign m.visibility).toList ++ ' ' :: (m.name.toList ++ '(' ::
        ((", ".intercalate (m.parameters.map parameterText)).toList ++ ')' ::
          ' ' :: ':' :: ' ' :: m.returnType.text.toList)) := by
  simp [methodLine, toString]

theorem toList_header (d : Declaration) :
    (header d).toList =
      d.kind.keyword.toList ++ ' ' :: (d.qualifiedName.toList ++ ' ' :: ['\x7b']) := by
  simp [header]

theorem toList_edgeLine (e : Edge) :
    (edgeLine e).toList =
      e.source.toList ++ ' ' :: ((arrow e.kind).toList ++ ' ' ::
        (e.target.toList ++ (labelText e).toList)) := by
  simp [edgeLine, toString]

/-- A line inside a block is read as a member. -/
theorem readLine?_inside (line : String) :
    readLine? (inside line).toList = memberOf? line.toList := by
  have hcut : cut? ' ' (' ' :: ' ' :: line.toList) = some ([], ' ' :: line.toList) :=
    @cut?_append_cons ' ' [] List.not_mem_nil _
  have hbehind : behind? " " (' ' :: line.toList) = some line.toList := behind?_append " " _
  rw [toList_inside, readLine?, hcut]
  simp [hbehind]

/-- The sign of a member is read, and its name up to the first sign behind it. -/
theorem memberOf?_append {name : String} (h : IsName name) (v : Visibility) {c : Char}
    (hc : endsName c = true) (cs : List Char) :
    memberOf? ((sign v).toList ++ ' ' :: (name.toList ++ c :: cs)) =
      match behind? " : " (c :: cs) with
      | some type => some (.field ⟨v, typeOf type, name⟩)
      | none => (methodOf? v name.toList (c :: cs)).map .method := by
  have hpos : ∀ d ∈ name.toList, (!endsName d) = true := by
    intro d hd
    have hblank : d ≠ ' ' := fun heq => h.2 ' ' (by decide) (heq ▸ hd)
    have hopen : d ≠ '(' := fun heq => h.2 '(' (by decide) (heq ▸ hd)
    simp [endsName, hblank, hopen]
  rw [memberOf?, cut?_append_cons (blank_not_mem_sign v)]
  simp [visibilityOf?_sign, List.takeWhile_append_of_pos hpos,
    List.dropWhile_append_of_pos hpos, hc]

/-- The line of a variable is read back. -/
theorem readLine?_fieldLine {f : Field} (h : LegibleField f) :
    readLine? (inside (fieldLine f)).toList = some (.field (shownField f)) := by
  have htype : behind? " : " (' ' :: ':' :: ' ' :: f.type.text.toList) =
      some f.type.text.toList := behind?_append " : " _
  rw [readLine?_inside, toList_fieldLine, memberOf?_append h.name f.visibility (by decide), htype]
  simp [typeOf, shownField, shownType]

/-- The line of a method is read back. -/
theorem readLine?_methodLine {m : Method} (h : LegibleMethod m) :
    readLine? (inside (methodLine m)).toList = some (.method (shownMethod m)) := by
  have hopen (cs : List Char) : behind? "(" ('(' :: cs) = some cs := behind?_append "(" cs
  have hreturned : behind? " : " (' ' :: ':' :: ' ' :: m.returnType.text.toList) =
      some m.returnType.text.toList := behind?_append " : " _
  have hmethod : methodOf? m.visibility m.name.toList
      ('(' :: ((", ".intercalate (m.parameters.map parameterText)).toList ++ ')' ::
        ' ' :: ':' :: ' ' :: m.returnType.text.toList)) = some (shownMethod m) := by
    simp only [methodOf?, hopen, cut?_append_cons (parenthesis_not_mem_intercalate h.parameters),
      hreturned, parametersOf_intercalate h.parameters, Option.bind_eq_bind, Option.bind_some,
      typeOf, String.ofList_toList]
    rfl
  have hfield (cs : List Char) : behind? " : " ('(' :: cs) = none := rfl
  rw [readLine?_inside, toList_methodLine, memberOf?_append h.name m.visibility (by decide),
    hfield, hmethod]
  rfl

/-- A header is read back. -/
theorem readLine?_header {d : Declaration} (h : IsName d.qualifiedName) :
    readLine? (header d).toList = some (.header d.kind d.qualifiedName) := by
  have hkeyword : d.kind.keyword.toList ≠ [] := by cases d.kind <;> decide
  have hblank : ' ' ∉ d.qualifiedName.toList := h.2 ' ' (by decide)
  rw [readLine?, toList_header, cut?_append_cons (blank_not_mem_keyword _)]
  simp [hkeyword, outerOf?, cut?_append_cons hblank, h.kindOf?_eq_none, ofKeyword?_keyword]

/-- Behind the target of an edge stands the label that is shown, if there is one. -/
theorem toList_labelText {e : Edge} (h : LegibleEdge e) :
    (labelText e).toList =
      (shownEdge e).label.elim [] fun label => ' ' :: ':' :: ' ' :: label.toList := by
  obtain ⟨source, target, kind, label⟩ := e
  cases kind with
  | association =>
      cases label with
      | none => rfl
      | some label =>
          have hlabel : label ≠ "" := (h.label rfl label rfl).1
          simp [labelText, shownEdge, hlabel]
  | dependency => rfl
  | inheritance => rfl
  | realization => rfl

/-- The target of an edge is read up to the blank before a label, and the label behind it. -/
theorem cut_label {target : List Char} (h : ' ' ∉ target) (label : Option String) :
    let shown := label.elim [] fun label => ' ' :: ':' :: ' ' :: label.toList
    (target ++ shown).takeWhile (· != ' ') = target ∧
      behind? " : " ((target ++ shown).dropWhile (· != ' ')) = label.map String.toList := by
  have hpos : ∀ c ∈ target, (c != ' ') = true := fun c hc =>
    bne_iff_ne.mpr fun heq => h (heq ▸ hc)
  intro shown
  rw [List.takeWhile_append_of_pos hpos, List.dropWhile_append_of_pos hpos]
  cases label with
  | none => exact ⟨List.append_nil target, rfl⟩
  | some label => exact ⟨List.append_nil target, behind?_append " : " label.toList⟩

/-- The line of an edge is read back. -/
theorem readLine?_edgeLine {e : Edge} (h : LegibleEdge e) :
    readLine? (edgeLine e).toList = some (.edge (shownEdge e)) := by
  have hsource : ' ' ∉ e.source.toList := h.source.2 ' ' (by decide)
  have htarget : ' ' ∉ e.target.toList := h.target.2 ' ' (by decide)
  obtain ⟨hword, hlabel⟩ := cut_label htarget (shownEdge e).label
  have houter : outerOf? e.source.toList ((arrow e.kind).toList ++ ' ' ::
      (e.target.toList ++ (labelText e).toList)) = some (.edge (shownEdge e)) := by
    rw [outerOf?, cut?_append_cons (blank_not_mem_arrow e.kind), toList_labelText h]
    simp only [Option.bind_eq_bind, Option.bind_some, kindOf?_arrow, hword, hlabel]
    simp [shownEdge]
  rw [toList_edgeLine, readLine?, cut?_append_cons hsource]
  simp only [Option.bind_eq_bind, Option.bind_some, if_neg h.source.ne_nil, houter]

/-- A line without a blank shows nothing. -/
theorem readLine?_eq_none {cs : List Char} (h : ' ' ∉ cs) : readLine? cs = none := by
  rw [readLine?, cut?_of_not_mem h]
  rfl

end JavaAtlas.Diagram.PlantUml

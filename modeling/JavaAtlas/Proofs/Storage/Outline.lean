import JavaAtlas.Storage.FileSystem
import JavaAtlas.Proofs.Storage.Access

/-!
# Outlines of file systems

The outline of a file system is what is left when its files lose their contents.
Where a path leads depends on the outline alone: contents matter to nothing but
reading, and to that only where access arrives.

Main results:

- Theorem `locate_outline`, theorem `resolve_outline`: access and resolution ask
  for the outline alone.
- Theorem `read_congr_of_locate`: reading asks for the node where access arrives.
- Theorem `outline_overwrite`, theorem `node?_overwrite`: overwriting a file changes
  the content there, and nothing else.
-/

namespace JavaAtlas.Storage

open Text.Utf8 (Bytes)

/-- The node with another content, if it is a file. -/
def Node.withContent (content : Bytes) : Node → Node
  | .file _ mode => .file content mode
  | .directory => .directory
  | .link target => .link target

/-- The node without the content of a file. -/
def Node.outline (n : Node) : Node :=
  n.withContent []

theorem Node.outline_withContent (content : Bytes) (n : Node) :
    (n.withContent content).outline = n.outline := by
  cases n <;> rfl

namespace FileSystem

variable {fs : FileSystem}

/-- The file system with every node replaced, as its location says. -/
def mapNodes (fs : FileSystem) (f : Location → Node → Node) : FileSystem :=
  { fs with entries := fs.entries.map fun e => (e.1, f e.1 e.2) }

theorem node?_mapNodes {f : Location → Node → Node} {l : Location}
    (hroot : f [] .directory = .directory) :
    (fs.mapNodes f).node? l = (fs.node? l).map (f l) := by
  unfold node?
  split
  case isTrue hl => rw [hl, Option.map_some, hroot]
  case isFalse =>
    dsimp only [mapNodes]
    induction fs.entries with
    | nil => rfl
    | cons e entries ih =>
        obtain ⟨k, node⟩ := e
        rw [List.map_cons, List.lookup_cons, List.lookup_cons, ih]
        by_cases hl : l = k
        case pos => simp [hl]
        case neg => simp [beq_false_of_ne hl]

/-! ## What the outline tells -/

/-- The file system with all files empty. -/
def outline (fs : FileSystem) : FileSystem :=
  fs.mapNodes fun _ => Node.outline

theorem isHidden_outline (l : Location) : fs.outline.isHidden l = fs.isHidden l := rfl

theorem node?_outline (l : Location) :
    fs.outline.node? l = (fs.node? l).map Node.outline :=
  node?_mapNodes rfl

theorem enter_outline {last : Bool} {jump : Location → List String → Except FileError Location}
    {l : Location} {names : List String} :
    fs.outline.enter last jump l names = fs.enter last jump l names := by
  induction names generalizing l with
  | nil => rfl
  | cons n rest ih =>
      simp only [enter, node?_outline, ih]
      cases fs.node? l with
      | none => rfl
      | some above =>
          cases above with
          | file content mode => rfl
          | link target => rfl
          | directory =>
              cases fs.node? (l ++ [n]) with
              | none => rfl
              | some node => cases node <;> rfl

theorem follow_outline (last : Bool) (n : Nat) :
    fs.outline.follow last n = fs.follow last n := by
  induction n with
  | zero => rfl
  | succ n ih =>
      funext l names
      rw [follow, follow, ih, enter_outline]

/-- Access asks for the outline alone. -/
theorem locate_outline (last : Bool) (p : Path) : fs.outline.locate last p = fs.locate last p := by
  rw [locate, locate, follow_outline]
  rfl

theorem nodeAt_outline (p : Path) :
    fs.outline.nodeAt p = (fs.nodeAt p).map Node.outline := by
  simp only [nodeAt, locate_outline, node?_outline, bind, Except.bind]
  cases fs.locate true p with
  | error e => rfl
  | ok l =>
      dsimp only
      cases fs.node? l <;> rfl

theorem reach_outline (last : Bool) (p : Path) : fs.outline.reach last p = fs.reach last p := by
  rw [reach, reach, locate_outline]

theorem status_outline (p : Path) : fs.outline.status p = (fs.status p).map Node.outline := by
  rw [status, status, nodeAt_outline]
  split <;> rfl

theorem isFile_outline (p : Path) : fs.outline.isFile p = fs.isFile p := by
  rw [isFile, isFile, status_outline]
  cases fs.status p with
  | error e => rfl
  | ok node => cases node <;> rfl

theorem statusFault?_outline (p : Path) : fs.outline.statusFault? p = fs.statusFault? p := by
  rw [statusFault?, statusFault?, status_outline]
  cases fs.status p <;> rfl

theorem askDirectory_outline (p : Path) : fs.outline.askDirectory p = fs.askDirectory p := by
  rw [askDirectory, askDirectory, ask, ask, status_outline]
  cases fs.status p with
  | error e => rfl
  | ok node => cases node <;> rfl

theorem linkAt?_outline (p : Path) : fs.outline.linkAt? p = fs.linkAt? p := by
  simp only [linkAt?, reach_outline, node?_outline]
  cases fs.reach false p with
  | error e => rfl
  | ok l =>
      dsimp only
      cases fs.node? l with
      | none => rfl
      | some node => cases node <;> rfl

theorem resolveNames_outline {inside : Path → Path → List String → Resolved} {p : Path}
    {names : List String} :
    fs.outline.resolveNames inside p names = fs.resolveNames inside p names := by
  induction names generalizing p with
  | nil => rfl
  | cons n rest ih => simp only [resolveNames, linkAt?_outline, ih]

theorem resolveAmid_outline {n : Nat} {active : List Path} {p : Path} {names : List String} :
    fs.outline.resolveAmid n active p names = fs.resolveAmid n active p names := by
  induction n generalizing active p names with
  | zero => rfl
  | succ n ih => simp only [resolveAmid, resolveNames_outline, ih]

/-- Resolution asks for the outline alone. -/
theorem resolve_outline (p : Path) : fs.outline.resolve p = fs.resolve p := by
  have hresolved : fs.outline.resolved p = fs.resolved p := resolveAmid_outline
  have hspot : fs.outline.spot = fs.spot := rfl
  simp only [resolve, hresolved, hspot, status_outline]
  cases (fs.resolved p).ending with
  | deep => rfl
  | place q | loop q =>
      dsimp only
      cases fs.status (pathOf (fs.spot q)) <;> rfl

/-! ## What contents matter to -/

section

variable {fs₁ fs₂ : FileSystem} {p : Path} {q : Location}

/-- The status of a path is that of the node where access arrives. -/
theorem status_congr_of_locate (h₁ : fs₁.locate true p = .ok q) (h₂ : fs₂.locate true p = .ok q)
    (hnode : fs₁.node? q = fs₂.node? q) : fs₁.status p = fs₂.status p := by
  simp only [status, nodeAt, h₁, h₂, bind, Except.bind, hnode]

/-- Reading asks for the node where access arrives. -/
theorem read_congr_of_locate (h₁ : fs₁.locate true p = .ok q) (h₂ : fs₂.locate true p = .ok q)
    (hnode : fs₁.node? q = fs₂.node? q) (hhidden : fs₁.isHidden q = fs₂.isHidden q) :
    fs₁.read p = fs₂.read p := by
  cases hlong : isOverlongPath p <;> simp [read, reach, hlong, h₁, h₂, hnode, hhidden]

end

/-- A path to a file leads to a place where a file stands. -/
theorem exists_reach_of_isFile {p : Path} (h : fs.isFile p = true) :
    ∃ q content mode, fs.reach true p = .ok q ∧ fs.node? q = some (.file content mode) := by
  obtain ⟨content, mode, hstatus⟩ := isFile_iff.mp h
  obtain ⟨hshort, hnodeAt⟩ := status_eq_ok_iff.mp hstatus
  obtain ⟨q, hlocate, hnode⟩ := nodeAt_eq_ok_iff.mp hnodeAt
  exact ⟨q, content, mode, reach_eq_ok_iff.mpr ⟨hshort, hlocate⟩, hnode⟩

/-- The file at a location gets another content. -/
def overwrite (fs : FileSystem) (q : Location) (content : Bytes) : FileSystem :=
  fs.mapNodes fun l n => if l = q then n.withContent content else n

/-- Overwriting a file leaves the outline as it is. -/
theorem outline_overwrite (q : Location) (content : Bytes) :
    (fs.overwrite q content).outline = fs.outline := by
  simp only [outline, overwrite, mapNodes, List.map_map]
  congr 1
  refine List.map_congr_left fun e _ => ?_
  dsimp only [Function.comp_apply]
  split
  case isTrue => rw [Node.outline_withContent]
  case isFalse => rfl

theorem node?_overwrite (q l : Location) (content : Bytes) :
    (fs.overwrite q content).node? l =
      if l = q then (fs.node? l).map (Node.withContent content) else fs.node? l := by
  rw [overwrite, node?_mapNodes]
  · split <;> simp
  · split <;> rfl

end FileSystem

end JavaAtlas.Storage

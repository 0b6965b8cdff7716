import JavaAtlas.Storage.FileSystem

/-!
# Availability of local tools

Whether a local renderer can be used is found out once for each path of its
archive and then remembered, for a bounded number of paths.  The path that was
asked for longest ago is forgotten first.  Where it cannot be told there is no
answer, and nothing is remembered.  Whether the layout engine is installed is
found out once and never again.

Main definitions:

- `Remembered`: answers by path, the latest question first.
- `Remembered.ask`: the remembered answer, or a fresh one.
- `Surroundings.check`: a fresh answer, or why there is none.
- `Memory.tryJar`: the remembered answer or a fresh one, if there is any.
-/

namespace JavaAtlas.Image

open Storage

/-- Answers by path, the one that was asked for last first. -/
abbrev Remembered := List (Option String × Bool)

/-- Number of paths that are remembered. -/
def rememberedLimit : Nat := 8

namespace Remembered

/-- The answer for a path: the remembered one, or else the fresh one.  The path
becomes the latest. -/
def ask (r : Remembered) (path : Option String) (fresh : Bool) : Bool × Remembered :=
  match r.lookup path with
  | some known => (known, (path, known) :: r.filter (·.1 != path))
  | none => (fresh, ((path, fresh) :: r).take rememberedLimit)

end Remembered

/-- The program that runs the local renderer. -/
def runner : String := "java"

/-- The program that computes layouts. -/
def layoutEngine : String := "dot"

/-- What local rendering depends on. -/
structure Surroundings where
  files : FileSystem
  /-- Programs that can be called by name. -/
  tools : List String

/-- The local renderer can be used: its archive is a file and its runner is there. -/
def Surroundings.canRender (s : Surroundings) : Option String → Bool
  | none => false
  | some "" => false
  | some path => s.files.isFile (Path.ofText path) && s.tools.contains runner

/-- Why it cannot be told whether the local renderer can be used, if that is so.  A path
with a null character leads nowhere. -/
def Surroundings.renderFault? (s : Surroundings) : Option String → Option FileFault
  | none => none
  | some "" => none
  | some path =>
    if holdsNull path then none
    else
      match s.files.askFile (Path.ofText path) with
      | .error fault => some fault
      | .ok _ => none

/-- Whether the local renderer can be used, or why that cannot be told. -/
def Surroundings.check (s : Surroundings) (path : Option String) : Except FileFault Bool :=
  match s.renderFault? path with
  | some fault => .error fault
  | none => .ok (s.canRender path)

/-- The layout engine is installed. -/
def Surroundings.hasEngine (s : Surroundings) : Bool :=
  s.tools.contains layoutEngine

/-- All that is remembered about local tools. -/
structure Memory where
  jars : Remembered
  engine : Option Bool
  deriving Repr

namespace Memory

/-- Nothing is remembered. -/
def empty : Memory := ⟨[], none⟩

/-- Asks whether the local renderer can be used. -/
def askJar (m : Memory) (s : Surroundings) (path : Option String) : Bool × Memory :=
  let (answer, jars) := m.jars.ask path (s.canRender path)
  (answer, { m with jars })

/-- Why asking for a path gives no answer: none is remembered, and none can be found. -/
def jarFault? (m : Memory) (s : Surroundings) (path : Option String) : Option FileFault :=
  if (m.jars.lookup path).isSome then none else s.renderFault? path

/-- Asks whether the local renderer can be used, where that may stay open. -/
def tryJar (m : Memory) (s : Surroundings) (path : Option String) :
    Except FileFault Bool × Memory :=
  match m.jarFault? s path with
  | some fault => (.error fault, m)
  | none =>
    let (answer, m) := m.askJar s path
    (.ok answer, m)

/-- Asks whether the layout engine is installed. -/
def askEngine (m : Memory) (s : Surroundings) : Bool × Memory :=
  let answer := m.engine.getD s.hasEngine
  (answer, { m with engine := some answer })

end Memory

end JavaAtlas.Image

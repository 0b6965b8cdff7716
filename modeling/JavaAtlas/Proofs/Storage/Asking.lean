import JavaAtlas.Proofs.Storage.Access

/-!
# What access asks for

Access to a path asks for the nodes of some locations.  In two file systems that agree on
these, and in which the same directories are closed, the path leads to the same node, or
access fails alike.

Main definitions:

- `asked`: the locations that access to a path asks for.

Main results:

- Theorem `enter_eq_of_asked`: entering asks for no other locations, step by step.
- Theorem `status_eq_of_asked`, theorem `read_eq_of_asked`: the status and the content of a
  path depend on them alone.
-/

namespace JavaAtlas.Storage.FileSystem

variable {fs fs' : FileSystem}

/-! ## Locations -/

/-- The locations that are asked for when names are entered from a location.  `jump` gives
those that are asked for behind a link. -/
def enterAsked (fs : FileSystem) (jump : Location → List String → List Location) :
    Location → List String → List Location
  | l, [] => [l]
  | l, n :: rest =>
    l ::
      match fs.node? l with
      | some .directory =>
        if Path.isName n then
          if n = ".." then fs.enterAsked jump l.dropLast rest
          else
            (l ++ [n]) ::
              match fs.node? (l ++ [n]) with
              | some (.link target) =>
                let t := Path.asWritten target
                jump (startFrom l t.anchor) (t.names ++ rest)
              | _ => fs.enterAsked jump (l ++ [n]) rest
        else fs.enterAsked jump l rest
      | _ => []

/-- The locations that are asked for over less than so many links. -/
def followAsked (fs : FileSystem) : Nat → Location → List String → List Location
  | 0, _, _ => []
  | n + 1, l, names => fs.enterAsked (fs.followAsked n) l names

/-- The locations that access to a path asks for. -/
def asked (fs : FileSystem) (p : Path) : List Location :=
  fs.followAsked (linkLimit + 1) (fs.start p.anchor) p.names

/-! ## Agreement -/

/-- Access arrives at the same location in both file systems, where the same node stands, or
fails alike. -/
def ArriveAlike (fs fs' : FileSystem) (r r' : Except FileError Location) : Prop :=
  r = r' ∧ ∀ q, r = .ok q → fs.node? q = fs'.node? q

theorem arriveAlike_error (e : FileError) : ArriveAlike fs fs' (.error e) (.error e) :=
  ⟨rfl, nofun⟩

/-- Entering depends on the nodes that it asks for, if that is so behind links. -/
theorem enter_eq_of_asked {jump jump' : Location → List String → Except FileError Location}
    {asks : Location → List String → List Location}
    (hclosed : ∀ q, fs.isClosed q = fs'.isClosed q)
    (hjump : ∀ d names, (∀ q ∈ asks d names, fs.node? q = fs'.node? q) →
      ArriveAlike fs fs' (jump d names) (jump' d names))
    {l : Location} {names : List String}
    (h : ∀ q ∈ fs.enterAsked asks l names, fs.node? q = fs'.node? q) :
    ArriveAlike fs fs' (fs.enter true jump l names) (fs'.enter true jump' l names) := by
  induction names generalizing l with
  | nil =>
      refine ⟨rfl, ?_⟩
      rintro q ⟨rfl⟩
      exact h _ (by simp [enterAsked])
  | cons n rest ih =>
      unfold enterAsked at h
      obtain ⟨hl, h⟩ := List.forall_mem_cons.mp h
      unfold enter
      rw [← hl, ← hclosed]
      split
      case h_1 => exact arriveAlike_error _
      case h_3 => exact arriveAlike_error _
      case h_2 hdirectory =>
        simp only [hdirectory] at h
        split
        case isTrue => exact arriveAlike_error _
        case isFalse =>
          split at h
          case isFalse hname =>
            rw [if_neg hname, if_neg hname]
            exact ih h
          case isTrue hname =>
            rw [if_pos hname, if_pos hname]
            split at h
            case isTrue hup =>
              rw [if_pos hup, if_pos hup]
              exact ih h
            case isFalse hup =>
              rw [if_neg hup, if_neg hup]
              obtain ⟨hnode, h⟩ := List.forall_mem_cons.mp h
              rw [← hnode]
              split
              case isTrue => exact arriveAlike_error _
              case isFalse =>
                simp only [Bool.not_true, Bool.and_false, Bool.false_eq_true, if_false]
                cases hfound : fs.node? (l ++ [n]) with
                | none => exact ih (by simpa only [hfound] using h)
                | some node =>
                    cases node with
                    | link target => exact hjump _ _ (by simpa only [hfound] using h)
                    | file _ _ => exact ih (by simpa only [hfound] using h)
                    | directory => exact ih (by simpa only [hfound] using h)

theorem follow_eq_of_asked (hclosed : ∀ q, fs.isClosed q = fs'.isClosed q) {k : Nat}
    {l : Location} {names : List String}
    (h : ∀ q ∈ fs.followAsked k l names, fs.node? q = fs'.node? q) :
    ArriveAlike fs fs' (fs.follow true k l names) (fs'.follow true k l names) := by
  induction k generalizing l names with
  | zero => exact arriveAlike_error _
  | succ k ih => exact enter_eq_of_asked hclosed (fun _ _ => ih) h

section

variable {p : Path}

/-- Access depends on the nodes that it asks for. -/
theorem locate_eq_of_asked (hclosed : ∀ q, fs.isClosed q = fs'.isClosed q)
    (hstart : fs.start p.anchor = fs'.start p.anchor)
    (h : ∀ q ∈ fs.asked p, fs.node? q = fs'.node? q) :
    ArriveAlike fs fs' (fs.locate true p) (fs'.locate true p) := by
  unfold locate
  rw [← hstart]
  split
  case isTrue => exact arriveAlike_error _
  case isFalse => exact follow_eq_of_asked hclosed h

/-- The status of a path depends on the nodes that access asks for. -/
theorem status_eq_of_asked (hclosed : ∀ q, fs.isClosed q = fs'.isClosed q)
    (hstart : fs.start p.anchor = fs'.start p.anchor)
    (h : ∀ q ∈ fs.asked p, fs.node? q = fs'.node? q) : fs.status p = fs'.status p := by
  obtain ⟨hlocate, hnode⟩ := locate_eq_of_asked hclosed hstart h
  simp only [status, nodeAt, ← hlocate]
  cases hplace : fs.locate true p with
  | error e => rfl
  | ok q => simp only [bind, Except.bind, hnode q hplace]

/-- The content at a path depends on them, too, where the same may be read. -/
theorem read_eq_of_asked (hclosed : ∀ q, fs.isClosed q = fs'.isClosed q)
    (hhidden : ∀ q, fs.isHidden q = fs'.isHidden q)
    (hstart : fs.start p.anchor = fs'.start p.anchor)
    (h : ∀ q ∈ fs.asked p, fs.node? q = fs'.node? q) : fs.read p = fs'.read p := by
  obtain ⟨hlocate, hnode⟩ := locate_eq_of_asked hclosed hstart h
  simp only [read, reach, ← hlocate]
  cases isOverlongPath p with
  | true => rfl
  | false =>
      cases hplace : fs.locate true p with
      | error e => rfl
      | ok q => simp only [Bool.false_eq_true, if_false, hnode q hplace, hhidden]

end

end JavaAtlas.Storage.FileSystem

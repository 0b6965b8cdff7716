import JavaAtlas.Storage.Change
import JavaAtlas.Proofs.Storage.Access

/-!
# Access to a part of a file system

A part of a file system has some of its nodes, and no other ones.  Access to a part
either finds what access to the whole finds, or nothing.  Removing an entry that is no
directory leaves a part in which everything else still stands.

Main results:

- Theorem `IsPart.status`: access to a part finds nothing, or what the whole has.
- Theorem `isPart_drop`: what is left after a removal is a part.
- Theorem `Sound.drop`: removing an entry that is no directory leaves a sound file system.
-/

namespace JavaAtlas.Storage.FileSystem

variable {fs part : FileSystem}

/-! ## Parts -/

/-- Every node of the part stands at the same location of the whole, where the same is
allowed. -/
structure IsPart (part fs : FileSystem) : Prop where
  node : ∀ l n, part.node? l = some n → fs.node? l = some n
  working : part.workingDirectory = fs.workingDirectory
  closed : ∀ l n, part.node? l = some n → part.isClosed l = fs.isClosed l
  hidden : ∀ l n, part.node? l = some n → part.isHidden l = fs.isHidden l

/-- Access has missed: it leads to no place, or to one where nothing is stored. -/
def Missed (fs : FileSystem) (r : Except FileError Location) : Prop :=
  r = .error .notFound ∨ ∃ l, r = .ok l ∧ fs.node? l = none

/-- Entering at a place where nothing is stored leads nowhere. -/
theorem missed_enter {last : Bool} {jump : Location → List String → Except FileError Location}
    {l : Location} {names : List String} (h : fs.node? l = none) :
    Missed fs (fs.enter last jump l names) := by
  cases names with
  | nil => exact .inr ⟨l, rfl, h⟩
  | cons n rest =>
      unfold enter
      rw [h]
      exact .inl rfl

/-- Entering a part misses or arrives where entering the whole does, if that is so
behind links. -/
theorem IsPart.enter (h : IsPart part fs)
    {jump jump' : Location → List String → Except FileError Location}
    (hjump : ∀ l names, Missed part (jump' l names) ∨ jump' l names = jump l names)
    (l : Location) (names : List String) :
    Missed part (part.enter true jump' l names) ∨
      part.enter true jump' l names = fs.enter true jump l names := by
  induction names generalizing l with
  | nil => exact .inr rfl
  | cons n rest ih =>
      cases hl : part.node? l with
      | none => exact .inl (missed_enter hl)
      | some above =>
          unfold FileSystem.enter
          rw [hl, h.node l above hl]
          cases above with
          | file content mode => exact .inr rfl
          | link target => exact .inr rfl
          | directory =>
              dsimp only
              rw [h.closed l _ hl]
              by_cases hclosed : (n != "" && fs.isClosed l) = true
              case pos =>
                rw [if_pos hclosed, if_pos hclosed]
                exact .inr rfl
              case neg =>
                rw [if_neg hclosed, if_neg hclosed]
                by_cases hname : Path.isName n = true
                case neg =>
                  rw [if_neg hname, if_neg hname]
                  exact ih l
                case pos =>
                  rw [if_pos hname, if_pos hname]
                  by_cases hup : n = ".."
                  case pos =>
                    rw [if_pos hup, if_pos hup]
                    exact ih l.dropLast
                  case neg =>
                    rw [if_neg hup, if_neg hup]
                    by_cases hlong : isOverlong n = true
                    case pos =>
                      rw [if_pos hlong, if_pos hlong]
                      exact .inr rfl
                    case neg =>
                      rw [if_neg hlong, if_neg hlong]
                      cases hnode : part.node? (l ++ [n]) with
                      | none => exact .inl (missed_enter hnode)
                      | some node =>
                          rw [h.node _ node hnode]
                          cases node with
                          | file content mode => exact ih (l ++ [n])
                          | directory => exact ih (l ++ [n])
                          | link target =>
                              simp only [Bool.not_true, Bool.and_false, Bool.false_eq_true,
                                if_false]
                              exact hjump _ _

theorem IsPart.follow (h : IsPart part fs) (n : Nat) (l : Location) (names : List String) :
    Missed part (part.follow true n l names) ∨
      part.follow true n l names = fs.follow true n l names := by
  induction n generalizing l names with
  | zero => exact .inr rfl
  | succ n ih => exact h.enter ih l names

/-- Access to a part misses or arrives where access to the whole does. -/
theorem IsPart.locate (h : IsPart part fs) (p : Path) :
    Missed part (part.locate true p) ∨ part.locate true p = fs.locate true p := by
  unfold FileSystem.locate start
  rw [h.working]
  split
  case isTrue => exact .inr rfl
  case isFalse => exact h.follow _ _ _

/-- Access to a part finds nothing, or what access to the whole finds. -/
theorem IsPart.nodeAt (h : IsPart part fs) (p : Path) :
    part.nodeAt p = .error .notFound ∨ part.nodeAt p = fs.nodeAt p := by
  unfold FileSystem.nodeAt
  rcases h.locate p with (hplace | ⟨l, hplace, hnode⟩) | hplace
  · left
    rw [hplace]
    rfl
  · left
    simp only [hplace, hnode, bind, Except.bind]
  · rw [← hplace]
    cases part.locate true p with
    | error e => exact .inr rfl
    | ok l =>
        cases hnode : part.node? l with
        | none =>
            left
            simp only [hnode, bind, Except.bind]
        | some node =>
            right
            simp only [hnode, h.node l node hnode, bind, Except.bind]

/-- The status of a path in a part is that nothing is found, or what it is in the whole. -/
theorem IsPart.status (h : IsPart part fs) (p : Path) :
    part.status p = .error .notFound ∨ part.status p = fs.status p := by
  unfold FileSystem.status
  split
  case isTrue => exact .inr rfl
  case isFalse => exact h.nodeAt p

theorem IsPart.isFile (h : IsPart part fs) {p : Path} (hfile : part.isFile p = true) :
    fs.isFile p = true := by
  rw [isFile_iff] at hfile ⊢
  rcases h.status p with hstatus | hstatus
  · obtain ⟨content, mode, hnode⟩ := hfile
    cases hstatus.symm.trans hnode
  · rwa [← hstatus]

/-- A file of a part is read like in the whole. -/
theorem IsPart.read_eq (h : IsPart part fs) {p : Path} (hfile : part.isFile p = true) :
    part.read p = fs.read p := by
  obtain ⟨content, mode, hstatus⟩ := isFile_iff.mp hfile
  obtain ⟨hshort, hnodeAt⟩ := status_eq_ok_iff.mp hstatus
  obtain ⟨l, hlocate, hnode⟩ := nodeAt_eq_ok_iff.mp hnodeAt
  have hwhole : fs.locate true p = .ok l := by
    rcases h.locate p with (hmissed | ⟨q, hplace, hnone⟩) | hsame
    · cases hmissed.symm.trans hlocate
    · cases hplace.symm.trans hlocate
      cases hnone.symm.trans hnode
    · exact hsame.symm.trans hlocate
  simp only [read, reach_of_short hshort, hlocate, hwhole, hnode, h.node l _ hnode,
    h.hidden l _ hnode]

/-- What can be told of a path in the whole can be told in the part. -/
theorem IsPart.statusFault?_eq_none (h : IsPart part fs) {p : Path}
    (hstatus : fs.statusFault? p = none) : part.statusFault? p = none := by
  rw [statusFault?_eq_none_iff] at hstatus ⊢
  intro e he
  rcases h.status p with hmissed | hsame
  · cases hmissed.symm.trans he
    rfl
  · exact hstatus e (hsame.symm.trans he)

/-! ## Removal -/

/-- Looking up among the entries whose keys meet a condition. -/
theorem lookup_filter {α β : Type} [BEq α] [LawfulBEq α] (entries : List (α × β))
    (keep : α → Bool) (l : α) :
    (entries.filter fun e => keep e.1).lookup l = if keep l then entries.lookup l else none := by
  induction entries with
  | nil => simp
  | cons e entries ih =>
      obtain ⟨k, node⟩ := e
      by_cases hl : l = k
      case pos =>
        subst hl
        by_cases hkeep : keep l = true
        case pos => simp [hkeep]
        case neg => simp [hkeep, ih]
      case neg =>
        have hne : (l == k) = false := beq_false_of_ne hl
        by_cases hkeep : keep k = true
        case pos => simp [hkeep, List.lookup_cons, hne, ih]
        case neg => simp [hkeep, List.lookup_cons, hne, ih]

/-- A removal takes what stands at the location and below it, except for the root. -/
theorem node?_drop (r l : Location) :
    (fs.drop r).node? l = if l = [] ∨ ¬ r <+: l then fs.node? l else none := by
  unfold node?
  by_cases hroot : l = []
  case pos => simp [hroot]
  case neg =>
    have hlookup := lookup_filter fs.entries (fun q => !r.isPrefixOf q) l
    simp only [hroot, if_false, false_or, drop, hlookup, Bool.not_eq_true', ← Bool.not_eq_true,
      List.isPrefixOf_iff_prefix]

/-- What stands somewhere after a removal stands beside the place. -/
theorem isBeside_of_node?_drop {r l : Location} (h : (fs.drop r).node? l ≠ none) :
    isBeside r l = true := by
  rw [node?_drop] at h
  split at h
  case isTrue hbeside =>
    simpa [isBeside, ← Bool.not_eq_true, List.isPrefixOf_iff_prefix] using hbeside
  case isFalse => exact absurd rfl h

theorem contains_filter_isBeside {r l : Location} (ls : List Location)
    (h : isBeside r l = true) : (ls.filter (isBeside r)).contains l = ls.contains l := by
  rw [Bool.eq_iff_iff]
  simp [List.mem_filter, h]

/-- What is left after a removal is a part. -/
theorem isPart_drop (fs : FileSystem) (r : Location) : IsPart (fs.drop r) fs where
  node l n h := by
    rw [node?_drop] at h
    split at h
    case isTrue => exact h
    case isFalse => cases h
  working := rfl
  closed l n h := by
    have hbeside := isBeside_of_node?_drop (by simp [h] : (fs.drop r).node? l ≠ none)
    exact congrArg (l != fs.workingDirectory && ·) (contains_filter_isBeside _ hbeside)
  hidden l n h := by
    have hbeside := isBeside_of_node?_drop (by simp [h] : (fs.drop r).node? l ≠ none)
    exact contains_filter_isBeside _ hbeside

/-- Entries that are added behind the others leave a part as it was. -/
theorem isPart_append (fs : FileSystem) (added : List (Location × Node)) :
    IsPart fs { fs with entries := fs.entries ++ added } where
  node l n h := by
    unfold node? at h ⊢
    split
    case isTrue hroot => rwa [if_pos hroot] at h
    case isFalse hroot =>
      rw [if_neg hroot] at h
      simp [List.lookup_append, h]
  working := rfl
  closed _ _ _ := rfl
  hidden _ _ _ := rfl

/-- An entry stands at the location, and it is no directory. -/
def IsLeaf (fs : FileSystem) (r : Location) : Prop :=
  ∃ node, fs.node? r = some node ∧ node ≠ .directory

/-- Nothing stands below an entry that is no directory. -/
theorem Formed.eq_of_leaf_prefix {r l : Location} (hs : fs.Formed) (hr : fs.IsLeaf r)
    (h : fs.node? l ≠ none) (hbelow : r <+: l) : l = r := by
  obtain ⟨rest, rfl⟩ := hbelow
  cases rest with
  | nil => exact List.append_nil r
  | cons n rest =>
      obtain ⟨node, hnode, hne⟩ := hr
      exact absurd (Option.some.inj (hnode.symm.trans (hs.directory_above h))) hne

/-- Removing an entry that is no directory takes that entry alone. -/
theorem Formed.node?_drop_leaf {r : Location} (hs : fs.Formed) (hr : fs.IsLeaf r) (l : Location) :
    (fs.drop r).node? l = if l = r then none else fs.node? l := by
  rw [node?_drop]
  by_cases hl : l = r
  case pos =>
    have hroot : l ≠ [] := by
      rintro rfl
      obtain ⟨node, hnode, hne⟩ := hr
      exact hne (Option.some.inj ((congrArg fs.node? hl).trans hnode)).symm
    simp [hl ▸ hroot, hl]
  case neg =>
    rw [if_neg hl]
    split
    case isTrue => rfl
    case isFalse hbelow =>
      rw [not_or, not_not] at hbelow
      by_contra hnode
      exact hl (hs.eq_of_leaf_prefix hr (Ne.symm hnode) hbelow.2)

/-- Removing an entry that is no directory leaves a sound file system. -/
theorem Sound.drop {r : Location} (hs : fs.Sound) (hr : fs.IsLeaf r) : (fs.drop r).Sound := by
  have hpart := isPart_drop fs r
  have hstays : ∀ l, (fs.drop r).node? l ≠ none → fs.node? l ≠ none := by
    intro l hl
    obtain ⟨node, hnode⟩ := Option.ne_none_iff_exists'.mp hl
    simp [hpart.node l node hnode]
  -- directories are not removed
  have hdirectory : ∀ l, fs.node? l = some .directory →
      (fs.drop r).node? l = some .directory := by
    intro l hl
    have hne : l ≠ r := by
      rintro rfl
      obtain ⟨node, hnode, hleaf⟩ := hr
      exact hleaf (Option.some.inj (hnode.symm.trans hl))
    rw [hs.node?_drop_leaf hr, if_neg hne, hl]
  exact
    { parent := fun l n h => hdirectory l (hs.parent l n (hstays _ h))
      name := fun l n h => hs.name l n (hstays _ h)
      short := fun l n h => hs.short l n (hstays _ h)
      working := hdirectory _ hs.working
      unrestricted := by simp [FileSystem.drop, restrictionsBeside, hs.unrestricted] }

end JavaAtlas.Storage.FileSystem

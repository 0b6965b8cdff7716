import JavaAtlas.Proofs.Storage.Removal
import JavaAtlas.Proofs.Storage.Ways
import JavaAtlas.Storage.Change

/-!
# Writing and unlinking

A file is written where access ends: at a file, or at a free name of a directory.  All
other locations stay as they are, and so does every way that led anywhere before.
Unlinking takes one entry of a directory away, which is no directory.

Main definitions:

- `IsWritable`: the locations that a file may be written to.

Main results:

- Theorem `Formed.exists_put_of_write`, `Formed.write`: what writing does.
- Theorem `locate_put`: ways that a written file leaves as they were.
- Theorem `unlink_of_locate`: what unlinking does.
-/

namespace JavaAtlas.Storage.FileSystem

open Text.Utf8 (Bytes)

variable {fs : FileSystem}

/-! ## Writing -/

/-- A file is stored at the location, or nothing. -/
def IsWritable (fs : FileSystem) (l : Location) : Prop :=
  ∀ n, fs.node? l = some n → n.isFile = true

/-- What stands where after a node was stored. -/
theorem node?_put (l q : Location) (n : Node) :
    (fs.put l n).node? q = if q = [] then some .directory else if q = l then some n
      else fs.node? q := by
  unfold node? put
  by_cases hroot : q = []
  case pos => simp [hroot]
  case neg =>
    by_cases hq : q = l
    case pos => simp [hq]
    case neg =>
      have hne : (q == l) = false := beq_false_of_ne hq
      have hlookup := lookup_filter fs.entries (fun r => r != l) q
      simp [hroot, hq, hne, List.lookup_cons, hlookup]

/-- What is no file stays where a file is written. -/
theorem node?_put_of_isWritable {l q : Location} {n m : Node} (hl : fs.IsWritable l)
    (hq : fs.node? q = some m) (hm : m.isFile = false) : (fs.put l n).node? q = some m := by
  have hne : q ≠ l := by
    rintro rfl
    simp [hl m hq] at hm
  rw [node?_put, if_neg hne, hq]
  split
  case isTrue hroot =>
    rw [hroot, node?_nil] at hq
    exact hq
  case isFalse => rfl

/-- Storing a node where a file stands or nothing keeps a file system formed. -/
theorem Formed.put {l : Location} (node : Node) (hs : fs.Formed) (hseat : fs.IsSeat l)
    (hl : fs.IsWritable l) : (fs.put l node).Formed := by
  obtain ⟨d, n, rfl, hd, hname, hshort⟩ := hseat
  have hdirectory : ∀ q, fs.node? q = some .directory →
      (fs.put (d ++ [n]) node).node? q = some .directory := fun q hq =>
    node?_put_of_isWritable hl hq rfl
  -- an entry of the new file system is the written one, or one of the old file system
  have hentry : ∀ q m, (fs.put (d ++ [n]) node).node? (q ++ [m]) ≠ none →
      (q = d ∧ m = n) ∨ fs.node? (q ++ [m]) ≠ none := by
    intro q m hq
    rw [node?_put, if_neg (by simp)] at hq
    split at hq
    case isTrue heq => exact .inl (List.append_singleton_inj.mp heq)
    case isFalse => exact .inr hq
  refine ⟨fun q m hq => ?_, fun q m hq => ?_, fun q m hq => ?_, hdirectory _ hs.working⟩
  · rcases hentry q m hq with ⟨rfl, rfl⟩ | hold
    · exact hdirectory _ hd
    · exact hdirectory _ (hs.parent q m hold)
  · rcases hentry q m hq with ⟨rfl, rfl⟩ | hold
    · exact hname
    · exact hs.name q m hold
  · rcases hentry q m hq with ⟨rfl, rfl⟩ | hold
    · exact hshort
    · exact hs.short q m hold

theorem Sound.put {l : Location} (node : Node) (hs : fs.Sound) (hseat : fs.IsSeat l)
    (hl : fs.IsWritable l) : (fs.put l node).Sound :=
  { hs.toFormed.put node hseat hl with unrestricted := hs.unrestricted }

/-- Writing stores a file where access ends, at a file or at a free seat. -/
theorem Formed.exists_put_of_write {fs' : FileSystem} {p : Path} {content : Bytes}
    (hs : fs.Formed) (h : fs.write p content = .ok fs') :
    ∃ l mode, fs.reach true p = .ok l ∧ fs.IsSeat l ∧ fs.IsWritable l ∧
      fs' = fs.put l (.file content mode) := by
  unfold write at h
  split at h
  case h_1 => cases h
  case h_2 l hreach =>
    obtain ⟨hroot, hlink⟩ := hs.isEnd_of_locate (reach_eq_ok_iff.mp hreach).2
    have hseat : ∀ n, n ≠ Node.directory → fs.node? l = some n ∨ fs.node? l = none →
        fs.IsSeat l := by
      intro n hn hnode
      rcases hroot with rfl | hseat
      · rcases hnode with hnode | hnode
        · cases hnode
          exact absurd rfl hn
        · cases hnode
      · exact hseat
    split at h
    case h_1 => cases h
    case h_2 old mode hnode =>
      split at h
      case isTrue => cases h
      case isFalse =>
        cases h
        refine ⟨l, mode, hreach, hseat _ (by simp) (.inl hnode), fun n hn => ?_, rfl⟩
        rw [hnode] at hn
        cases hn
        rfl
    case h_3 hdirectory hfile =>
      split at h
      case isTrue => cases h
      case isFalse =>
        cases h
        have hnone : fs.node? l = none := by
          cases hnode : fs.node? l with
          | none => rfl
          | some n =>
              cases n with
              | file old mode => exact absurd hnode (hfile old mode)
              | directory => exact absurd hnode hdirectory
              | link target => exact absurd ⟨target, hnode⟩ (hlink rfl)
        refine ⟨l, newMode, hreach, hseat (.file [] 0) (by simp) (.inr hnone), fun n hn => ?_, rfl⟩
        rw [hnone] at hn
        cases hn

/-- Writing keeps a file system formed. -/
theorem Formed.write {fs' : FileSystem} {p : Path} {content : Bytes} (hs : fs.Formed)
    (h : fs.write p content = .ok fs') : fs'.Formed := by
  obtain ⟨l, mode, -, hseat, hl, rfl⟩ := hs.exists_put_of_write h
  exact hs.put _ hseat hl

/-! ## Ways after writing -/

section

variable {l : Location} {content : Bytes} {mode : Nat}

/-- A directory that may be entered stays one. -/
theorem IsEnterable.put {d : Location} {node : Node} (h : fs.IsEnterable d)
    (hl : fs.IsWritable l) : (fs.put l node).IsEnterable d :=
  ⟨node?_put_of_isWritable hl h.directory rfl, h.opened⟩

theorem Way.put (hl : fs.IsWritable l) {last : Bool}
    {jump jump' : Location → List String → Location → Prop}
    (hjump : ∀ d names q, jump d names q → jump' d names q)
    {d q : Location} {names : List String} (h : Way fs last jump d names q) :
    Way (fs.put l (.file content mode)) last jump' d names q := by
  induction h with
  | done => exact .done
  | stay hd hopen hname _ ih => exact .stay (node?_put_of_isWritable hl hd rfl) hopen hname ih
  | up hd _ ih => exact .up (hd.put hl) ih
  | @down d q n rest hd hname hshort hlink _ ih =>
      refine .down (hd.put hl) hname hshort ?_ ih
      rintro ⟨target, hnode⟩
      -- what was written is no link
      rw [node?_put, if_neg (by simp)] at hnode
      split at hnode
      case isTrue => cases hnode
      case isFalse => exact hlink ⟨target, hnode⟩
  | stop hd hname hshort hlink hlast =>
      exact .stop (hd.put hl) hname hshort
        (node?_put_of_isWritable hl hlink rfl) hlast
  | jump hd hname hshort hlink hmore h =>
      exact .jump (hd.put hl) hname hshort
        (node?_put_of_isWritable hl hlink rfl) hmore (hjump _ _ _ h)

theorem follow_put (hl : fs.IsWritable l) {last : Bool} {k : Nat} {d q : Location}
    {names : List String} (h : fs.follow last k d names = .ok q) :
    (fs.put l (.file content mode)).follow last k d names = .ok q := by
  induction k generalizing d names q with
  | zero => cases h
  | succ k ih =>
      exact follow_succ_eq_ok_iff.mpr ((follow_succ_eq_ok_iff.mp h).put hl fun _ _ _ => ih)

/-- A path that leads anywhere leads there after a file was written, too. -/
theorem locate_put (hl : fs.IsWritable l) {last : Bool} {p : Path} {q : Location}
    (h : fs.locate last p = .ok q) :
    (fs.put l (.file content mode)).locate last p = .ok q := by
  unfold locate at h ⊢
  split at h
  case isTrue => cases h
  case isFalse hne =>
    rw [if_neg hne]
    exact follow_put hl h

end

/-! ## Unlinking -/

/-- Unlinking takes away what stands where a path leads, unless that is a directory, the
directory above may not be changed or the path is too long. -/
theorem unlink_of_locate {p : Path} {q : Location} (h : fs.locate false p = .ok q) :
    fs.unlink p =
      if isOverlongPath p then .error ⟨.nameTooLong, p.text⟩
      else
        match fs.node? q with
        | none => .error ⟨.notFound, p.text⟩
        | some n =>
          if fs.isFixed q.dropLast then .error ⟨.permissionDenied, p.text⟩
          else if n.isDirectory then .error ⟨.isADirectory, p.text⟩
          else .ok (fs.drop q) := by
  unfold unlink reach
  rw [h]
  cases isOverlongPath p <;> rfl

end JavaAtlas.Storage.FileSystem

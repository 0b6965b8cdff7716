import JavaAtlas.Proofs.Storage.Change
import JavaAtlas.Proofs.Storage.Outline

/-!
# What changes leave as it was

A change of a file system is described by the places where it may store something new and
those where it may replace or remove what is no directory.  Everything else stays, above
all every directory, and no link is made.  The description holds of each change alone and
of changes one after the other.

Main definitions:

- `Alters`: one file system comes from another by changes at certain places.
- `Tries`: the paths of directories that are made, and where they may lead.

Main results:

- Theorem `Alters.trans`: changes one after the other.
- Theorem `Alters.directory`, `Alters.settled`: what stays in any case.
- Theorem `Alters.write`, `Alters.unlink`: files are written and removed where their paths
  lead.
- Theorem `Tries.makeDirectories`, `Tries.triedDirectories`: directories are made where
  nothing was.
- Theorem `Sound.makeDirectories_of_directory`: those that are there stay as they are.
-/

namespace JavaAtlas.Storage.FileSystem

open Text.Utf8 (Bytes)

/-- The second file system comes from the first one by changes: something new stands at
most at some places where nothing was, and other things than directories were replaced or
removed at most at others. -/
structure Alters (fresh changed : Location → Prop) (fs fs' : FileSystem) : Prop where
  node : ∀ q, fs'.node? q = fs.node? q ∨ (fs.node? q = none ∧ fresh q) ∨
    (fs.node? q ≠ some .directory ∧ changed q)
  link : ∀ q, fs'.IsLink q → fs.IsLink q
  sound : fs'.Sound
  working : fs'.workingDirectory = fs.workingDirectory

section

variable {fresh changed : Location → Prop} {fs fs' fs'' : FileSystem}

theorem Sound.alters_self (hs : fs.Sound) : Alters fresh changed fs fs :=
  ⟨fun _ => .inl rfl, fun _ h => h, hs, rfl⟩

/-- Changes one after the other. -/
theorem Alters.trans (h : Alters fresh changed fs fs') (h' : Alters fresh changed fs' fs'') :
    Alters fresh changed fs fs'' := by
  refine ⟨fun q => ?_, fun q hq => h.link q (h'.link q hq), h'.sound,
    h'.working.trans h.working⟩
  rcases h.node q with hsame | hnew | hold
  · rw [← hsame]
    exact h'.node q
  · exact .inr (.inl hnew)
  · exact .inr (.inr hold)

/-! ## What stays -/

/-- What stands at other places stays, and nothing is added there. -/
theorem Alters.node?_eq (h : Alters fresh changed fs fs') {q : Location} (hfresh : ¬ fresh q)
    (hchanged : ¬ changed q) : fs'.node? q = fs.node? q := by
  rcases h.node q with hsame | ⟨-, hq⟩ | ⟨-, hq⟩
  · exact hsame
  · exact absurd hq hfresh
  · exact absurd hq hchanged

/-- What stood somewhere stays, unless the place is one where things are changed. -/
theorem Alters.node?_eq_some (h : Alters fresh changed fs fs') {q : Location} {node : Node}
    (hq : fs.node? q = some node) (hchanged : ¬ changed q) : fs'.node? q = some node := by
  rcases h.node q with hsame | ⟨hnone, -⟩ | ⟨-, hold⟩
  · rw [hsame, hq]
  · cases hnone.symm.trans hq
  · exact absurd hold hchanged

/-- Every directory stays. -/
theorem Alters.directory (h : Alters fresh changed fs fs') {q : Location}
    (hq : fs.node? q = some .directory) : fs'.node? q = some .directory := by
  rcases h.node q with hsame | ⟨hnone, -⟩ | ⟨hne, -⟩
  · rw [hsame, hq]
  · cases hnone.symm.trans hq
  · exact absurd hq hne

/-- Settled locations stay settled. -/
theorem Alters.settled (h : Alters fresh changed fs fs') {l : Location} (hl : fs.Settled l) :
    fs'.Settled l := fun q n hq =>
  ⟨(hl q n hq).1, fun hlink => (hl q n hq).2 (h.link _ hlink)⟩

/-! ## Single changes -/

/-- Storing a node that is no link, where a file stands or nothing. -/
theorem Sound.alters_put {l : Location} {node : Node} (hs : fs.Sound) (hseat : fs.IsSeat l)
    (hl : fs.IsWritable l) (hnode : ∀ target, node ≠ .link target)
    (hplace : (fs.node? l = none ∧ fresh l) ∨ changed l) :
    Alters fresh changed fs (fs.put l node) := by
  have hroot : l ≠ [] := by
    obtain ⟨d, n, rfl, -⟩ := hseat
    simp
  refine ⟨fun q => ?_, ?_, hs.put node hseat hl, rfl⟩
  · by_cases hq : q = l
    case pos =>
      rw [hq]
      rcases hplace with hfresh | hchanged
      · exact .inr (.inl hfresh)
      · refine .inr (.inr ⟨fun hdirectory => ?_, hchanged⟩)
        cases hl _ hdirectory
    case neg =>
      rw [node?_put, if_neg hq]
      split
      case isTrue hnil => exact .inl (by rw [hnil, node?_nil])
      case isFalse => exact .inl rfl
  · rintro q ⟨target, hq⟩
    rw [node?_put] at hq
    split at hq
    case isTrue => cases hq
    case isFalse =>
      split at hq
      case isTrue => exact absurd (Option.some.inj hq) (hnode target)
      case isFalse => exact ⟨target, hq⟩

/-- A file is written where its path leads. -/
theorem Alters.write {p : Path} {content : Bytes} (h : Alters fresh changed fs fs')
    (hplace : ∀ l, fs'.locate true p = .ok l → changed l)
    (hwrite : fs'.write p content = .ok fs'') : Alters fresh changed fs fs'' := by
  obtain ⟨l, mode, hreach, hseat, hl, rfl⟩ := h.sound.exists_put_of_write hwrite
  have hlocate := (reach_eq_ok_iff.mp hreach).2
  exact h.trans (h.sound.alters_put hseat hl (fun _ => by simp) (.inr (hplace l hlocate)))

/-- What was written to a settled location is read there. -/
theorem Sound.read_of_write {l : Location} {content : Bytes} (hs : fs.Sound)
    (hl : fs.Settled l) (h : fs.write (pathOf l) content = .ok fs') :
    fs'.read (pathOf l) = .ok content := by
  obtain ⟨r, mode, hreach, hseat, hr, rfl⟩ := hs.exists_put_of_write h
  obtain ⟨hshort, hlocate⟩ := reach_eq_ok_iff.mp hreach
  obtain rfl := eq_of_locate_pathOf hl hlocate
  have hnode : (fs.put r (.file content mode)).node? r = some (.file content mode) := by
    obtain ⟨d, n, rfl, -⟩ := hseat
    rw [node?_put, if_neg (by simp), if_pos rfl]
  have hsound := hs.put (.file content mode) hseat hr
  have hplace := hsound.locate_pathOf hnode (by
    rintro ⟨target, hlink⟩
    cases hnode.symm.trans hlink)
  have hreach := reach_eq_ok_iff.mpr ⟨hshort, hplace⟩
  exact read_eq_ok_iff.mpr ⟨r, mode, hreach, hnode, hsound.isHidden_eq r⟩

/-- What is no directory is removed where its path leads. -/
theorem Alters.unlink {p : Path} (h : Alters fresh changed fs fs')
    (hplace : ∀ l, fs'.locate false p = .ok l → changed l)
    (hunlink : fs'.unlink p = .ok fs'') : Alters fresh changed fs fs'' := by
  unfold FileSystem.unlink reach at hunlink
  split at hunlink
  case h_1 => cases hunlink
  case h_2 l hreach =>
    split at hreach
    case isTrue => cases hreach
    case isFalse =>
      split at hunlink
      case h_1 => cases hunlink
      case h_2 node hnode =>
        rw [h.sound.isFixed_eq, if_neg Bool.false_ne_true] at hunlink
        have hother : node ≠ .directory := by
          rintro rfl
          cases hunlink
        obtain rfl : fs'.drop l = fs'' := by
          cases node <;> simp_all [Node.isDirectory]
        have hleaf : fs'.IsLeaf l := ⟨node, hnode, hother⟩
        have hne : fs'.node? l ≠ some .directory := by
          rw [hnode]
          exact fun heq => hother (Option.some.inj heq)
        refine h.trans ⟨fun q => ?_, ?_, h.sound.drop hleaf, rfl⟩
        · rw [h.sound.node?_drop_leaf hleaf]
          split
          case isTrue hq => exact .inr (.inr ⟨hq ▸ hne, hq ▸ hplace l hreach⟩)
          case isFalse => exact .inl rfl
        · rintro q ⟨target, hq⟩
          rw [h.sound.node?_drop_leaf hleaf] at hq
          split at hq
          case isTrue => cases hq
          case isFalse => exact ⟨target, hq⟩

/-! ## Directories -/

/-- Creating stores a node at a free seat that the path leads to. -/
theorem Sound.exists_put_of_create {p : Path} {node : Node} (hs : fs.Sound)
    (h : fs.create p node = .ok fs') :
    ∃ l, fs.locate false p = .ok l ∧ fs.IsSeat l ∧ fs.node? l = none ∧ fs' = fs.put l node := by
  unfold create reach at h
  split at h
  case isTrue => cases h
  case isFalse =>
    cases hlocate : fs.locate false p with
    | error e => simp [hlocate, bind, Except.bind] at h
    | ok l =>
        cases hnode : fs.node? l with
        | some old => simp [hlocate, hnode, bind, Except.bind] at h
        | none =>
            obtain rfl : fs.put l node = fs' := by
              simpa [hlocate, hnode, bind, Except.bind, hs.isFixed_eq] using h
            rcases (hs.isEnd_of_locate hlocate).1 with rfl | hseat
            · cases hnode
            · exact ⟨l, rfl, hseat, hnode, rfl⟩

/-- A directory is made where nothing was, unless the path leads to one. -/
theorem Alters.makeDirectory {p : Path} (h : Alters fresh changed fs fs')
    (hplace : ∀ l, fs'.locate false p = .ok l → fresh l)
    (hmake : fs'.makeDirectory p = .ok fs'') : Alters fresh changed fs fs'' := by
  unfold FileSystem.makeDirectory at hmake
  split at hmake
  case h_1 made hcreate =>
    cases hmake
    obtain ⟨l, hlocate, hseat, hnone, rfl⟩ := h.sound.exists_put_of_create hcreate
    have hl : fs'.IsWritable l := by
      intro node hnode
      cases hnone.symm.trans hnode
    exact h.trans (h.sound.alters_put hseat hl (fun _ => by simp)
      (.inl ⟨hnone, hplace l hlocate⟩))
  case h_2 =>
    split at hmake
    case isTrue =>
      cases hmake
      exact h
    case isFalse => cases hmake

/-- Where directories may be made: wherever the paths lead that are tried, whatever was
made before. -/
structure Tries (fresh changed : Location → Prop) (fs : FileSystem) (tried : Path → Prop) :
    Prop where
  parent : ∀ p, tried p → tried p.parent
  place : ∀ fs' p l, Alters fresh changed fs fs' → tried p → fs'.locate false p = .ok l →
    fresh l

variable {tried : Path → Prop}

/-- An attempt to make directories leaves directories where nothing was. -/
theorem Tries.triedWithin (ht : Tries fresh changed fs tried) (h : Alters fresh changed fs fs')
    (n : Nat) {p : Path} (hp : tried p) : Alters fresh changed fs (fs'.triedWithin n p) := by
  induction n generalizing p with
  | zero =>
      unfold FileSystem.triedWithin
      split
      case h_1 made hmake => exact h.makeDirectory (fun l => ht.place fs' p l h hp) hmake
      case h_2 => exact h
  | succ n ih =>
      unfold FileSystem.triedWithin
      split
      case h_1 made hmake => exact h.makeDirectory (fun l => ht.place fs' p l h hp) hmake
      case h_3 => exact h
      case h_2 =>
        have habove := ih (ht.parent p hp)
        dsimp only
        split
        case h_1 made hmake =>
          exact habove.makeDirectory (fun l => ht.place _ p l habove hp) hmake
        case h_2 => exact habove

/-- Directories are made at once, or after those above them. -/
theorem makeDirectoriesWithin_cases {n : Nat} {p : Path}
    (h : makeDirectoriesWithin n fs p = .ok fs') :
    fs.makeDirectory p = .ok fs' ∨
      ∃ m above, n = m + 1 ∧ fs.makeDirectory p = .error .notFound ∧
        makeDirectoriesWithin m fs p.parent = .ok above ∧ above.makeDirectory p = .ok fs' := by
  cases n with
  | zero =>
      unfold makeDirectoriesWithin at h
      cases hmake : fs.makeDirectory p with
      | ok made => exact .inl (by simpa [hmake] using h)
      | error e => simp [hmake] at h
  | succ n =>
      unfold makeDirectoriesWithin at h
      cases hmake : fs.makeDirectory p with
      | ok made => exact .inl (by simpa [hmake] using h)
      | error e =>
          obtain rfl : e = .notFound := by
            cases e <;> simp_all
          cases habove : makeDirectoriesWithin n fs p.parent with
          | error f => simp [hmake, habove, bind, Except.bind] at h
          | ok above =>
              cases hlast : above.makeDirectory p with
              | error e => simp [hmake, habove, hlast, bind, Except.bind] at h
              | ok made =>
                  obtain rfl : made = fs' := by
                    simpa [hmake, habove, hlast, bind, Except.bind] using h
                  exact .inr ⟨n, above, rfl, rfl, habove, hlast⟩

/-- An attempt that succeeds leaves what it makes. -/
theorem triedWithin_of_makeDirectoriesWithin {n : Nat} {p : Path}
    (h : makeDirectoriesWithin n fs p = .ok fs') : fs.triedWithin n p = fs' := by
  induction n generalizing p fs' with
  | zero =>
      rcases makeDirectoriesWithin_cases h with hmake | ⟨m, above, hn, -⟩
      · simp only [FileSystem.triedWithin, hmake]
      · cases hn
  | succ n ih =>
      rcases makeDirectoriesWithin_cases h with hmake | ⟨m, above, hn, hmake, habove, hlast⟩
      · simp only [FileSystem.triedWithin, hmake]
      · obtain rfl := Nat.succ.inj hn
        simp only [FileSystem.triedWithin, hmake, ih habove, hlast]

theorem Tries.triedDirectories (ht : Tries fresh changed fs tried)
    (h : Alters fresh changed fs fs') {p : Path} (hp : tried p) :
    Alters fresh changed fs (fs'.triedDirectories p) :=
  ht.triedWithin h _ hp

theorem Tries.makeDirectories (ht : Tries fresh changed fs tried)
    (h : Alters fresh changed fs fs') {p : Path} (hp : tried p)
    (hmake : fs'.makeDirectories p = .ok fs'') : Alters fresh changed fs fs'' := by
  rw [← triedWithin_of_makeDirectoriesWithin hmake]
  exact ht.triedWithin h _ hp

/-- All that leads to a settled location is tried along with it, and leads there. -/
theorem tries_of_settled {l : Location} (hl : fs.Settled l) :
    Tries (· <+: l) changed fs fun p => ∃ q, p = pathOf q ∧ q <+: l where
  parent := by
    rintro p ⟨q, rfl, hq⟩
    exact ⟨q.dropLast, rfl, (List.dropLast_prefix q).trans hq⟩
  place := by
    rintro fs' p r h ⟨q, rfl, hq⟩ hlocate
    have hsettled : fs'.Settled q := Settled.of_prefix (h.settled hl) hq
    rw [eq_of_locate_pathOf hsettled hlocate]
    exact hq

/-- What was made stands where its path leads. -/
theorem Sound.directory_of_makeDirectory {l : Location} (hs : fs.Sound) (hl : fs.Settled l)
    (h : fs.makeDirectory (pathOf l) = .ok fs') : fs'.node? l = some .directory := by
  unfold FileSystem.makeDirectory at h
  split at h
  case h_1 made hcreate =>
    cases h
    obtain ⟨r, hlocate, ⟨d, n, rfl, -⟩, -, rfl⟩ := hs.exists_put_of_create hcreate
    obtain rfl := eq_of_locate_pathOf hl hlocate
    rw [node?_put, if_neg (by simp), if_pos rfl]
  case h_2 =>
    split at h
    case isTrue hdirectory =>
      cases h
      exact ((hs.isDirectory_pathOf hl).mp hdirectory).2
    case isFalse => cases h

theorem Sound.directory_of_makeDirectories {l : Location} (hs : fs.Sound) (hl : fs.Settled l)
    (h : fs.makeDirectories (pathOf l) = .ok fs') : fs'.node? l = some .directory := by
  rcases makeDirectoriesWithin_cases h with hmake | ⟨n, above, -, -, habove, hlast⟩
  · exact hs.directory_of_makeDirectory hl hmake
  · have ht : Tries (· <+: l) (fun _ => False) fs fun p => ∃ q, p = pathOf q ∧ q <+: l :=
      tries_of_settled hl
    have hmade := ht.triedWithin hs.alters_self n (ht.parent _ ⟨l, rfl, List.prefix_rfl⟩)
    rw [triedWithin_of_makeDirectoriesWithin habove] at hmade
    exact hmade.sound.directory_of_makeDirectory (hmade.settled hl) hlast

/-- A directory that is there already is left as it is. -/
theorem Sound.makeDirectory_of_directory {l : Location} (hs : fs.Sound)
    (hshort : isOverlongPath (pathOf l) = false) (h : fs.node? l = some .directory) :
    fs.makeDirectory (pathOf l) = .ok fs := by
  have hsettled := hs.settled h
  unfold FileSystem.makeDirectory
  cases hcreate : fs.create (pathOf l) .directory with
  | ok made =>
      obtain ⟨r, hlocate, -, hnone, -⟩ := hs.exists_put_of_create hcreate
      obtain rfl := eq_of_locate_pathOf hsettled hlocate
      cases hnone.symm.trans h
  | error e => simp only [(hs.isDirectory_pathOf hsettled).mpr ⟨hshort, h⟩, if_true]

theorem Sound.makeDirectories_of_directory {l : Location} (hs : fs.Sound)
    (hshort : isOverlongPath (pathOf l) = false) (h : fs.node? l = some .directory) :
    fs.makeDirectories (pathOf l) = .ok fs := by
  unfold FileSystem.makeDirectories
  cases (pathOf l).names.length <;>
    simp only [makeDirectoriesWithin, hs.makeDirectory_of_directory hshort h]

/-- Directories may be made anywhere. -/
theorem tries_anywhere : Tries (fun _ => True) changed fs fun _ => True :=
  ⟨fun _ _ => trivial, fun _ _ _ _ _ _ => trivial⟩

end

end JavaAtlas.Storage.FileSystem

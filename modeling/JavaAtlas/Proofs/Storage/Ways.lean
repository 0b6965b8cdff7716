import JavaAtlas.Proofs.Storage.Access

/-!
# Ways through a file system

Access that succeeds goes from directory to directory, one name after the other.  Facts
about it are shown by induction on this way, with one case for each kind of step.

Main definitions:

- `Way`: how names lead from one location to another.
- `IsSeat`, `IsEnd`: the locations where an entry may stand, and where access can end.
- `Pruned`: names without some that say nothing.

Main results:

- Theorem `enter_eq_ok_iff`: entering succeeds exactly along a way.
- Theorem `isOverlong_eq_false_of_locate`: a path that leads somewhere has short names.
- Theorem `Formed.isEnd_of_locate`: where access ends that follows links.
- Theorem `Way.enter_append`: entering goes on where a way ends.
- Theorem `Formed.locate_below`: access to an entry below the location of a path.
- Theorem `exists_directory_of_locate_child`: access to the names in a directory.
- Theorem `node?_perm`: nodes stay when the entries are listed in another order.
-/

namespace JavaAtlas.Storage.FileSystem

variable {fs : FileSystem}

/-! ## Ways -/

/-- The location is that of a directory in which names may be looked up. -/
structure IsEnterable (fs : FileSystem) (l : Location) : Prop where
  directory : fs.node? l = some .directory
  opened : fs.isClosed l = false

/-- Names lead from a location to another one.  `jump` says where the names behind a link
lead, from where its target begins. -/
inductive Way (fs : FileSystem) (last : Bool) (jump : Location → List String → Location → Prop) :
    Location → List String → Location → Prop where
  | done {l : Location} : Way fs last jump l [] l
  /-- A name that says nothing. -/
  | stay {l q : Location} {n : String} {rest : List String}
      (hl : fs.node? l = some .directory) (hopen : n = "" ∨ fs.isClosed l = false)
      (hname : Path.isName n = false)
      (h : Way fs last jump l rest q) : Way fs last jump l (n :: rest) q
  | up {l q : Location} {rest : List String} (hl : fs.IsEnterable l)
      (h : Way fs last jump l.dropLast rest q) : Way fs last jump l (".." :: rest) q
  | down {l q : Location} {n : String} {rest : List String}
      (hl : fs.IsEnterable l) (hname : IsEntryName n)
      (hshort : isOverlong n = false) (hlink : ¬ fs.IsLink (l ++ [n]))
      (h : Way fs last jump (l ++ [n]) rest q) : Way fs last jump l (n :: rest) q
  /-- The last name is a link that is not followed. -/
  | stop {l : Location} {n target : String} (hl : fs.IsEnterable l)
      (hname : IsEntryName n) (hshort : isOverlong n = false)
      (hlink : fs.node? (l ++ [n]) = some (.link target)) (hlast : last = false) :
      Way fs last jump l [n] (l ++ [n])
  | jump {l q : Location} {n target : String} {rest : List String}
      (hl : fs.IsEnterable l) (hname : IsEntryName n)
      (hshort : isOverlong n = false) (hlink : fs.node? (l ++ [n]) = some (.link target))
      (hmore : rest ≠ [] ∨ last = true)
      (h : jump (startFrom l (Path.asWritten target).anchor)
        ((Path.asWritten target).names ++ rest) q) : Way fs last jump l (n :: rest) q

/-- What a function that follows names says about jumps. -/
abbrev Leads (follow : Location → List String → Except FileError Location) (l : Location)
    (names : List String) (q : Location) : Prop :=
  follow l names = .ok q

theorem ne_empty_of_isName {n : String} (h : Path.isName n = true) : n ≠ "" := by
  rintro rfl
  cases h

section

variable {last : Bool} {jump : Location → List String → Except FileError Location}
  {l q : Location} {names : List String}

theorem way_of_enter (h : fs.enter last jump l names = .ok q) :
    Way fs last (Leads jump) l names q := by
  induction names generalizing l with
  | nil =>
      cases h
      exact .done
  | cons n rest ih =>
      unfold enter at h
      split at h
      case h_1 => cases h
      case h_3 => cases h
      case h_2 hl =>
        split at h
        case isTrue => cases h
        case isFalse hclosed =>
          have hopen : n = "" ∨ fs.isClosed l = false := by
            simpa [or_iff_not_imp_left] using hclosed
          split at h
          case isFalse hname => exact .stay hl hopen (Bool.not_eq_true _ ▸ hname) (ih h)
          case isTrue hname =>
            have hl : fs.IsEnterable l := ⟨hl, hopen.resolve_left (ne_empty_of_isName hname)⟩
            split at h
            case isTrue hup =>
              subst hup
              exact .up hl (ih h)
            case isFalse hup =>
              split at h
              case isTrue => cases h
              case isFalse hlong =>
                have hshort : isOverlong n = false := by simpa using hlong
                split at h
                case h_2 hnode =>
                  exact .down hl ⟨hname, hup⟩ hshort (fun hlink => hlink.elim hnode) (ih h)
                case h_1 target hlink =>
                  split at h
                  case isTrue hend =>
                    simp only [Bool.and_eq_true, List.isEmpty_iff, Bool.not_eq_true'] at hend
                    obtain ⟨rfl, hlast⟩ := hend
                    cases h
                    exact .stop hl ⟨hname, hup⟩ hshort hlink hlast
                  case isFalse hend =>
                    refine .jump hl ⟨hname, hup⟩ hshort hlink ?_ h
                    simpa [or_iff_not_imp_left] using hend

/-! Entering takes one step of a way after the other. -/

section

variable {n target : String} {rest : List String}

theorem enter_stay (hl : fs.node? l = some .directory) (hopen : n = "" ∨ fs.isClosed l = false)
    (hname : Path.isName n = false) :
    fs.enter last jump l (n :: rest) = fs.enter last jump l rest := by
  have hclosed : (n != "" && fs.isClosed l) = false := by
    rcases hopen with rfl | hopen
    · rfl
    · simp [hopen]
  rw [enter, hl]
  simp [hclosed, hname]

theorem enter_up (hl : fs.IsEnterable l) :
    fs.enter last jump l (".." :: rest) = fs.enter last jump l.dropLast rest := by
  rw [enter, hl.directory]
  simp [hl.opened, Path.isName]

theorem enter_down (hl : fs.IsEnterable l) (hname : IsEntryName n) (hshort : isOverlong n = false)
    (hlink : ¬ fs.IsLink (l ++ [n])) :
    fs.enter last jump l (n :: rest) = fs.enter last jump (l ++ [n]) rest := by
  rw [enter, hl.directory]
  simp only [hl.opened, Bool.and_false, hname.1, if_true, if_neg hname.2, hshort,
    Bool.false_eq_true, if_false]
  split
  case h_1 target hnode => exact absurd ⟨target, hnode⟩ hlink
  case h_2 => rfl

theorem enter_jump (hl : fs.IsEnterable l) (hname : IsEntryName n) (hshort : isOverlong n = false)
    (hlink : fs.node? (l ++ [n]) = some (.link target)) (hmore : rest ≠ [] ∨ last = true) :
    fs.enter last jump l (n :: rest) =
      jump (startFrom l (Path.asWritten target).anchor)
        ((Path.asWritten target).names ++ rest) := by
  have hend : ¬ (rest.isEmpty && !last) = true := by
    simpa [or_iff_not_imp_left] using hmore
  rw [enter, hl.directory]
  simp only [hl.opened, Bool.and_false, hname.1, if_true, if_neg hname.2, hshort,
    Bool.false_eq_true, if_false, hlink, if_neg hend]

/-- In a closed directory no name is looked up. -/
theorem enter_closed (hl : fs.node? l = some .directory) (hclosed : fs.isClosed l = true)
    (hname : n ≠ "") : fs.enter last jump l (n :: rest) = .error .permissionDenied := by
  rw [enter, hl]
  simp [hclosed, hname]

end

theorem Way.enter_eq_ok (h : Way fs last (Leads jump) l names q) :
    fs.enter last jump l names = .ok q := by
  induction h with
  | done => rfl
  | stay hl hopen hname _ ih => rwa [enter_stay hl hopen hname]
  | up hl _ ih => rwa [enter_up hl]
  | down hl hname hshort hlink _ ih => rwa [enter_down hl hname hshort hlink]
  | stop hl hname hshort hlink hlast =>
      rw [enter, hl.directory]
      simp [hl.opened, hname.1, hname.2, hshort, hlink, hlast]
  | jump hl hname hshort hlink hmore h => rwa [enter_jump hl hname hshort hlink hmore]

/-- Entering succeeds exactly along a way. -/
theorem enter_eq_ok_iff :
    fs.enter last jump l names = .ok q ↔ Way fs last (Leads jump) l names q :=
  ⟨way_of_enter, Way.enter_eq_ok⟩

end

theorem follow_succ_eq_ok_iff {last : Bool} {k : Nat} {l q : Location} {names : List String} :
    fs.follow last (k + 1) l names = .ok q ↔
      Way fs last (Leads (fs.follow last k)) l names q :=
  enter_eq_ok_iff

/-- The target of a link begins in a directory. -/
theorem node?_startFrom {l : Location} (h : fs.node? l = some .directory) (a : Anchor) :
    fs.node? (startFrom l a) = some .directory := by
  cases a with
  | here => exact h
  | root => rfl
  | doubleRoot => rfl

/-! ## Names on a way -/

theorem isOverlong_eq_false_of_not_isName {n : String} (h : Path.isName n = false) :
    isOverlong n = false := by
  have hn : n = "" ∨ n = "." := by
    simpa [Path.isName, or_iff_not_imp_left] using h
  rcases hn with rfl | rfl <;> decide

/-- Names on a way are short, if that is so behind links. -/
theorem Way.isOverlong_eq_false {last : Bool} {jump : Location → List String → Location → Prop}
    (hjump : ∀ l names q, jump l names q → ∀ n ∈ names, isOverlong n = false)
    {l q : Location} {names : List String} (h : Way fs last jump l names q) :
    ∀ n ∈ names, isOverlong n = false := by
  induction h with
  | done => exact List.forall_mem_nil _
  | stay _ _ hname _ ih =>
      exact List.forall_mem_cons.mpr ⟨isOverlong_eq_false_of_not_isName hname, ih⟩
  | up _ _ ih => exact List.forall_mem_cons.mpr ⟨by decide, ih⟩
  | down _ _ hshort _ _ ih => exact List.forall_mem_cons.mpr ⟨hshort, ih⟩
  | stop _ _ hshort => exact List.forall_mem_cons.mpr ⟨hshort, List.forall_mem_nil _⟩
  | jump _ _ hshort _ _ h =>
      -- the names behind the link are the last ones of those that are followed there
      exact List.forall_mem_cons.mpr ⟨hshort, (List.forall_mem_append.mp (hjump _ _ _ h)).2⟩

theorem isOverlong_eq_false_of_follow {last : Bool} {k : Nat} {l q : Location}
    {names : List String} (h : fs.follow last k l names = .ok q) :
    ∀ n ∈ names, isOverlong n = false := by
  induction k generalizing l names q with
  | zero => cases h
  | succ k ih => exact (follow_succ_eq_ok_iff.mp h).isOverlong_eq_false fun _ _ _ => ih

/-- A path that leads to a location has short names. -/
theorem isOverlong_eq_false_of_locate {last : Bool} {p : Path} {q : Location}
    (h : fs.locate last p = .ok q) : ∀ n ∈ p.names, isOverlong n = false := by
  unfold locate at h
  split at h
  case isTrue => cases h
  case isFalse => exact isOverlong_eq_false_of_follow h

/-! ## Where access ends -/

/-- The location is that of a name that can be looked up in a directory. -/
def IsSeat (fs : FileSystem) (l : Location) : Prop :=
  ∃ d n, l = d ++ [n] ∧ fs.node? d = some .directory ∧ IsEntryName n ∧ isOverlong n = false

/-- Where something is stored there is the root or a seat. -/
theorem Formed.eq_nil_or_isSeat {l : Location} (hs : fs.Formed) (h : fs.node? l ≠ none) :
    l = [] ∨ fs.IsSeat l := by
  induction l using List.reverseRecOn with
  | nil => exact .inl rfl
  | append_singleton d n _ =>
      exact .inr ⟨d, n, rfl, hs.parent d n h, hs.name d n h, hs.short d n h⟩

/-- The parent of a directory is a directory. -/
theorem Formed.directory_dropLast {l : Location} (hs : fs.Formed)
    (h : fs.node? l = some .directory) : fs.node? l.dropLast = some .directory := by
  induction l using List.reverseRecOn with
  | nil => exact h
  | append_singleton d n _ =>
      rw [List.dropLast_concat]
      exact hs.parent d n (by simp [h])

/-- Access can end at the location; where the last name is followed, too, it ends at no
link. -/
def IsEnd (fs : FileSystem) (last : Bool) (l : Location) : Prop :=
  (l = [] ∨ fs.IsSeat l) ∧ (last = true → ¬ fs.IsLink l)

theorem Formed.isEnd_of_directory {last : Bool} {l : Location} (hs : fs.Formed)
    (h : fs.node? l = some .directory) : fs.IsEnd last l :=
  ⟨hs.eq_nil_or_isSeat (by simp [h]), fun _ => not_isLink_of_directory h⟩

theorem Formed.isEnd_of_way {last : Bool} (hs : fs.Formed)
    {jump : Location → List String → Location → Prop}
    (hjump : ∀ l names q, fs.node? l = some .directory → jump l names q → fs.IsEnd last q)
    {l q : Location} {names : List String} (hl : fs.IsEnd last l)
    (h : Way fs last jump l names q) : fs.IsEnd last q := by
  induction h with
  | done => exact hl
  | stay _ _ _ _ ih => exact ih hl
  | up hd _ ih => exact ih (hs.isEnd_of_directory (hs.directory_dropLast hd.directory))
  | down hd hname hshort hlink _ ih =>
      exact ih ⟨.inr ⟨_, _, rfl, hd.directory, hname, hshort⟩, fun _ => hlink⟩
  | stop hd hname hshort _ hlast =>
      refine ⟨.inr ⟨_, _, rfl, hd.directory, hname, hshort⟩, fun hfollowed => ?_⟩
      cases hlast.symm.trans hfollowed
  | jump hd _ _ _ _ h => exact hjump _ _ _ (node?_startFrom hd.directory _) h

theorem Formed.isEnd_of_follow {last : Bool} (hs : fs.Formed) {k : Nat} {l q : Location}
    {names : List String} (hl : fs.node? l = some .directory)
    (h : fs.follow last k l names = .ok q) : fs.IsEnd last q := by
  induction k generalizing l names q with
  | zero => cases h
  | succ k ih =>
      exact hs.isEnd_of_way (fun _ _ _ hd hjump => ih hd hjump) (hs.isEnd_of_directory hl)
        (follow_succ_eq_ok_iff.mp h)

/-- A path begins in a directory. -/
theorem Formed.node?_start (hs : fs.Formed) (a : Anchor) :
    fs.node? (fs.start a) = some .directory :=
  node?_startFrom hs.working a

/-- Access ends at the root or at a seat, and at no link if it follows the last name. -/
theorem Formed.isEnd_of_locate {last : Bool} (hs : fs.Formed) {p : Path} {q : Location}
    (h : fs.locate last p = .ok q) : fs.IsEnd last q := by
  unfold locate at h
  split at h
  case isTrue => cases h
  case isFalse => exact hs.isEnd_of_follow (hs.node?_start p.anchor) h

/-! ## Ways put together -/

/-- Names from which some that say nothing were left out. -/
inductive Pruned : List String → List String → Prop where
  | nil : Pruned [] []
  | keep {names kept : List String} (n : String) (h : Pruned names kept) :
      Pruned (n :: names) (n :: kept)
  | skip {names kept : List String} {n : String} (hname : Path.isName n = false)
      (h : Pruned names kept) : Pruned (n :: names) kept

theorem pruned_append_left {names kept : List String} (front : List String)
    (h : Pruned names kept) : Pruned (front ++ names) (front ++ kept) := by
  induction front with
  | nil => exact h
  | cons n front ih => exact .keep n ih

theorem pruned_refl (names : List String) : Pruned names names := by
  simpa using pruned_append_left names .nil

theorem pruned_filter (names : List String) : Pruned names (names.filter Path.isName) := by
  induction names with
  | nil => exact .nil
  | cons n names ih =>
      by_cases hname : Path.isName n = true
      case pos =>
        rw [List.filter_cons_of_pos hname]
        exact .keep n ih
      case neg =>
        rw [List.filter_cons_of_neg hname]
        exact .skip (by simpa using hname) ih

/-- A name that says something is left out of no names. -/
theorem Pruned.exists_of_isName {n : String} {names kept : List String}
    (hname : Path.isName n = true) (h : Pruned (n :: names) kept) :
    ∃ rest, kept = n :: rest ∧ Pruned names rest := by
  cases h with
  | keep _ h => exact ⟨_, rfl, h⟩
  | skip hskip _ => cases hname.symm.trans hskip

/-- Entering goes on where a way ends, and names that say nothing can be left out of it. -/
theorem Way.enter_append {last : Bool} {jump : Location → List String → Location → Prop}
    {jump' : Location → List String → Except FileError Location}
    {l r : Location} {names kept more : List String} {result : Except FileError Location}
    (hjump : ∀ d names kept, Pruned names kept → jump d names r → jump' d (kept ++ more) = result)
    (hmore : fs.enter last jump' r more = result) (hlast : more ≠ [] ∨ last = true)
    (hkept : Pruned names kept) (h : Way fs true jump l names r) :
    fs.enter last jump' l (kept ++ more) = result := by
  induction h generalizing kept with
  | done =>
      cases hkept
      exact hmore
  | stay hl hopen hm _ ih =>
      cases hkept with
      | keep _ hkept =>
          rw [List.cons_append, enter_stay hl hopen hm]
          exact ih hjump hmore hkept
      | skip _ hkept => exact ih hjump hmore hkept
  | up hl _ ih =>
      obtain ⟨rest, rfl, hrest⟩ := hkept.exists_of_isName (by decide)
      rw [List.cons_append, enter_up hl]
      exact ih hjump hmore hrest
  | down hl hm hlong hlink _ ih =>
      obtain ⟨rest, rfl, hrest⟩ := hkept.exists_of_isName hm.1
      rw [List.cons_append, enter_down hl hm hlong hlink]
      exact ih hjump hmore hrest
  | stop _ _ _ _ hstop => cases hstop
  | @jump l r n target names hl hm hlong hlink _ h =>
      obtain ⟨rest, rfl, hrest⟩ := hkept.exists_of_isName hm.1
      rw [List.cons_append,
        enter_jump hl hm hlong hlink (hlast.imp_left fun hne => by simp [hne]), ← List.append_assoc]
      exact hjump _ _ _ (pruned_append_left _ hrest) h

/-- Following names goes on where the first ones lead, if no link is followed there. -/
theorem follow_append {last : Bool} {k : Nat} {l r : Location} {names kept more : List String}
    {result : Except FileError Location}
    (hmore : ∀ jump, fs.enter last jump r more = result) (hlast : more ≠ [] ∨ last = true)
    (hkept : Pruned names kept) (h : fs.follow true k l names = .ok r) :
    fs.follow last k l (kept ++ more) = result := by
  induction k generalizing l names kept with
  | zero => cases h
  | succ k ih =>
      have hjump : ∀ d names kept, Pruned names kept → Leads (fs.follow true k) d names r →
          fs.follow last k d (kept ++ more) = result := fun _ _ _ hkept hd => ih hkept hd
      exact (follow_succ_eq_ok_iff.mp h).enter_append hjump (hmore _) hlast hkept

/-- Below the location to which a path leads, the path followed by names of entries leads
where these lead from there, if they are followed over no link. -/
theorem locate_join {root : Path} {l : Location} {names : List String}
    {result : Except FileError Location} (hroot : fs.locate true root = .ok l)
    (hnames : ∀ n ∈ names, Path.isName n = true)
    (h : ∀ jump, fs.enter true jump l names = result) :
    fs.locate true (root.normal.join ⟨.here, names⟩) = result := by
  have hall : ∀ n ∈ (root.normal.join ⟨.here, names⟩).names, Path.isName n = true :=
    List.forall_mem_append.mpr ⟨fun n hn => (List.mem_filter.mp hn).2, hnames⟩
  have hne : root.normal.join ⟨.here, names⟩ ≠ ⟨.here, [""]⟩ := by
    intro heq
    have hempty : "" ∈ (root.normal.join ⟨.here, names⟩).names := by simp [heq]
    exact absurd (hall _ hempty) (by decide)
  unfold locate at hroot ⊢
  rw [if_neg hne]
  split at hroot
  case isTrue => cases hroot
  case isFalse => exact follow_append h (.inr rfl) (pruned_filter root.names) hroot

/-- Below the location to which a path leads, the path followed by the names of an entry
that is no link leads to that entry, if no directory on the way is closed. -/
theorem Formed.locate_below {root : Path} {l : Location} {names : List String} {node : Node}
    (hs : fs.Formed) (hroot : fs.locate true root = .ok l) (hopen : fs.OpensTo l names)
    (hnode : fs.node? (l ++ names) = some node) (hlink : ¬ fs.IsLink (l ++ names)) :
    fs.locate true (root.normal.join ⟨.here, names⟩) = .ok (l ++ names) := by
  have hsettled := hs.settled_of_not_isLink hnode hlink
  refine locate_join hroot (fun n hn => ?_) fun _ => hs.enter_eq_ok hopen hnode hlink
  obtain ⟨front, rest, rfl⟩ := List.append_of_mem hn
  exact (hsettled (l ++ front) n ⟨rest, by simp⟩).1.1

/-! ## Names in a directory -/

section

variable {n : String}

theorem enter_child {jump : Location → List String → Except FileError Location} {r : Location}
    (hr : fs.IsEnterable r) (hname : IsEntryName n) (hshort : isOverlong n = false) :
    fs.enter false jump r [n] = .ok (r ++ [n]) := by
  refine enter_eq_ok_iff.mpr ?_
  by_cases hlink : fs.IsLink (r ++ [n])
  case pos =>
    obtain ⟨target, hlink⟩ := hlink
    exact .stop hr hname hshort hlink rfl
  case neg => exact .down hr hname hshort hlink .done

theorem follow_child {k : Nat} {l r : Location} {names : List String}
    (hr : fs.IsEnterable r) (hname : IsEntryName n) (hshort : isOverlong n = false)
    (h : fs.follow true k l names = .ok r) :
    fs.follow false k l (names ++ [n]) = .ok (r ++ [n]) :=
  follow_append (fun _ => enter_child hr hname hshort) (.inl (by simp)) (pruned_refl names) h

/-- The names before the last one lead to a directory that may be entered. -/
theorem Way.above {last : Bool} {jump jump' : Location → List String → Location → Prop}
    {l q : Location} {names : List String} (hn : n ≠ "")
    (hjump : ∀ d names, jump' d (names ++ [n]) q → ∃ r, jump d names r ∧ fs.IsEnterable r)
    (h : Way fs last jump' l (names ++ [n]) q) :
    ∃ r, Way fs true jump l names r ∧ fs.IsEnterable r := by
  induction names generalizing l with
  | nil =>
      refine ⟨l, .done, ?_⟩
      cases h with
      | stay hl hopen => exact ⟨hl, hopen.resolve_left hn⟩
      | up hl => exact hl
      | down hl => exact hl
      | stop hl => exact hl
      | jump hl => exact hl
  | cons m rest ih =>
      generalize hnames : m :: rest ++ [n] = names at h
      cases h with
      | done => cases hnames
      | stay hl hopen hm h =>
          cases hnames
          obtain ⟨r, hway, hr⟩ := ih h
          exact ⟨r, .stay hl hopen hm hway, hr⟩
      | up hl h =>
          cases hnames
          obtain ⟨r, hway, hr⟩ := ih h
          exact ⟨r, .up hl hway, hr⟩
      | down hl hm hlong hlink h =>
          cases hnames
          obtain ⟨r, hway, hr⟩ := ih h
          exact ⟨r, .down hl hm hlong hlink hway, hr⟩
      | stop => simp at hnames
      | jump hl hm hlong hlink _ h =>
          cases hnames
          rw [List.append_eq, ← List.append_assoc] at h
          obtain ⟨r, hto, hr⟩ := hjump _ _ h
          exact ⟨r, .jump hl hm hlong hlink (.inr rfl) hto, hr⟩

theorem exists_follow_of_child {last : Bool} {k : Nat} {l q : Location} {names : List String}
    (hn : n ≠ "") (h : fs.follow last k l (names ++ [n]) = .ok q) :
    ∃ r, fs.follow true k l names = .ok r ∧ fs.IsEnterable r := by
  induction k generalizing l names with
  | zero => cases h
  | succ k ih =>
      obtain ⟨r, hway, hr⟩ := (follow_succ_eq_ok_iff.mp h).above hn fun _ _ hjump => ih hjump
      exact ⟨r, follow_succ_eq_ok_iff.mpr hway, hr⟩

theorem child_ne {p : Path} (hname : IsEntryName n) : p.child n ≠ ⟨.here, [""]⟩ := by
  intro h
  obtain ⟨anchor, names⟩ := p
  simp only [Path.child, Path.mk.injEq] at h
  cases names with
  | nil =>
      have hn : n = "" := by simpa using h.2
      rw [hn] at hname
      exact absurd hname (by decide)
  | cons m rest => simp at h

/-- Where a name is found below a path, that path leads to a directory that may be entered,
and all other names are found in it. -/
theorem exists_directory_of_locate_child {p : Path} {last : Bool} {q : Location}
    (hname : IsEntryName n) (h : fs.locate last (p.child n) = .ok q) :
    ∃ r, fs.IsEnterable r ∧ ∀ m, IsEntryName m → isOverlong m = false →
      fs.locate false (p.child m) = .ok (r ++ [m]) := by
  rw [locate, if_neg (child_ne hname)] at h
  obtain ⟨r, hfollow, hr⟩ := exists_follow_of_child (ne_empty_of_isName hname.1) h
  refine ⟨r, hr, fun m hm hshort => ?_⟩
  rw [locate, if_neg (child_ne hm)]
  exact follow_child hr hm hshort hfollow

end

/-! ## Entries in another order -/

section

variable {fs' : FileSystem}

/-- Access asks for nodes and closed directories alone. -/
theorem enter_congr {last : Bool}
    {jump jump' : Location → List String → Except FileError Location}
    (h : ∀ q, fs.node? q = fs'.node? q) (hclosed : ∀ q, fs.isClosed q = fs'.isClosed q)
    (hjump : ∀ q ns, jump q ns = jump' q ns) (l : Location) (names : List String) :
    fs.enter last jump l names = fs'.enter last jump' l names := by
  induction names generalizing l with
  | nil => rfl
  | cons n rest ih => simp only [enter, h, hclosed, hjump, ih]

theorem follow_congr {last : Bool} (h : ∀ q, fs.node? q = fs'.node? q)
    (hclosed : ∀ q, fs.isClosed q = fs'.isClosed q) (k : Nat) (l : Location)
    (names : List String) : fs.follow last k l names = fs'.follow last k l names := by
  induction k generalizing l names with
  | zero => rfl
  | succ k ih => exact enter_congr h hclosed ih l names

theorem isClosed_congr (hworking : fs.workingDirectory = fs'.workingDirectory)
    (hrestrictions : fs.restrictions = fs'.restrictions) (q : Location) :
    fs.isClosed q = fs'.isClosed q := by
  rw [isClosed, isClosed, hworking, hrestrictions]

theorem locate_congr {last : Bool} (h : ∀ q, fs.node? q = fs'.node? q)
    (hworking : fs.workingDirectory = fs'.workingDirectory)
    (hrestrictions : fs.restrictions = fs'.restrictions) (p : Path) :
    fs.locate last p = fs'.locate last p := by
  simp only [locate, start, hworking,
    follow_congr h (isClosed_congr hworking hrestrictions)]

theorem status_congr (h : ∀ q, fs.node? q = fs'.node? q)
    (hworking : fs.workingDirectory = fs'.workingDirectory)
    (hrestrictions : fs.restrictions = fs'.restrictions) (p : Path) :
    fs.status p = fs'.status p := by
  simp only [status, nodeAt, locate_congr h hworking hrestrictions, h]

/-- Looking up a key that is listed once gives what is listed with it. -/
theorem lookup_eq_some_iff_mem {α β : Type} [BEq α] [LawfulBEq α] {entries : List (α × β)}
    (hkeys : (entries.map Prod.fst).Nodup) {k : α} {v : β} :
    entries.lookup k = some v ↔ (k, v) ∈ entries := by
  induction entries with
  | nil => simp
  | cons e entries ih =>
      obtain ⟨m, w⟩ := e
      rw [List.map_cons, List.nodup_cons] at hkeys
      by_cases hkey : k = m
      case pos =>
        subst hkey
        have hfresh : (k, v) ∉ entries := fun hmem => hkeys.1 (List.mem_map.mpr ⟨_, hmem, rfl⟩)
        simp [hfresh, eq_comm]
      case neg =>
        have hne : (k == m) = false := beq_false_of_ne hkey
        simp [List.lookup_cons, hne, hkey, ih hkeys.2]

/-- Listing the entries in another order leaves all nodes where they are. -/
theorem node?_perm (hperm : fs'.entries.Perm fs.entries)
    (hkeys : (fs.entries.map Prod.fst).Nodup) (q : Location) : fs.node? q = fs'.node? q := by
  have hkeys' : (fs'.entries.map Prod.fst).Nodup := ((hperm.map Prod.fst).nodup_iff).mpr hkeys
  have hlookup : fs.entries.lookup q = fs'.entries.lookup q := by
    refine Option.ext fun node => ?_
    rw [lookup_eq_some_iff_mem hkeys, lookup_eq_some_iff_mem hkeys', hperm.mem_iff]
  rw [node?, node?, hlookup]

end

end JavaAtlas.Storage.FileSystem

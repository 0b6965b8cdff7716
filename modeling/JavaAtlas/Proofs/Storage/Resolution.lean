import JavaAtlas.Proofs.Storage.Status
import JavaAtlas.Proofs.Storage.Ways

/-!
# Resolution of paths

Resolution puts plain paths together: names that lead to the parent, and then names of
entries.  Where it can look up every one of them, it follows all links on the way and so ends
at a settled location, unless it meets a link that it is just following.  On a path that leads
somewhere this does not happen: to follow a link takes a number of links that is
determined, and the way inside it takes less of them.  So resolution ends where access
does.

Main definitions:

- `Plain`: the paths that resolution looks up.
- `FollowsAll`: resolution follows every link on its way.
- `Arrives`: names lead somewhere over so many links, each with a way of its own.
- `Underway`: links that are being followed on a way over so many links.

Main results:

- Theorem `Formed.linkAt?_child_iff`: the link that is found at a plain path is the one that
  stands there.
- Theorem `Formed.settled_of_resolved`: where resolution ends that follows all links is
  settled.
- Theorem `Arrives.unique`: the number of links is determined, and so is the end.
- Theorem `Formed.resolve_of_locate`: a path is resolved to the location that it leads to.
-/

namespace JavaAtlas.Storage.FileSystem

variable {fs : FileSystem}

/-! ## Plain paths -/

/-- The path leads to the parent so many times, and then over names of entries. -/
inductive Plain : Path → Prop where
  | ups (k : Nat) : Plain ⟨.here, List.replicate k ".."⟩
  | root : Plain ⟨.root, []⟩
  | child {p : Path} {n : String} (h : Plain p) (hname : IsEntryName n) : Plain (p.child n)

section

variable {p : Path} {n : String}

theorem Plain.goOn (h : Plain p) (a : Anchor) : Plain (goOn p a) := by
  cases a with
  | here => exact h
  | root | doubleRoot => exact .root

theorem up_ups (k : Nat) :
    Path.up ⟨.here, List.replicate k ".."⟩ = ⟨.here, List.replicate (k + 1) ".."⟩ := by
  rw [List.replicate_succ']
  cases k with
  | zero => rfl
  | succ k => simp [Path.up, Path.child, List.getLast?_replicate]

theorem up_child (p : Path) (hname : IsEntryName n) : (p.child n).up = p := by
  simp [Path.up, Path.child, Path.parent, hname.2]

theorem Plain.up (h : Plain p) : Plain p.up := by
  cases h with
  | ups k =>
      rw [up_ups]
      exact .ups (k + 1)
  | root => exact .root
  | child h hname =>
      rw [up_child _ hname]
      exact h

/-! ## Locations of plain paths -/

theorem byNames_concat (l : Location) (names : List String) (n : String) :
    byNames l (names ++ [n]) = byNames (byNames l names) [n] := by
  induction names generalizing l with
  | nil => rfl
  | cons m names ih =>
      simp only [List.cons_append, byNames.eq_2 l m, ih]
      split <;> rfl

theorem spot_goOn (p : Path) (a : Anchor) :
    fs.spot (FileSystem.goOn p a) = startFrom (fs.spot p) a := by
  cases a with
  | here => rfl
  | root | doubleRoot => rfl

/-- Below a path, the name of an entry is the last one of the location. -/
theorem spot_child (p : Path) (hname : IsEntryName n) :
    fs.spot (p.child n) = fs.spot p ++ [n] := by
  obtain ⟨a, names⟩ := p
  cases a <;> simp [spot, Path.child, byNames_concat, byNames, hname.1, hname.2]

theorem spot_ups_succ (fs : FileSystem) (k : Nat) :
    fs.spot ⟨.here, List.replicate (k + 1) ".."⟩ =
      (fs.spot ⟨.here, List.replicate k ".."⟩).dropLast := by
  rw [List.replicate_succ']
  simp [spot, byNames_concat, byNames, Path.isName]

/-- Above a plain path stands the location without its last name. -/
theorem spot_up (h : Plain p) : fs.spot p.up = (fs.spot p).dropLast := by
  cases h with
  | ups k => rw [up_ups, spot_ups_succ]
  | root => rfl
  | child h hname => rw [up_child _ hname, spot_child _ hname, List.dropLast_concat]

/-! ## Access to plain paths -/

section

variable {last : Bool} {jump : Location → List String → Except FileError Location}
  {l : Location} {rest : List String}

theorem enter_up_or_denied (hd : fs.node? l = some .directory) :
    fs.enter last jump l (".." :: rest) = fs.enter last jump l.dropLast rest ∨
      fs.enter last jump l (".." :: rest) = .error .permissionDenied := by
  cases hclosed : fs.isClosed l with
  | true => exact .inr (enter_closed hd hclosed (by decide))
  | false => exact .inl (enter_up ⟨hd, hclosed⟩)

theorem enter_down_or_denied (hd : fs.node? l = some .directory) (hname : IsEntryName n)
    (hshort : isOverlong n = false) (hlink : ¬ fs.IsLink (l ++ [n])) :
    fs.enter last jump l (n :: rest) = fs.enter last jump (l ++ [n]) rest ∨
      fs.enter last jump l (n :: rest) = .error .permissionDenied := by
  cases hclosed : fs.isClosed l with
  | true => exact .inr (enter_closed hd hclosed (ne_empty_of_isName hname.1))
  | false => exact .inl (enter_down ⟨hd, hclosed⟩ hname hshort hlink)

end

/-- Above the working directory all are directories. -/
theorem Formed.node?_spot_ups (hs : fs.Formed) (k : Nat) :
    fs.node? (fs.spot ⟨.here, List.replicate k ".."⟩) = some .directory := by
  induction k with
  | zero => exact hs.working
  | succ k ih =>
      rw [spot_ups_succ]
      exact hs.directory_dropLast ih

/-- Access over the names of a plain path to a directory goes on from that directory, unless
a directory on the way is closed; by induction on the path. -/
theorem Formed.enter_plain (hs : fs.Formed) {last : Bool}
    {jump : Location → List String → Except FileError Location} (h : Plain p)
    (hd : fs.node? (fs.spot p) = some .directory) (more : List String) :
    fs.enter last jump (fs.start p.anchor) (p.names ++ more) =
        fs.enter last jump (fs.spot p) more ∨
      fs.enter last jump (fs.start p.anchor) (p.names ++ more) = .error .permissionDenied := by
  induction h generalizing more with
  | root => exact .inl rfl
  | ups k =>
      clear hd
      induction k generalizing more with
      | zero => exact .inl rfl
      | succ k ih =>
          rw [spot_ups_succ, List.replicate_succ', List.append_assoc]
          rcases ih ([".."] ++ more) with hfirst | hdenied
          · rw [hfirst]
            exact enter_up_or_denied (hs.node?_spot_ups k)
          · exact .inr hdenied
  | @child p n h hname ih =>
      rw [spot_child p hname] at hd ⊢
      have hsome : fs.node? (fs.spot p ++ [n]) ≠ none := by simp [hd]
      have habove := hs.parent _ _ hsome
      rw [Path.child, List.append_assoc]
      rcases ih habove ([n] ++ more) with hfirst | hdenied
      · rw [hfirst]
        exact enter_down_or_denied habove hname (hs.short _ _ hsome) (not_isLink_of_directory hd)
      · exact .inr hdenied

/-- Access to a name in the directory of a plain path arrives there, or is denied. -/
theorem Formed.locate_child (hs : fs.Formed) (h : Plain p)
    (hd : fs.node? (fs.spot p) = some .directory) (hname : IsEntryName n)
    (hshort : isOverlong n = false) :
    fs.locate false (p.child n) = .ok (fs.spot p ++ [n]) ∨
      fs.locate false (p.child n) = .error .permissionDenied := by
  rw [locate, if_neg (child_ne hname)]
  change fs.enter false (fs.follow false linkLimit) (fs.start p.anchor) (p.names ++ [n]) = _ ∨
    fs.enter false (fs.follow false linkLimit) (fs.start p.anchor) (p.names ++ [n]) = _
  rcases hs.enter_plain h hd [n] with hfirst | hdenied
  · rw [hfirst]
    cases hclosed : fs.isClosed (fs.spot p) with
    | false => exact .inl (enter_child ⟨hd, hclosed⟩ hname hshort)
    | true =>
        rw [enter, hd]
        exact .inr (by simp [hclosed, ne_empty_of_isName hname.1])
  · exact .inr hdenied

/-- The link that is found at a plain path below a directory is the one that stands there. -/
theorem Formed.linkAt?_child_iff (hs : fs.Formed) (h : Plain p)
    (hd : fs.node? (fs.spot p) = some .directory) (hname : IsEntryName n)
    (hshort : isOverlong n = false) {found : Option String}
    (hfound : fs.linkAt? (p.child n) = .ok found) (target : String) :
    found = some target ↔ fs.node? (fs.spot p ++ [n]) = some (.link target) := by
  unfold linkAt? reach at hfound
  split at hfound
  case h_1 e hreach =>
    split at hreach
    case isTrue =>
      cases hreach
      cases hfound
    case isFalse =>
      rcases hs.locate_child h hd hname hshort with hplace | hdenied
      · cases hplace.symm.trans hreach
      · cases hdenied.symm.trans hreach
        cases hfound
  case h_2 l hreach =>
    split at hreach
    case isTrue => cases hreach
    case isFalse =>
      rcases hs.locate_child h hd hname hshort with hplace | hdenied
      · cases hplace.symm.trans hreach
        split at hfound
        case h_1 t hnode =>
          cases hfound
          simp [hnode]
        case h_2 hnode =>
          cases hfound
          simpa using hnode target
      · cases hdenied.symm.trans hreach

end

/-! ## Where resolution ends -/

/-- The way of a resolution that follows all links and ends at the path. -/
abbrev clearWay (q : Path) : Resolved :=
  { ending := .place q }

/-- Resolution of the path follows every link on its way: it can look all of them up, and
meets no loop. -/
def FollowsAll (fs : FileSystem) (p : Path) : Prop :=
  ∃ q, fs.resolved p = clearWay q

theorem blindly_ne (r : Resolved) (q : Path) : r.blindly ≠ clearWay q := by
  intro h
  cases congrArg Resolved.blind h

/-- A way goes on that follows all links only from one that does so, too. -/
theorem exists_of_andThen_eq {r : Resolved} {rest : List String} {next : Path → Resolved}
    {q : Path} (h : r.andThen rest next = clearWay q) :
    ∃ m, r = clearWay m ∧ next m = clearWay q := by
  unfold Resolved.andThen at h
  split at h
  case h_1 m hending =>
    split at h
    case isTrue => exact absurd h (blindly_ne _ _)
    case isFalse hblind => exact ⟨m, Resolved.ext hending (by simpa using hblind), h⟩
  case h_2 => cases congrArg Resolved.ending h
  case h_3 hending => cases hending.symm.trans (congrArg Resolved.ending h)

/-- A way on which all could be looked up goes on from one of that kind. -/
theorem blind_of_andThen {r : Resolved} {rest : List String} {next : Path → Resolved}
    (h : (r.andThen rest next).blind = false) : r.blind = false := by
  unfold Resolved.andThen at h
  split at h
  case h_1 =>
    split at h
    case isTrue => cases h
    case isFalse hblind => simpa using hblind
  case h_2 => exact h
  case h_3 => exact h

/-- The path is plain and leads to a settled location. -/
structure PlainlySettled (fs : FileSystem) (p : Path) : Prop where
  plain : Plain p
  settled : fs.Settled (fs.spot p)

theorem PlainlySettled.goOn {p : Path} (h : fs.PlainlySettled p) (a : Anchor) :
    fs.PlainlySettled (goOn p a) := by
  refine ⟨h.plain.goOn a, ?_⟩
  rw [spot_goOn]
  cases a with
  | here => exact h.settled
  | root | doubleRoot => exact settled_nil

theorem PlainlySettled.up {p : Path} (h : fs.PlainlySettled p) : fs.PlainlySettled p.up := by
  refine ⟨h.plain.up, ?_⟩
  rw [spot_up h.plain]
  exact h.settled.of_prefix (List.dropLast_prefix _)

/-- Below a plain path, a name at which no link is found stays settled. -/
theorem Formed.plainlySettled_child (hs : fs.Formed) {p : Path} {n : String}
    (h : fs.PlainlySettled p) (hname : IsEntryName n) (hfound : fs.linkAt? (p.child n) = .ok none) :
    fs.PlainlySettled (p.child n) := by
  refine ⟨h.plain.child hname, ?_⟩
  rw [spot_child p hname]
  refine h.settled.snoc hname ?_
  rintro ⟨target, hlink⟩
  have hsome : fs.node? (fs.spot p ++ [n]) ≠ none := by simp [hlink]
  have hd := hs.parent _ _ hsome
  cases (hs.linkAt?_child_iff h.plain hd hname (hs.short _ _ hsome) hfound target).mpr hlink

/-- Resolving names behind a plain path to a settled location ends at such a path, where all
links are followed, if it does so for the targets of links. -/
theorem Formed.plainlySettled_of_resolveNames (hs : fs.Formed)
    {inside : Path → Path → List String → Resolved}
    (hinside : ∀ link begin target q, inside link begin target = clearWay q →
      fs.PlainlySettled begin → fs.PlainlySettled q)
    {p q : Path} {names : List String} (hp : fs.PlainlySettled p)
    (h : fs.resolveNames inside p names = clearWay q) : fs.PlainlySettled q := by
  induction names generalizing p with
  | nil =>
      cases h
      exact hp
  | cons n rest ih =>
      unfold resolveNames at h
      split at h
      case isFalse => exact ih hp h
      case isTrue hname =>
        split at h
        case isTrue => exact ih hp.up h
        case isFalse hup =>
          split at h
          case h_1 => exact absurd h (blindly_ne _ _)
          case h_2 hfound => exact ih (hs.plainlySettled_child hp ⟨hname, hup⟩ hfound) h
          case h_3 target hfound =>
            obtain ⟨m, hway, hrest⟩ := exists_of_andThen_eq h
            exact ih (hinside _ _ _ _ hway (hp.goOn _)) hrest

theorem Formed.plainlySettled_of_resolveAmid (hs : fs.Formed) {n : Nat} {active : List Path}
    {p q : Path} {names : List String} (hp : fs.PlainlySettled p)
    (h : fs.resolveAmid n active p names = clearWay q) : fs.PlainlySettled q := by
  induction n generalizing active p q names with
  | zero => cases h
  | succ n ih =>
      refine hs.plainlySettled_of_resolveNames (fun link begin target q₁ hinside hbegin => ?_) hp h
      split at hinside
      case isTrue => cases congrArg Resolved.ending hinside
      case isFalse => exact ih hbegin hinside

theorem Formed.plainlySettled_here (hs : fs.Formed) : fs.PlainlySettled ⟨.here, []⟩ :=
  ⟨.ups 0, hs.settled hs.working⟩

/-- Where resolution ends that follows all links is settled. -/
theorem Formed.settled_of_resolved (hs : fs.Formed) {p q : Path}
    (h : fs.resolved p = clearWay q) : fs.Settled (fs.spot q) :=
  (hs.plainlySettled_of_resolveAmid (hs.plainlySettled_here.goOn p.anchor) h).settled

/-! ## Resolved locations -/

/-- Entering a settled location follows no link. -/
theorem ne_tooManyLinks_of_enter {last : Bool}
    {jump : Location → List String → Except FileError Location} {l : Location}
    {names : List String} (hl : fs.Settled (l ++ names)) :
    fs.enter last jump l names ≠ .error .tooManyLinks := by
  induction names generalizing l with
  | nil => simp [enter]
  | cons n rest ih =>
      have hassoc : l ++ n :: rest = l ++ [n] ++ rest := by simp
      obtain ⟨⟨hname, hup⟩, hlink⟩ := hl l n ⟨rest, hassoc.symm⟩
      unfold enter
      split
      case h_1 => simp
      case h_3 => simp
      case h_2 =>
        simp only [hname, if_true, if_neg hup]
        split
        case isTrue => simp
        case isFalse =>
          split
          case isTrue => simp
          case isFalse =>
            split
            case h_1 target hnode => exact absurd ⟨target, hnode⟩ hlink
            case h_2 => exact ih (hassoc ▸ hl)

theorem Settled.status_ne {l : Location} (hl : fs.Settled l) :
    fs.status (pathOf l) ≠ .error .tooManyLinks := by
  intro h
  unfold status at h
  split at h
  case isTrue => cases h
  case isFalse =>
    rcases locate_of_nodeAt_error h with hlocate | habsent
    · rw [locate, if_neg (pathOf_ne l)] at hlocate
      exact ne_tooManyLinks_of_enter (l := []) hl hlocate
    · cases habsent

/-- A path is resolved to the location where resolution ends that follows all links. -/
theorem Formed.resolve_of_resolved (hs : fs.Formed) {p q : Path}
    (h : fs.resolved p = clearWay q) : fs.resolve p = .ok (fs.spot q) := by
  have hstatus := (hs.settled_of_resolved h).status_ne
  rw [resolve, h]
  dsimp only
  split
  case h_1 hloop => exact absurd hloop hstatus
  case h_2 => rfl

/-- Where all links are followed, what a path is resolved to is settled. -/
theorem Formed.settled_of_resolve (hs : fs.Formed) {p : Path} {l : Location}
    (hall : fs.FollowsAll p) (h : fs.resolve p = .ok l) : fs.Settled l := by
  obtain ⟨q, hq⟩ := hall
  obtain rfl := Except.ok.inj ((hs.resolve_of_resolved hq).symm.trans h)
  exact hs.settled_of_resolved hq

/-! ## Arriving -/

/-- Names lead from a location to another one over so many links.  The target of a link has
a way of its own. -/
inductive Arrives (fs : FileSystem) : Nat → Location → List String → Location → Prop where
  | done {l : Location} : Arrives fs 0 l [] l
  /-- A name that says nothing. -/
  | stay {k : Nat} {l q : Location} {n : String} {rest : List String}
      (hname : Path.isName n = false) (h : Arrives fs k l rest q) : Arrives fs k l (n :: rest) q
  | up {k : Nat} {l q : Location} {rest : List String} (h : Arrives fs k l.dropLast rest q) :
      Arrives fs k l (".." :: rest) q
  | down {k : Nat} {l q : Location} {n : String} {rest : List String}
      (hl : fs.node? l = some .directory) (hname : IsEntryName n) (hshort : isOverlong n = false)
      (hlink : ¬ fs.IsLink (l ++ [n])) (h : Arrives fs k (l ++ [n]) rest q) :
      Arrives fs k l (n :: rest) q
  | jump {i j : Nat} {l m q : Location} {n target : String} {rest : List String}
      (hl : fs.node? l = some .directory) (hname : IsEntryName n) (hshort : isOverlong n = false)
      (hlink : fs.node? (l ++ [n]) = some (.link target))
      (hinside : Arrives fs i (startFrom l (Path.asWritten target).anchor)
        (Path.asWritten target).names m)
      (h : Arrives fs j m rest q) : Arrives fs (i + j + 1) l (n :: rest) q

/-- The way of names in a row passes the end of the first ones. -/
theorem Arrives.split {k : Nat} {l q : Location} {names rest : List String}
    (h : Arrives fs k l (names ++ rest) q) :
    ∃ i j m, i + j = k ∧ Arrives fs i l names m ∧ Arrives fs j m rest q := by
  induction names generalizing k l with
  | nil => exact ⟨0, k, l, Nat.zero_add k, .done, h⟩
  | cons n names ih =>
      rw [List.cons_append] at h
      cases h with
      | stay hname h =>
          obtain ⟨i, j, m, hk, hfirst, hrest⟩ := ih h
          exact ⟨i, j, m, hk, .stay hname hfirst, hrest⟩
      | up h =>
          obtain ⟨i, j, m, hk, hfirst, hrest⟩ := ih h
          exact ⟨i, j, m, hk, .up hfirst, hrest⟩
      | down hl hname hshort hlink h =>
          obtain ⟨i, j, m, hk, hfirst, hrest⟩ := ih h
          exact ⟨i, j, m, hk, .down hl hname hshort hlink hfirst, hrest⟩
      | @jump i₀ k₀ l m₀ q n target _ hl hname hshort hlink hinside h =>
          obtain ⟨i, j, m, hk, hfirst, hrest⟩ := ih h
          exact ⟨i₀ + i + 1, j, m, by omega, .jump hl hname hshort hlink hinside hfirst, hrest⟩

theorem exists_arrives_of_way {bound : Nat} {jump : Location → List String → Location → Prop}
    (hjump : ∀ l names q, jump l names q → ∃ k < bound, Arrives fs k l names q)
    {l q : Location} {names : List String} (h : Way fs true jump l names q) :
    ∃ k < bound + 1, Arrives fs k l names q := by
  induction h with
  | done => exact ⟨0, Nat.succ_pos bound, .done⟩
  | stay _ _ hname _ ih =>
      obtain ⟨k, hk, h⟩ := ih
      exact ⟨k, hk, .stay hname h⟩
  | up _ _ ih =>
      obtain ⟨k, hk, h⟩ := ih
      exact ⟨k, hk, .up h⟩
  | down hl hname hshort hlink _ ih =>
      obtain ⟨k, hk, h⟩ := ih
      exact ⟨k, hk, .down hl.directory hname hshort hlink h⟩
  | stop _ _ _ _ hlast => cases hlast
  | jump hl hname hshort hlink _ h =>
      obtain ⟨k, hk, h⟩ := hjump _ _ _ h
      obtain ⟨i, j, m, hsum, hinside, hrest⟩ := h.split
      exact ⟨i + j + 1, by omega, .jump hl.directory hname hshort hlink hinside hrest⟩

/-- Access that succeeds arrives, over less links than it may follow. -/
theorem exists_arrives_of_follow {n : Nat} {l q : Location} {names : List String}
    (h : fs.follow true n l names = .ok q) : ∃ k < n, Arrives fs k l names q := by
  induction n generalizing l names q with
  | zero => cases h
  | succ n ih => exact exists_arrives_of_way (fun _ _ _ => ih) (follow_succ_eq_ok_iff.mp h)

theorem not_isName_of_eq {n : String} (h : Path.isName n = false) : ¬ IsEntryName n :=
  fun hname => Bool.false_ne_true (h.symm.trans hname.1)

/-- Names lead to one location, over one number of links. -/
theorem Arrives.unique {i j : Nat} {l q r : Location} {names : List String}
    (h : Arrives fs i l names q) (h' : Arrives fs j l names r) : i = j ∧ q = r := by
  induction h generalizing j r with
  | done =>
      cases h'
      exact ⟨rfl, rfl⟩
  | stay hname _ ih =>
      cases h' with
      | stay _ h' => exact ih h'
      | up => cases hname
      | down _ hname' => exact absurd hname' (not_isName_of_eq hname)
      | jump _ hname' => exact absurd hname' (not_isName_of_eq hname)
  | up _ ih =>
      cases h' with
      | stay hname' => cases hname'
      | up h' => exact ih h'
      | down _ hname' => exact absurd rfl hname'.2
      | jump _ hname' => exact absurd rfl hname'.2
  | down _ hname _ hlink _ ih =>
      cases h' with
      | stay hname' => exact absurd hname (not_isName_of_eq hname')
      | up => exact absurd rfl hname.2
      | down _ _ _ _ h' => exact ih h'
      | jump _ _ _ hlink' => exact absurd ⟨_, hlink'⟩ hlink
  | jump _ hname _ hlink _ _ ihinside ih =>
      cases h' with
      | stay hname' => exact absurd hname (not_isName_of_eq hname')
      | up => exact absurd rfl hname.2
      | down _ _ _ hlink' => exact absurd ⟨_, hlink⟩ hlink'
      | jump _ _ _ hlink' hinside' h' =>
          cases hlink.symm.trans hlink'
          obtain ⟨rfl, rfl⟩ := ihinside hinside'
          obtain ⟨rfl, rfl⟩ := ih h'
          exact ⟨rfl, rfl⟩

/-! ## Links that are being followed -/

/-- The way of the link's target takes at least so many links. -/
def TakesLinks (fs : FileSystem) (k : Nat) (link : Location) : Prop :=
  ∀ d n target i m, link = d ++ [n] → fs.node? link = some (.link target) →
    Arrives fs i (startFrom d (Path.asWritten target).anchor) (Path.asWritten target).names m →
    k ≤ i

/-- The links at these paths are being followed, each inside the ones behind it, on a way over
so many links. -/
def Underway (fs : FileSystem) (active : List Path) (k : Nat) : Prop :=
  ∀ link ∈ active, TakesLinks fs k (fs.spot link)

theorem Underway.mono {active : List Path} {i k : Nat} (h : Underway fs active k)
    (hik : i ≤ k) : Underway fs active i :=
  fun link hlink d n target i' m hl hn hway =>
    Nat.le_trans hik (h link hlink d n target i' m hl hn hway)

section

variable {active : List Path} {i j : Nat} {p : Path} {m : Location} {n target : String}

/-- A link that is being followed is not met on the way inside it. -/
theorem Underway.not_mem (h : Underway fs active (i + j + 1)) (hname : IsEntryName n)
    (hlink : fs.node? (fs.spot p ++ [n]) = some (.link target))
    (hinside : Arrives fs i (startFrom (fs.spot p) (Path.asWritten target).anchor)
      (Path.asWritten target).names m) : p.child n ∉ active := by
  intro hmem
  have hspot : fs.spot (p.child n) = fs.spot p ++ [n] := spot_child p hname
  have hle := h _ hmem (fs.spot p) n target i m hspot (hspot ▸ hlink) hinside
  omega

/-- Inside a link, that link is being followed, too. -/
theorem Underway.cons (h : Underway fs active (i + j + 1)) (hname : IsEntryName n)
    (hlink : fs.node? (fs.spot p ++ [n]) = some (.link target))
    (hinside : Arrives fs i (startFrom (fs.spot p) (Path.asWritten target).anchor)
      (Path.asWritten target).names m) : Underway fs (p.child n :: active) i := by
  refine List.forall_mem_cons.mpr ⟨?_, h.mono (by omega)⟩
  intro d n' target' i' m' heq hlink' hinside'
  rw [spot_child p hname] at heq hlink'
  obtain ⟨rfl, rfl⟩ := List.append_singleton_inj.mp heq
  cases hlink.symm.trans hlink'
  exact Nat.le_of_eq (hinside.unique hinside').1

end

/-! ## Resolution of paths that lead somewhere -/

/-- The way ends at a plain path to the location. -/
def EndsAt (fs : FileSystem) (r : Resolved) (q : Location) : Prop :=
  ∃ p, r = clearWay p ∧ Plain p ∧ fs.spot p = q

/-- Names that lead somewhere are resolved to where they lead, unless one of them could not
be looked up; by induction on the way.  The bound on links inside each other is not met,
because there are no more of them than links on the way. -/
theorem Arrives.resolveAmid_endsAt (hs : fs.Formed) {k n : Nat} {active : List Path}
    {l q : Location} {p : Path} {names : List String} (h : Arrives fs k l names q)
    (hp : Plain p) (hl : fs.spot p = l) (hactive : Underway fs active k) (hn : k < n)
    (hseen : (fs.resolveAmid n active p names).blind = false) :
    EndsAt fs (fs.resolveAmid n active p names) q := by
  induction h generalizing n active p with
  | done =>
      obtain ⟨n, rfl⟩ := Nat.exists_eq_add_one_of_ne_zero (Nat.ne_zero_of_lt hn)
      exact ⟨p, rfl, hp, hl⟩
  | stay hname _ ih =>
      obtain ⟨n, rfl⟩ := Nat.exists_eq_add_one_of_ne_zero (Nat.ne_zero_of_lt hn)
      have hrest := ih hp hl hactive hn
      rw [resolveAmid] at hrest hseen ⊢
      rw [resolveNames, if_neg (by simp [hname])] at hseen ⊢
      exact hrest hseen
  | up _ ih =>
      obtain ⟨n, rfl⟩ := Nat.exists_eq_add_one_of_ne_zero (Nat.ne_zero_of_lt hn)
      have hrest := ih hp.up (by rw [spot_up hp, hl]) hactive hn
      rw [resolveAmid] at hrest hseen ⊢
      rw [resolveNames, if_pos (by decide), if_pos rfl] at hseen ⊢
      exact hrest hseen
  | @down k l q n' rest hd hname hshort hlink _ ih =>
      obtain ⟨n, rfl⟩ := Nat.exists_eq_add_one_of_ne_zero (Nat.ne_zero_of_lt hn)
      have hrest := ih (hp.child hname) (by rw [spot_child p hname, hl]) hactive hn
      rw [resolveAmid] at hrest hseen ⊢
      rw [resolveNames, if_pos hname.1, if_neg hname.2] at hseen ⊢
      subst hl
      split at hseen
      case h_1 => cases hseen
      case h_2 hfound => exact hrest hseen
      case h_3 target hfound =>
        have hnode := (hs.linkAt?_child_iff hp hd hname hshort hfound target).mp rfl
        exact absurd ⟨target, hnode⟩ hlink
  | @jump i j l m q n' target rest hd hname hshort hlink hinside _ ihinside ih =>
      obtain ⟨n, rfl⟩ := Nat.exists_eq_add_one_of_ne_zero (Nat.ne_zero_of_lt hn)
      subst hl
      have hnew : active.contains (p.child n') = false := by
        simpa using hactive.not_mem hname hlink hinside
      rw [resolveAmid] at hseen ⊢
      rw [resolveNames, if_pos hname.1, if_neg hname.2] at hseen ⊢
      split at hseen
      case h_1 => cases hseen
      case h_2 hfound =>
        cases (hs.linkAt?_child_iff hp hd hname hshort hfound target).mpr hlink
      case h_3 target' hfound =>
        have hnode := (hs.linkAt?_child_iff hp hd hname hshort hfound target').mp rfl
        cases hlink.symm.trans hnode
        simp only [hnew, Bool.false_eq_true, if_false] at hseen ⊢
        have htarget := ihinside (hp.goOn _) (spot_goOn p _) (hactive.cons hname hlink hinside)
          (by omega) (blind_of_andThen hseen)
        obtain ⟨r, hway, hr, hspot⟩ := htarget
        rw [hway] at hseen ⊢
        have hrest := ih hr hspot (hactive.mono (by omega)) (n := n + 1) (by omega)
        rw [resolveAmid] at hrest
        exact hrest hseen


/-- A path is resolved to the location that it leads to, if every name on the way could be
looked up. -/
theorem Formed.resolved_of_locate (hs : fs.Formed) {p : Path} {q : Location}
    (h : fs.locate true p = .ok q) (hseen : (fs.resolved p).blind = false) :
    EndsAt fs (fs.resolved p) q := by
  unfold locate at h
  split at h
  case isTrue => cases h
  case isFalse =>
    obtain ⟨k, hk, harrives⟩ := exists_arrives_of_follow h
    have hlimit : linkLimit + 1 ≤ nestingLimit := by decide
    exact harrives.resolveAmid_endsAt hs ((Plain.ups 0).goOn p.anchor) (spot_goOn _ _)
      (List.forall_mem_nil _) (by omega) hseen

theorem Formed.resolve_of_locate (hs : fs.Formed) {p : Path} {q : Location}
    (h : fs.locate true p = .ok q) (hseen : (fs.resolved p).blind = false) :
    fs.resolve p = .ok q := by
  obtain ⟨r, hresolved, -, rfl⟩ := hs.resolved_of_locate h hseen
  exact hs.resolve_of_resolved hresolved

/-- A single name at which no link is found is resolved to the place of that name. -/
theorem ending_resolved_singleton {n : String} (hname : IsEntryName n)
    (hlink : ∀ target, fs.linkAt? ⟨.here, [n]⟩ ≠ .ok (some target)) :
    (fs.resolved ⟨.here, [n]⟩).ending = .place ⟨.here, [n]⟩ := by
  rw [resolved, nestingLimit, resolveAmid, resolveNames, if_pos hname.1, if_neg hname.2]
  split
  case h_1 => rfl
  case h_2 => rfl
  case h_3 target hfound => exact absurd hfound (hlink target)

/-- A name that is too long is resolved all the same. -/
theorem Sound.resolve_of_isOverlong (hs : fs.Sound) {n : String} (h : isOverlong n = true) :
    fs.resolve ⟨.here, [n]⟩ = .ok (fs.workingDirectory ++ [n]) := by
  have hname := isEntryName_of_isOverlong h
  have hlink : fs.linkAt? ⟨.here, [n]⟩ = .error .nameTooLong := by
    rw [linkAt?, reach, hs.locate_of_isOverlong h, ite_self]
    rfl
  have hending := ending_resolved_singleton hname fun target hfound => by
    cases hlink.symm.trans hfound
  have hspot : fs.spot ⟨.here, [n]⟩ = fs.workingDirectory ++ [n] := spot_child ⟨.here, []⟩ hname
  have hstatus : fs.status (pathOf (fs.workingDirectory ++ [n])) = .error .nameTooLong :=
    hs.status_pathOf_of_isOverlong hs.working h
  simp only [resolve, hending, hspot, hstatus]

end JavaAtlas.Storage.FileSystem

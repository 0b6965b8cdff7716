import JavaAtlas.Diagram.Request
import JavaAtlas.Proofs.Storage.Resolution
import JavaAtlas.Proofs.Storage.Status

/-!
# Which directories are accepted

A request is resolved to a location before anything is checked: the location must lie at
the allowed base or below it, name by name, and a directory must be there.  So it does not
matter how a directory is spelled, and no spelling leads out of the base.

Two things go wrong.  Where something is too long to be looked up, or a directory is closed,
the request is not refused but fails.  And resolution may leave links in a location, which may
lead out: it does so behind a loop of links, and where a path gets too long on the way.

Main definitions:

- `Placed`: the locations of a request and of the allowed base.
- `LeadsTo`: where a request leads when its links are followed one by one.

Main results:

- Theorem `validate_eq_ok_iff`: the conditions of acceptance.
- Theorem `Placed.validate_eq_error_iff`: what is said of a request that is not accepted.
- Theorem `LeadsTo.resolving_eq`: a request is resolved to where it leads.
- Theorem `validate_exact`: the law of acceptance.
- Theorem `longName_not_refused`, theorem `loop_leads_out`: where it goes wrong.
-/

namespace JavaAtlas.Diagram

open Config Source Storage FileSystem

variable {fs : FileSystem} {s : DiagramSettings} {directory : String} {base : Option Location}
  {l q : Location}

/-! ## Places -/

theorem resolving_eq_ok_iff {p : Path} :
    resolving fs p = .ok l ↔ p.names.any holdsNull = false ∧ fs.resolve p = .ok l := by
  unfold resolving
  cases p.names.any holdsNull with
  | true => simp
  | false => cases fs.resolve p <;> simp [Except.mapError]

/-! ## Conditions -/

/-- A request and the allowed base are resolved to these locations. -/
structure Placed (fs : FileSystem) (s : DiagramSettings) (directory : String)
    (base : Option Location) (l : Location) : Prop where
  place : resolving fs (Path.ofText directory) = .ok l
  base : allowedBase? fs s = .ok base

/-- A request that is not blank and whose locations are known is checked against the base
first. -/
theorem Placed.validate_eq (h : Placed fs s directory base l)
    (hblank : Text.isBlankText directory = false) :
    validate fs s directory =
      match base with
      | none => accept fs directory l
      | some b =>
        if b.isPrefixOf l then accept fs directory l else .error (.input (.outside b)) := by
  simp only [validate, hblank, h.place, h.base, bind, Except.bind]
  cases base with
  | none => rfl
  | some b =>
      by_cases hb : b.isPrefixOf l = true
      case pos => simp [isWithin, hb]
      case neg => simp [isWithin, hb, throw, throwThe, MonadExceptOf.throw]

/-- A blank request is refused, whatever else holds. -/
theorem validate_of_blank (hblank : Text.isBlankText directory = true) :
    validate fs s directory = .error (.input .blank) := by
  simp only [validate, hblank, if_true, bind, Except.bind, throw, throwThe, MonadExceptOf.throw]

/-- What is accepted is not blank and has a place. -/
theorem placed_of_validate (h : validate fs s directory = .ok q) :
    Text.isBlankText directory = false ∧ ∃ base l, Placed fs s directory base l := by
  cases hblank : Text.isBlankText directory with
  | true => cases (validate_of_blank hblank).symm.trans h
  | false =>
      simp only [validate, hblank, bind, Except.bind] at h
      cases hplace : resolving fs (Path.ofText directory) with
      | error e => simp [hplace] at h
      | ok l =>
          cases hbase : allowedBase? fs s with
          | error e => simp [hplace, hbase] at h
          | ok base => exact ⟨rfl, base, l, hplace, hbase⟩

theorem accept_eq_ok_iff :
    accept fs directory l = .ok q ↔ l = q ∧ fs.askDirectory (pathOf l) = .ok true := by
  unfold accept
  cases fs.askDirectory (pathOf l) with
  | error fault => simp
  | ok isDirectory => cases isDirectory <;> simp

/-- A request is accepted exactly if it is not blank, its place lies at the base or below
it, and a directory is there that can be looked up. -/
theorem validate_eq_ok_iff :
    validate fs s directory = .ok l ↔
      Text.isBlankText directory = false ∧ fs.isDirectory (pathOf l) = true ∧
        ∃ base, Placed fs s directory base l ∧ ∀ b ∈ base, b <+: l := by
  rw [← askDirectory_eq_ok_true_iff]
  constructor
  · intro h
    obtain ⟨hblank, base, l', hplaced⟩ := placed_of_validate h
    rw [hplaced.validate_eq hblank] at h
    cases base with
    | none =>
        obtain ⟨rfl, hask⟩ := accept_eq_ok_iff.mp h
        exact ⟨hblank, hask, none, hplaced, by simp⟩
    | some b =>
        dsimp only at h
        split at h
        case isFalse => cases h
        case isTrue hb =>
          obtain ⟨rfl, hask⟩ := accept_eq_ok_iff.mp h
          exact ⟨hblank, hask, some b, hplaced, by simpa using hb⟩
  · rintro ⟨hblank, hask, base, hplaced, hwithin⟩
    rw [hplaced.validate_eq hblank]
    cases base with
    | none => exact accept_eq_ok_iff.mpr ⟨rfl, hask⟩
    | some b =>
        have hb : b.isPrefixOf l = true := by simpa using hwithin
        simp only [hb, if_true]
        exact accept_eq_ok_iff.mpr ⟨rfl, hask⟩

/-- What is accepted is a directory that exists. -/
theorem isDirectory_of_validate (h : validate fs s directory = .ok l) :
    fs.isDirectory (pathOf l) = true :=
  (validate_eq_ok_iff.mp h).2.1

/-! ## Refusals -/

theorem accept_eq_error_iff {e : RequestError} :
    accept fs directory l = .error e ↔
      (fs.askDirectory (pathOf l) = .ok false ∧ e = .input (.unusable directory)) ∨
        ∃ cause, fs.status (pathOf l) = .error cause ∧ cause.isAbsence = false ∧
          e = .status ⟨cause, (pathOf l).text⟩ := by
  have hfault : (∃ cause, fs.status (pathOf l) = .error cause ∧ cause.isAbsence = false ∧
      e = .status ⟨cause, (pathOf l).text⟩) ↔
      ∃ fault, fs.askDirectory (pathOf l) = .error fault ∧ e = .status fault := by
    constructor
    · rintro ⟨cause, hstatus, hopen, rfl⟩
      exact ⟨_, ask_eq_error_iff.mpr ⟨cause, hstatus, hopen, rfl⟩, rfl⟩
    · rintro ⟨fault, hask, rfl⟩
      obtain ⟨cause, hstatus, hopen, rfl⟩ := ask_eq_error_iff.mp hask
      exact ⟨cause, hstatus, hopen, rfl⟩
  rw [hfault, accept]
  cases fs.askDirectory (pathOf l) with
  | error fault => simp [eq_comm]
  | ok isDirectory => cases isDirectory <;> simp [eq_comm]

/-- A request whose locations are known is not accepted because it is blank, because its
place lies outside, because no directory is there, or because that cannot be told. -/
theorem Placed.validate_eq_error_iff (h : Placed fs s directory base l) {e : RequestError} :
    validate fs s directory = .error e ↔
      (Text.isBlankText directory = true ∧ e = .input .blank) ∨
        Text.isBlankText directory = false ∧
          ((∃ b ∈ base, ¬ b <+: l ∧ e = .input (.outside b)) ∨
            (∀ b ∈ base, b <+: l) ∧
              ((fs.askDirectory (pathOf l) = .ok false ∧ e = .input (.unusable directory)) ∨
                ∃ cause, fs.status (pathOf l) = .error cause ∧ cause.isAbsence = false ∧
                  e = .status ⟨cause, (pathOf l).text⟩)) := by
  cases hblank : Text.isBlankText directory with
  | true => simp [validate_of_blank hblank, @eq_comm _ e]
  | false =>
      rw [h.validate_eq hblank, ← accept_eq_error_iff]
      cases base with
      | none => simp
      | some b =>
          by_cases hb : b <+: l
          case pos => simp [hb]
          case neg => simpa [hb] using eq_comm

/-! ## Spellings -/

/-- The request leads to a place, if its links are followed one by one. -/
structure LeadsTo (fs : FileSystem) (directory : String) (q : Location) : Prop where
  /-- No name holds a character that names cannot hold. -/
  nameable : ∀ n ∈ (Path.ofText directory).names, holdsNull n = false
  arrives : fs.locate true (Path.ofText directory) = .ok q
  /-- Resolution could look up all names: no path got too long on its way. -/
  seen : (fs.resolved (Path.ofText directory)).blind = false

/-- A request is resolved to the place that it leads to. -/
theorem LeadsTo.resolving_eq (hs : fs.Formed) (h : LeadsTo fs directory q) :
    resolving fs (Path.ofText directory) = .ok q := by
  have hnull : (Path.ofText directory).names.any holdsNull = false := by
    simpa using h.nameable
  exact resolving_eq_ok_iff.mpr ⟨hnull, hs.resolve_of_locate h.arrives h.seen⟩

/-- Another spelling of an accepted directory is accepted, too. -/
theorem validate_of_resolving_eq {other : String} (h : validate fs s directory = .ok l)
    (hblank : Text.isBlankText other = false)
    (hother : resolving fs (Path.ofText other) = .ok l) : validate fs s other = .ok l := by
  obtain ⟨-, hdirectory, base, hplaced, hwithin⟩ := validate_eq_ok_iff.mp h
  exact validate_eq_ok_iff.mpr ⟨hblank, hdirectory, base, ⟨hother, hplaced.base⟩, hwithin⟩

/-- Requests that are accepted with the same directory have the same answer. -/
theorem answerWith_congr {other : String} (reader : Source.Reader)
    (h : validate fs s directory = .ok l) (hother : validate fs s other = .ok l) :
    answerWith fs reader s other = answerWith fs reader s directory := by
  rw [answerWith, answerWith, h, hother]

/-! ## The law -/

/-- A request is accepted exactly if it is not blank, it is resolved to a directory that
exists and can be looked up, and the resolved base is equal to that location or stands above
it, name by name; what is returned is that location.  If all links on the way were followed,
no link is left in it, so it is where the request leads, and nothing that leads out of the
base is accepted.  Other spellings of the same location are accepted as well and have the
same answer; those that lead to the same place are such spellings.  A request whose
locations are known is refused for one of three reasons, unless its place cannot be looked
up because something is too long or a directory is closed. -/
theorem validate_exact (hs : fs.Formed) (s : DiagramSettings) (directory : String) :
    (∀ l, validate fs s directory = .ok l ↔
      Text.isBlankText directory = false ∧ fs.isDirectory (pathOf l) = true ∧
        ∃ base, Placed fs s directory base l ∧ ∀ b ∈ base, b <+: l) ∧
    (∀ l, validate fs s directory = .ok l → fs.FollowsAll (Path.ofText directory) →
      fs.Settled l ∧ fs.node? l = some .directory) ∧
    (∀ q, LeadsTo fs directory q →
      resolving fs (Path.ofText directory) = .ok q ∧
        ∀ b, allowedBase? fs s = .ok (some b) → ¬ b <+: q →
          ∃ e, validate fs s directory = .error (.input e)) ∧
    (∀ other l, validate fs s directory = .ok l → Text.isBlankText other = false →
      resolving fs (Path.ofText other) = .ok l →
        validate fs s other = .ok l ∧
          ∀ reader, answerWith fs reader s other = answerWith fs reader s directory) ∧
    ∀ base l, Placed fs s directory base l → ∀ e, validate fs s directory = .error e ↔
      (Text.isBlankText directory = true ∧ e = .input .blank) ∨
        Text.isBlankText directory = false ∧
          ((∃ b ∈ base, ¬ b <+: l ∧ e = .input (.outside b)) ∨
            (∀ b ∈ base, b <+: l) ∧
              ((fs.askDirectory (pathOf l) = .ok false ∧ e = .input (.unusable directory)) ∨
                ∃ cause, fs.status (pathOf l) = .error cause ∧ cause.isAbsence = false ∧
                  e = .status ⟨cause, (pathOf l).text⟩)) := by
  refine ⟨fun l => validate_eq_ok_iff, ?_, ?_, ?_, fun base l h e => h.validate_eq_error_iff⟩
  · intro l h hall
    obtain ⟨-, hdirectory, base, hplaced, -⟩ := validate_eq_ok_iff.mp h
    have hsettled := hs.settled_of_resolve hall (resolving_eq_ok_iff.mp hplaced.place).2
    exact ⟨hsettled, hsettled.directory_of_isDirectory hdirectory⟩
  · intro q hleads
    have hresolving := hleads.resolving_eq hs
    refine ⟨hresolving, fun b hbase hb => ?_⟩
    have hplaced : Placed fs s directory (some b) q := ⟨hresolving, hbase⟩
    cases hblank : Text.isBlankText directory with
    | true => exact ⟨.blank, hplaced.validate_eq_error_iff.mpr (.inl ⟨hblank, rfl⟩)⟩
    | false =>
        refine ⟨.outside b, hplaced.validate_eq_error_iff.mpr (.inr ⟨hblank, .inl ?_⟩)⟩
        exact ⟨b, rfl, hb, rfl⟩
  · intro other l h hblank hresolving
    have hother := validate_of_resolving_eq h hblank hresolving
    exact ⟨hother, fun reader => answerWith_congr reader h hother⟩

/-- A base with a directory, a link to it, a link that leads out and a link to itself, and
beside it a directory whose name begins like that of the base. -/
def branchedTree : FileSystem where
  entries :=
    [(["base"], .directory), (["base", "in"], .link "src"), (["base", "loop"], .link "loop"),
      (["base", "out"], .link "../basement"), (["base", "src"], .directory),
      (["basement"], .directory)]
  workingDirectory := ["base", "src"]

/-- Requests must stay inside the base. -/
def withinBase : DiagramSettings := { allowedBase := some "/base" }

private theorem sound_branchedTree : branchedTree.Sound := by
  refine sound_of_entries rfl ?_
  simp [branchedTree, node?, List.lookup_cons, IsEntryName, Path.isName]
  decide

/-- The directory is accepted under other names, and what leads out is not. -/
theorem validate_exact_branchedTree :
    branchedTree.Formed ∧
      validate branchedTree withinBase "../src" = .ok ["base", "src"] ∧
      validate branchedTree withinBase "/base/in" = .ok ["base", "src"] ∧
      answer branchedTree withinBase "/base/in" = answer branchedTree withinBase "../src" ∧
      (∃ e, validate branchedTree withinBase "../out" = .error (.input e)) ∧
      validate branchedTree withinBase "/basement" = .error (.input (.outside ["base"])) := by
  have hbase : allowedBase? branchedTree withinBase = .ok (some ["base"]) := by rfl
  have hsrc : resolving branchedTree (Path.ofText "../src") = .ok ["base", "src"] := by rfl
  have hin : resolving branchedTree (Path.ofText "/base/in") = .ok ["base", "src"] := by rfl
  have hout : LeadsTo branchedTree "../out" ["basement"] := ⟨by decide, by rfl, by rfl⟩
  have hbeside : resolving branchedTree (Path.ofText "/basement") = .ok ["basement"] := by rfl
  obtain ⟨haccept, -, -, hspell, -⟩ :=
    validate_exact sound_branchedTree.toFormed withinBase "../src"
  obtain ⟨-, -, hrefuse, -⟩ := validate_exact sound_branchedTree.toFormed withinBase "../out"
  obtain ⟨-, -, -, -, herror⟩ := validate_exact sound_branchedTree.toFormed withinBase "/basement"
  have haccepted : validate branchedTree withinBase "../src" = .ok ["base", "src"] :=
    (haccept _).mpr ⟨by decide, by rfl, some ["base"], ⟨hsrc, hbase⟩, by decide⟩
  obtain ⟨hother, hanswer⟩ := hspell "/base/in" _ haccepted (by decide) hin
  refine ⟨sound_branchedTree.toFormed, haccepted, hother, hanswer _,
    (hrefuse _ hout).2 _ hbase (by decide),
    (herror _ _ ⟨hbeside, hbase⟩ _).mpr (.inr ⟨by decide, .inl ⟨_, rfl, by decide, rfl⟩⟩)⟩

/-! ## What is not refused as it should be -/

/-- A name of so many octets. -/
def nameOfLength (n : Nat) : String :=
  String.ofList (List.replicate n 'a')

theorem utf8ByteSize_nameOfLength (n : Nat) : (nameOfLength n).utf8ByteSize = n := by
  unfold nameOfLength
  induction n with
  | zero => rfl
  | succ n ih =>
      rw [List.replicate_succ, String.ofList_cons, String.utf8ByteSize_append, ih,
        String.utf8ByteSize_singleton, Nat.add_comm]
      rfl

theorem asWritten_nameOfLength (n : Nat) :
    Path.asWritten (nameOfLength n) = ⟨.here, [nameOfLength n]⟩ := by
  have hsplit : Anchor.split (List.replicate n 'a') = (.here, List.replicate n 'a') := by
    cases n with
    | zero => rfl
    | succ n => rfl
  have hpieces : Text.pieces '/' (List.replicate n 'a') = [List.replicate n 'a'] :=
    Text.pieces_of_not_mem (by simp)
  rw [Path.asWritten, nameOfLength, String.toList_ofList, hsplit]
  simp only [hpieces, List.map_cons, List.map_nil]

theorem isOverlong_nameOfLength : isOverlong (nameOfLength 256) = true := by
  rw [isOverlong, utf8ByteSize_nameOfLength]
  decide

theorem ofText_nameOfLength : Path.ofText (nameOfLength 256) = ⟨.here, [nameOfLength 256]⟩ := by
  have hname := (isEntryName_of_isOverlong isOverlong_nameOfLength).1
  rw [Path.ofText, asWritten_nameOfLength, Path.normal, List.filter_cons_of_pos hname]
  rfl

theorem holdsNull_nameOfLength (n : Nat) : holdsNull (nameOfLength n) = false := by
  simp [holdsNull, nameOfLength]

theorem isBlankText_nameOfLength {n : Nat} (h : n ≠ 0) :
    Text.isBlankText (nameOfLength n) = false := by
  have hletter : Text.isBlank 'a' = false := by decide
  simp [Text.isBlankText, nameOfLength, h, hletter]

section

variable {n : String}

/-- A name that is too long is a request that can be resolved. -/
theorem placed_of_isOverlong (hs : fs.Sound) (hlong : isOverlong n = true)
    (hpath : Path.ofText n = ⟨.here, [n]⟩) (hnull : holdsNull n = false) :
    Placed fs {} n none (fs.workingDirectory ++ [n]) := by
  refine ⟨?_, rfl⟩
  rw [hpath, resolving_eq_ok_iff]
  exact ⟨by simp [hnull], hs.resolve_of_isOverlong hlong⟩

/-- A request for such a name fails with the fault of its status. -/
theorem validate_of_isOverlong (hs : fs.Sound) (hlong : isOverlong n = true)
    (hpath : Path.ofText n = ⟨.here, [n]⟩) (hnull : holdsNull n = false)
    (hblank : Text.isBlankText n = false) :
    validate fs {} n =
      .error (.status ⟨.nameTooLong, (pathOf (fs.workingDirectory ++ [n])).text⟩) := by
  have hstatus : fs.status (pathOf (fs.workingDirectory ++ [n])) = .error .nameTooLong :=
    hs.status_pathOf_of_isOverlong hs.working hlong
  have hplaced := placed_of_isOverlong hs hlong hpath hnull
  exact hplaced.validate_eq_error_iff.mpr
    (.inr ⟨hblank, .inr ⟨by simp, .inr ⟨_, hstatus, rfl, rfl⟩⟩⟩)

end

/-- A request for a name of 256 octets can be resolved, and no directory is there, but it is
not refused: it fails. -/
theorem longName_not_refused :
    let name := nameOfLength 256
    Placed branchedTree {} name none ["base", "src", name] ∧
      branchedTree.isDirectory (pathOf ["base", "src", name]) = false ∧
      ∃ fault, validate branchedTree {} name = .error (.status fault) := by
  have hs := sound_branchedTree
  have hlong := isOverlong_nameOfLength
  have hnull := holdsNull_nameOfLength 256
  have hblank := isBlankText_nameOfLength (n := 256) (by decide)
  have hdirectory := hs.isDirectory_of_isOverlong hs.working hlong
  exact ⟨placed_of_isOverlong hs hlong ofText_nameOfLength hnull, hdirectory, _,
    validate_of_isOverlong hs hlong ofText_nameOfLength hnull hblank⟩

/-- A path through a loop of links is resolved to a link that leads out, and accepted. -/
theorem loop_leads_out :
    allowedBase? branchedTree withinBase = .ok (some ["base"]) ∧
      validate branchedTree withinBase "/base/loop/../out" = .ok ["base", "out"] ∧
      branchedTree.locate true (pathOf ["base", "out"]) = .ok ["basement"] := by
  exact ⟨by rfl, by rfl, by rfl⟩

end JavaAtlas.Diagram

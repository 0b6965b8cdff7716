import JavaAtlas.ApiDocs.Dependencies
import JavaAtlas.Proofs.ApiDocs.ClassPath
import JavaAtlas.Proofs.Storage.Change
import JavaAtlas.Proofs.Storage.Status
import JavaAtlas.Proofs.Text.Utf8

/-!
# What a build tool adds

The build tool of a project can only add to the class path that was asked for, and what it
writes is taken away again.  Both hold whatever the tool does, once it could be called.  What
does not hold is that its failures are passed over: a call that breaks off, a list that is no
text, one that may not be read or removed, a directory where the list should be, and paths
that are too long end the work.

Main definitions:

- `Asked`: the build tool was asked, with its reply and the files that it left.
- `IsRemovable`, `IsLegible`: the lists that can be taken away, and those that can be
  looked at.
- `IsWithout`: nothing but one entry was taken away.

Main results:

- Theorem `Asked.classPath_of_ok`: the class path when the tool was asked.
- Theorem `Asked.files`: the files when the tool was asked.
- Theorem `fullClassPath_law`: what holds for every project and every reply.
-/

namespace JavaAtlas.ApiDocs

open Storage FileSystem
open Text.Utf8 (Bytes encode decodeStrict)
open Tool (Breach Call Outcome)

/-! ## The list -/

/-- The list can be taken away from where it stands, or nothing stands there. -/
structure IsRemovable (fs : FileSystem) (list : Path) (l : Location) : Prop where
  short : isOverlongPath list = false
  leaf : fs.node? l ≠ some .directory
  allowed : fs.node? l ≠ none → fs.isFixed l.dropLast = false

/-- It can be told whether there is a list, and if so it may be read and is text. -/
def IsLegible (fs : FileSystem) (list : Path) : Prop :=
  fs.askFile list = .ok false ∨
    fs.askFile list = .ok true ∧ ∃ text, fs.read list = .ok (encode text)

/-- The second file system is the first one without what stands at a location. -/
structure IsWithout (fs fs' : FileSystem) (l : Location) : Prop where
  node : ∀ q, fs'.node? q = if q = l then none else fs.node? q
  working : fs'.workingDirectory = fs.workingDirectory

section

variable {fs : FileSystem} {list : Path} {l : Location}

/-- The entries of a list are those of the text that it holds. -/
theorem readList_eq_ok_iff {es : List String} :
    readList fs list = .ok es ↔
      (fs.askFile list = .ok false ∧ es = []) ∨
        ∃ text, fs.askFile list = .ok true ∧ fs.read list = .ok (encode text) ∧
          es = ClassPath.entries (Text.withLineFeeds text) := by
  unfold readList
  cases hask : fs.askFile list with
  | error fault => simp
  | ok isFile =>
      cases isFile with
      | false => simp [eq_comm]
      | true =>
          cases hread : fs.read list with
          | error fault => simp
          | ok content =>
              -- the text that is read is the one whose octets the list holds
              have htext : ∀ text, content = encode text ↔ decodeStrict content = .ok text :=
                fun text => Text.Utf8.decodeStrict_eq_ok_iff.symm
              simp only [Except.ok.injEq, htext, reduceCtorEq, false_and, true_and, false_or]
              cases decodeStrict content <;> simp [eq_comm]

/-- Where a list holds a text, its entries are those of that text. -/
theorem eq_entries_of_readList {es : List String} (h : readList fs list = .ok es)
    {text : String} (hread : fs.read list = .ok (encode text)) :
    es = ClassPath.entries (Text.withLineFeeds text) := by
  rcases readList_eq_ok_iff.mp h with ⟨hask, -⟩ | ⟨text', -, hread', hentries⟩
  · exact absurd hread (read_ne_ok_of_askFile hask _)
  · have hsame : encode text' = encode text := Except.ok.inj (hread'.symm.trans hread)
    have hdecode := Text.Utf8.decodeStrict_encode text'
    rw [hsame, Text.Utf8.decodeStrict_encode] at hdecode
    rw [hentries, Except.ok.inj hdecode]

/-- A list can be read if it is legible. -/
theorem exists_readList_iff : (∃ es, readList fs list = .ok es) ↔ IsLegible fs list := by
  simp only [readList_eq_ok_iff, IsLegible]
  constructor
  · rintro ⟨es, ⟨hask, -⟩ | ⟨text, hask, hread, -⟩⟩
    · exact .inl hask
    · exact .inr ⟨hask, text, hread⟩
  · rintro (hask | ⟨hask, text, hread⟩)
    · exact ⟨_, .inl ⟨hask, rfl⟩⟩
    · exact ⟨_, .inr ⟨text, hask, hread, rfl⟩⟩

/-- What can be removed is taken away alone. -/
theorem exists_withoutFile (hs : fs.Formed) (hl : fs.locate false list = .ok l)
    (h : IsRemovable fs list l) :
    ∃ fs', withoutFile fs list = .ok fs' ∧ IsWithout fs fs' l := by
  have hunlink := unlink_of_locate hl
  rw [h.short, if_neg Bool.false_ne_true] at hunlink
  cases hnode : fs.node? l with
  | none =>
      refine ⟨fs, ?_, fun q => ?_, rfl⟩
      · simp [withoutFile, hunlink, hnode]
      · by_cases hq : q = l
        case pos => rw [if_pos hq, hq, hnode]
        case neg => rw [if_neg hq]
  | some node =>
      have hne : node ≠ .directory := fun hd => h.leaf (hd ▸ hnode)
      have hallowed := h.allowed (by simp [hnode])
      refine ⟨fs.drop l, ?_, hs.node?_drop_leaf ⟨node, hnode, hne⟩, rfl⟩
      cases node with
      | directory => exact absurd rfl hne
      | file content mode => simp [withoutFile, hunlink, hnode, hallowed, Node.isDirectory]
      | link target => simp [withoutFile, hunlink, hnode, hallowed, Node.isDirectory]

theorem exists_withoutFile_error (hl : fs.locate false list = .ok l)
    (h : ¬ IsRemovable fs list l) : ∃ f, withoutFile fs list = .error f := by
  have hunlink := unlink_of_locate hl
  cases hlong : isOverlongPath list with
  | true => exact ⟨_, by simp only [withoutFile, hunlink, hlong]; rfl⟩
  | false =>
      cases hnode : fs.node? l with
      | none => exact absurd ⟨hlong, by simp [hnode], fun hne => absurd hnode hne⟩ h
      | some node =>
          rw [hlong, if_neg Bool.false_ne_true, hnode] at hunlink
          cases hfixed : fs.isFixed l.dropLast with
          | true => exact ⟨_, by simp only [withoutFile, hunlink, hfixed]; rfl⟩
          | false =>
              have hdirectory : node = .directory := by
                by_contra hne
                exact h ⟨hlong, by simpa [hnode] using hne, fun _ => hfixed⟩
              exact ⟨_, by simp only [withoutFile, hunlink, hfixed, hdirectory]; rfl⟩

/-- Collecting succeeds if the list can be removed and is read where the tool was a
success. -/
theorem collectList_eq_ok_iff (hs : fs.Formed) (hl : fs.locate false list = .ok l)
    (o : Outcome) (calls : List (Helper × Call)) (es : List String) :
    (collectList fs list o calls).result = .ok es ↔
      IsRemovable fs list l ∧ (if o.isOk then readList fs list else .ok []) = .ok es := by
  unfold collectList
  by_cases h : IsRemovable fs list l
  case pos =>
    obtain ⟨fs', hwithout, -⟩ := exists_withoutFile hs hl h
    simp [hwithout, h]
  case neg =>
    obtain ⟨f, hwithout⟩ := exists_withoutFile_error hl h
    simp [hwithout, h]

theorem collectList_calls (o : Outcome) (calls : List (Helper × Call)) :
    (collectList fs list o calls).calls = calls := by
  unfold collectList
  cases withoutFile fs list <;> rfl

/-- The list is taken away, whatever comes of the work. -/
theorem collectList_files (hs : fs.Formed) (hl : fs.locate false list = .ok l) (o : Outcome)
    (calls : List (Helper × Call)) :
    (IsRemovable fs list l → IsWithout fs (collectList fs list o calls).files l) ∧
    (¬ IsRemovable fs list l → (collectList fs list o calls).files = fs) := by
  unfold collectList
  constructor
  · intro h
    obtain ⟨fs', hwithout, hfiles⟩ := exists_withoutFile hs hl h
    simpa only [hwithout] using hfiles
  · intro h
    obtain ⟨f, hwithout⟩ := exists_withoutFile_error hl h
    simp only [hwithout]

end

/-! ## The build tool -/

/-- The build tool of a project was asked once, with the given call.  It replied, and these
are the files that it left. -/
structure Asked (partners : Partners) (fs : FileSystem) (root : Path) (usual : String)
    (timeout : Int) (call : Call) (reply : Reply) (left : FileSystem) : Prop where
  description : fs.askFile (descriptionOf root) = .ok true
  program : ∃ program, buildProgram fs root usual = .ok program ∧
    call = dependencyCall program root timeout
  answer : partners.buildTool fs call = reply
  stored : reply.store fs (listOf root) = .ok left

section

variable {partners : Partners} {fs left : FileSystem} {root : Path} {usual : String}
  {timeout : Int} {call : Call} {reply : Reply} {o : Outcome} {l : Location}

theorem fullClassPath_of_no_description (h : fs.askFile (descriptionOf root) = .ok false)
    (given : Option String) :
    fullClassPath partners fs root given usual timeout =
      ⟨.ok (ClassPath.text (ClassPath.entries (given.getD "")).eraseDups), [], fs⟩ := by
  simp only [fullClassPath, h, ClassPath.merged, List.append_nil]

/-- What cannot be told about the project ends the work before anything is done. -/
theorem fullClassPath_of_fault {e : StepError}
    (h : (∃ f, fs.askFile (descriptionOf root) = .error f ∧ e = .file f) ∨
      fs.askFile (descriptionOf root) = .ok true ∧ buildProgram fs root usual = .error e)
    (given : Option String) :
    fullClassPath partners fs root given usual timeout = ⟨.error e, [], fs⟩ := by
  rcases h with ⟨f, hask, rfl⟩ | ⟨hask, hprogram⟩
  · simp only [fullClassPath, hask]
  · simp only [fullClassPath, hask, hprogram]

namespace Asked

/-- The work of a tool that was asked is to collect the list. -/
theorem fullClassPath_eq (h : Asked partners fs root usual timeout call reply left)
    (ho : reply.ending = .ok o) (given : Option String) :
    let work := collectList left (listOf root) o [(Helper.buildTool, call)]
    fullClassPath partners fs root given usual timeout =
      { work with
        result := (fun more => ClassPath.text
          (ClassPath.merged (ClassPath.entries (given.getD "")) more)) <$> work.result } := by
  obtain ⟨program, hprogram, rfl⟩ := h.program
  simp only [fullClassPath, h.description, hprogram, dependencies, h.answer, h.stored, ho]

/-- A call that broke off ends the work, and the files stay as the tool left them. -/
theorem fullClassPath_of_breach (h : Asked partners fs root usual timeout call reply left)
    {b : Breach} (hb : reply.ending = .error b) (given : Option String) :
    fullClassPath partners fs root given usual timeout =
      ⟨.error (.breach b), [(.buildTool, call)], left⟩ := by
  obtain ⟨program, hprogram, rfl⟩ := h.program
  simp only [fullClassPath, h.description, hprogram, dependencies, h.answer, h.stored, hb]
  rfl

theorem formed (h : Asked partners fs root usual timeout call reply left) (hs : fs.Formed) :
    left.Formed := by
  have hstored := h.stored
  unfold Reply.store at hstored
  split at hstored
  case h_1 =>
    cases hstored
    exact hs
  case h_2 => exact hs.write hstored

/-- The list stands beside the description, also after the tool wrote it. -/
theorem exists_locate (h : Asked partners fs root usual timeout call reply left)
    (hs : fs.Formed) :
    ∃ l, fs.locate false (listOf root) = .ok l ∧ left.locate false (listOf root) = .ok l := by
  obtain ⟨node, hstatus, -⟩ := ask_eq_ok_true_iff.mp h.description
  obtain ⟨-, hnode⟩ := status_eq_ok_iff.mp hstatus
  obtain ⟨q, hlocate, -⟩ := nodeAt_eq_ok_iff.mp hnode
  obtain ⟨r, -, hnames⟩ := exists_directory_of_locate_child (by decide) hlocate
  have hlist : fs.locate false (listOf root) = .ok (r ++ ["javadoc_classpath.txt"]) :=
    hnames _ (by decide) (by decide)
  refine ⟨_, hlist, ?_⟩
  have hstored := h.stored
  unfold Reply.store at hstored
  split at hstored
  case h_1 =>
    cases hstored
    exact hlist
  case h_2 =>
    obtain ⟨w, mode, -, -, hw, rfl⟩ := hs.exists_put_of_write hstored
    exact locate_put hw hlist

theorem calls (h : Asked partners fs root usual timeout call reply left)
    (given : Option String) :
    (fullClassPath partners fs root given usual timeout).calls = [(.buildTool, call)] := by
  cases hending : reply.ending with
  | error b => rw [h.fullClassPath_of_breach hending]
  | ok o =>
      rw [h.fullClassPath_eq hending]
      exact collectList_calls _ _

/-- The list is taken away from what the tool left, and nothing else is. -/
theorem files (h : Asked partners fs root usual timeout call reply left)
    (ho : reply.ending = .ok o) (hs : fs.Formed) (hl : left.locate false (listOf root) = .ok l)
    (given : Option String) :
    (IsRemovable left (listOf root) l →
      IsWithout left (fullClassPath partners fs root given usual timeout).files l) ∧
    (¬ IsRemovable left (listOf root) l →
      (fullClassPath partners fs root given usual timeout).files = left) := by
  rw [h.fullClassPath_eq ho]
  exact collectList_files (h.formed hs) hl _ _

/-- There is a class path exactly if the list can be removed and, where the tool was a
success, is legible. -/
theorem exists_ok_iff (h : Asked partners fs root usual timeout call reply left)
    (ho : reply.ending = .ok o) (hs : fs.Formed) (hl : left.locate false (listOf root) = .ok l)
    (given : Option String) :
    (∃ classPath, (fullClassPath partners fs root given usual timeout).result = .ok classPath) ↔
      IsRemovable left (listOf root) l ∧
        (o.exit = some 0 → IsLegible left (listOf root)) := by
  have hmap : ∀ {α β : Type} (f : α → β) (r : Except StepError α),
      (∃ b, f <$> r = .ok b) ↔ ∃ a, r = .ok a := by
    intro α β f r
    cases r <;> simp
  rw [h.fullClassPath_eq ho]
  simp only [hmap, collectList_eq_ok_iff (h.formed hs) hl, exists_and_left]
  refine and_congr_right fun _ => ?_
  rw [← Outcome.isOk_iff, ← exists_readList_iff]
  cases o.isOk <;> simp

/-- The class path begins with the entries that were given.  Others come from the text of
the list that the tool left when it was a success, and then all of its entries are there. -/
theorem classPath_of_ok (h : Asked partners fs root usual timeout call reply left)
    (ho : reply.ending = .ok o) (hs : fs.Formed) (hl : left.locate false (listOf root) = .ok l)
    {given : Option String} {classPath : String}
    (hresult : (fullClassPath partners fs root given usual timeout).result = .ok classPath) :
    ∃ more, ClassPath.listed classPath =
        (ClassPath.entries (given.getD "")).eraseDups ++ more ∧
      (ClassPath.listed classPath).Nodup ∧
      (more ≠ [] → o.exit = some 0 ∧
        ∃ text, left.read (listOf root) = .ok (encode text) ∧
          ∀ e ∈ more, e ∈ ClassPath.entries (Text.withLineFeeds text)) ∧
      (∀ text, o.exit = some 0 → left.read (listOf root) = .ok (encode text) →
        ∀ e ∈ ClassPath.entries (Text.withLineFeeds text), e ∈ ClassPath.listed classPath) := by
  rw [h.fullClassPath_eq ho] at hresult
  obtain ⟨found, hfound, rfl⟩ := Text.Utf8.map_eq_ok_iff.mp hresult
  obtain ⟨-, hread⟩ := (collectList_eq_ok_iff (h.formed hs) hl _ _ _).mp hfound
  obtain ⟨more, hmerged, hmore⟩ :=
    ClassPath.exists_merged_eq_append (ClassPath.entries (given.getD "")) found
  -- entries are found in the text of the list, or there are none
  have hsource : found = [] ∨ o.exit = some 0 ∧
      ∃ text, left.read (listOf root) = .ok (encode text) ∧
        found = ClassPath.entries (Text.withLineFeeds text) := by
    split at hread
    case isTrue hok =>
      rcases readList_eq_ok_iff.mp hread with ⟨-, hnone⟩ | ⟨text, -, hcontent, hentries⟩
      · exact .inl hnone
      · exact .inr ⟨(Outcome.isOk_iff _).mp hok, text, hcontent, hentries⟩
    case isFalse =>
      cases hread
      exact .inl rfl
  have hlisted : ClassPath.listed (ClassPath.text (ClassPath.merged
      (ClassPath.entries (given.getD "")) found)) =
        ClassPath.merged (ClassPath.entries (given.getD "")) found := by
    refine ClassPath.listed_text_merged (fun e => ClassPath.isEntry_of_mem_entries) fun e he => ?_
    rcases hsource with rfl | ⟨-, text, -, hentries⟩
    · cases he
    · rw [hentries] at he
      exact ClassPath.isEntry_of_mem_entries he
  rw [hlisted]
  refine ⟨more, hmerged, ClassPath.nodup_merged _ _, fun hne => ?_,
    fun text hexit hcontent e he => ?_⟩
  · rcases hsource with rfl | ⟨hexit, text, hcontent, hentries⟩
    · obtain ⟨e, he⟩ := List.exists_mem_of_ne_nil more hne
      cases hmore e he
    · exact ⟨hexit, text, hcontent, fun e he => hentries ▸ hmore e he⟩
  · rw [if_pos ((Outcome.isOk_iff _).mpr hexit)] at hread
    rw [← eq_entries_of_readList hread hcontent] at he
    exact List.mem_eraseDups.mpr (List.mem_append_right _ he)

end Asked

end

/-! ## Every project -/

/-- Without a build description nothing is done, and the class path is the given one.
Where the build tool is asked and comes to an outcome, the work ends without a class path
exactly if its list cannot be removed, or cannot be looked at as text after a success.  A
class path begins with the given entries in their order; others come only from the list of a
success, and then all that it holds are there.  Whatever the tool does, its list is taken
away, if that can be, and nothing else is changed.  A call that breaks off ends the work, and
the files stay as they are then. -/
theorem fullClassPath_law (partners : Partners) (fs : FileSystem) (root : Path)
    (given : Option String) (usual : String) (timeout : Int) (hs : fs.Formed) :
    let own := (ClassPath.entries (given.getD "")).eraseDups
    let work := fullClassPath partners fs root given usual timeout
    (fs.askFile (descriptionOf root) = .ok false →
      work = ⟨.ok (ClassPath.text own), [], fs⟩ ∧
        ClassPath.listed (ClassPath.text own) = own) ∧
    (∀ e, (∃ f, fs.askFile (descriptionOf root) = .error f ∧ e = .file f) ∨
        fs.askFile (descriptionOf root) = .ok true ∧ buildProgram fs root usual = .error e →
      work = ⟨.error e, [], fs⟩) ∧
    (∀ call reply left, Asked partners fs root usual timeout call reply left →
      ∃ l, fs.locate false (listOf root) = .ok l ∧ left.locate false (listOf root) = .ok l ∧
        work.calls = [(.buildTool, call)] ∧
        (∀ b, reply.ending = .error b → work.result = .error (.breach b) ∧ work.files = left) ∧
        ∀ o, reply.ending = .ok o →
        ((∃ classPath, work.result = .ok classPath) ↔
          IsRemovable left (listOf root) l ∧
            (o.exit = some 0 → IsLegible left (listOf root))) ∧
        (∀ classPath, work.result = .ok classPath →
          ∃ more, ClassPath.listed classPath = own ++ more ∧
            (ClassPath.listed classPath).Nodup ∧
            (more ≠ [] → o.exit = some 0 ∧
              ∃ text, left.read (listOf root) = .ok (encode text) ∧
                ∀ e ∈ more, e ∈ ClassPath.entries (Text.withLineFeeds text)) ∧
            (∀ text, o.exit = some 0 →
              left.read (listOf root) = .ok (encode text) →
              ∀ e ∈ ClassPath.entries (Text.withLineFeeds text),
                e ∈ ClassPath.listed classPath)) ∧
        (IsRemovable left (listOf root) l → IsWithout left work.files l) ∧
        (¬ IsRemovable left (listOf root) l → work.files = left)) := by
  intro own work
  refine ⟨fun hask => ⟨fullClassPath_of_no_description hask given, ?_⟩,
    fun e hfault => fullClassPath_of_fault hfault given, fun call reply left h => ?_⟩
  · refine ClassPath.listed_text fun e he => ?_
    exact ClassPath.isEntry_of_mem_entries (List.mem_eraseDups.mp he)
  · obtain ⟨l, hbefore, hl⟩ := h.exists_locate hs
    refine ⟨l, hbefore, hl, h.calls given, fun b hb => ?_, fun o ho => ?_⟩
    · simp only [work, h.fullClassPath_of_breach hb, and_self]
    · obtain ⟨hremoved, hkept⟩ := h.files ho hs hl given
      exact ⟨h.exists_ok_iff ho hs hl given,
        fun classPath hresult => h.classPath_of_ok ho hs hl hresult, hremoved, hkept⟩

/-- Tools that reply to every call in the same way. -/
def partnersReplying (build docs : Reply) : Partners :=
  ⟨fun _ _ => build, fun _ _ => docs⟩

/-- A build tool that ends in the given way, with the given list. -/
def partnersLeaving (o : Outcome) (written : Option Bytes) : Partners :=
  partnersReplying ⟨.ok o, written⟩ ⟨.ok ⟨some 0, "", false⟩, none⟩

/-- A project with a build description, and with other entries in its directory. -/
def projectTree (others : List (Location × Node)) : FileSystem :=
  { entries := (["p"], .directory) :: (["p", "pom.xml"], .file [] newMode) :: others
    workingDirectory := [] }

/-- The law holds for a project where the list of a success adds an entry. -/
theorem fullClassPath_law_projectTree :
    (projectTree []).Formed ∧
    let partners := partnersLeaving ⟨some 0, "", false⟩ (some (encode "b.jar:a.jar"))
    let work := fullClassPath partners (projectTree []) (Path.ofText "p") (some "a.jar") "mvn" 300
    ∃ call reply left l,
      Asked partners (projectTree []) (Path.ofText "p") "mvn" 300 call reply left ∧
      work.calls = [(.buildTool, call)] ∧ (∃ classPath, work.result = .ok classPath) ∧
      IsWithout left work.files l := by
  have hformed : (projectTree []).Formed := by
    refine formed_of_entries rfl ?_
    decide +kernel
  refine ⟨hformed, ?_⟩
  intro partners work
  let left := (projectTree []).put ["p", "javadoc_classpath.txt"]
    (.file (encode "b.jar:a.jar") newMode)
  have hasked : Asked partners (projectTree []) (Path.ofText "p") "mvn" 300
      (dependencyCall "mvn" (Path.ofText "p") 300)
      ⟨.ok ⟨some 0, "", false⟩, some (encode "b.jar:a.jar")⟩ left :=
    ⟨by decide +kernel, ⟨"mvn", by decide +kernel, rfl⟩, rfl, rfl⟩
  obtain ⟨l, -, hl, hcalls, -, hended⟩ :=
    (fullClassPath_law partners (projectTree []) (Path.ofText "p") (some "a.jar") "mvn" 300
      hformed).2.2 _ _ _ hasked
  obtain ⟨hok, -, hremoved, -⟩ := hended _ rfl
  have hplace : left.locate false (listOf (Path.ofText "p")) =
      .ok ["p", "javadoc_classpath.txt"] := by
    decide +kernel
  obtain rfl : l = ["p", "javadoc_classpath.txt"] :=
    Except.ok.inj (hl.symm.trans hplace)
  have hremovable : IsRemovable left (listOf (Path.ofText "p")) ["p", "javadoc_classpath.txt"] :=
    ⟨by decide +kernel, by decide +kernel, by decide +kernel⟩
  have hread : readList left (listOf (Path.ofText "p")) = .ok ["b.jar", "a.jar"] := by
    decide +kernel
  exact ⟨_, _, left, _, hasked, hcalls,
    hok.mpr ⟨hremovable, fun _ => exists_readList_iff.mp ⟨_, hread⟩⟩, hremoved hremovable⟩

/-! ## Failures of the build tool that are not passed over -/

/-- A success with a list that is no text, and a failure with a directory where the list
should be: there is no class path, and the directory stays. -/
theorem failures_not_passed_over :
    (∀ classPath, (fullClassPath (partnersLeaving ⟨some 0, "", false⟩ (some [0xFF]))
      (projectTree []) (Path.ofText "p") (some "a.jar") "mvn" 300).result ≠ .ok classPath) ∧
    let work := fullClassPath (partnersLeaving ⟨none, "", true⟩ none)
      (projectTree [(["p", "javadoc_classpath.txt"], .directory)]) (Path.ofText "p")
      (some "a.jar") "mvn" 300
    (∀ classPath, work.result ≠ .ok classPath) ∧
      work.files.node? ["p", "javadoc_classpath.txt"] = some .directory := by
  have htext : (fullClassPath (partnersLeaving ⟨some 0, "", false⟩ (some [0xFF]))
      (projectTree []) (Path.ofText "p") (some "a.jar") "mvn" 300).result =
        .error (.noText ⟨0, [0xFF], .invalidStart⟩) := by
    decide +kernel
  have hdirectory : (fullClassPath (partnersLeaving ⟨none, "", true⟩ none)
      (projectTree [(["p", "javadoc_classpath.txt"], .directory)]) (Path.ofText "p")
      (some "a.jar") "mvn" 300).result =
        .error (.file ⟨.isADirectory, "p/javadoc_classpath.txt"⟩) := by
    decide +kernel
  refine ⟨?_, ?_, ?_⟩
  · simp [htext]
  · simp [hdirectory]
  · decide +kernel

end JavaAtlas.ApiDocs

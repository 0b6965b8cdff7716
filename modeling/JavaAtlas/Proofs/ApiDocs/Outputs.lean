import JavaAtlas.Proofs.ApiDocs.Outcome
import JavaAtlas.Proofs.Storage.Alteration
import JavaAtlas.Service.Session

/-!
# Where documentation goes

A run writes to three places: to the directory that its name leads to, to the main page in
there, and to the list of the build tool.  It makes that directory if nothing is there, and
then the directory is another one than those of earlier runs, and what is found in it comes
from this run.  But if a directory is there already, the run takes it as it is.

Main definitions:

- `Uses`: the directories that a run documents and writes to.
- `Ledger`: a session with the directories that its runs wrote to and that are still there.

Main results:

- Theorem `alters_generate`: no run takes a directory away.
- Theorem `Uses.alters`: all that a run may change.
- Theorem `Uses.page_of_fresh`: a main page in a new directory comes from the tool.
- Theorem `stands_run`: directories of earlier runs stay.
- Theorem `outputs_apart`: the law of output directories.
- Theorem `output_shared`: a directory that is there already is taken as it is.
-/

namespace JavaAtlas.ApiDocs

open Config (DocsSettings)
open Storage FileSystem
open Service (Session)
open Text.Utf8 (Bytes)
open Tool (Call Outcome)

/-! ## Changes of the tools -/

section

variable {fresh changed : Location → Prop} {fs fs' fs'' : FileSystem} {partners : Partners}

/-- What a tool wrote is stored where its file is. -/
theorem alters_store {reply : Reply} {p : Path} (h : Alters fresh changed fs fs')
    (hplace : ∀ l, fs'.locate true p = .ok l → changed l)
    (hstore : reply.store fs' p = .ok fs'') : Alters fresh changed fs fs'' := by
  unfold Reply.store at hstore
  split at hstore
  case h_1 =>
    cases hstore
    exact h
  case h_2 content _ => exact h.write hplace hstore

theorem alters_collectList {list : Path} (h : Alters fresh changed fs fs')
    (hplace : ∀ l, fs'.locate false list = .ok l → changed l) (o : Outcome)
    (calls : List (Helper × Call)) :
    Alters fresh changed fs (collectList fs' list o calls).files := by
  unfold collectList withoutFile
  cases hunlink : fs'.unlink list with
  | ok left => exact h.unlink hplace hunlink
  | error f =>
      dsimp only
      split
      case h_1 => exact h
      case h_2 left hleft =>
        split at hleft
        case isTrue =>
          cases hleft
          exact h
        case isFalse => cases hleft

/-- The build tool changes what is where its list is. -/
theorem alters_fullClassPath (root : Path) (h : Alters fresh changed fs fs')
    (hplace : ∀ fs₁ last l, Alters fresh changed fs fs₁ →
      fs₁.locate last (listOf root) = .ok l → changed l)
    (given : Option String) (usual : String) (timeout : Int) :
    Alters fresh changed fs (fullClassPath partners fs' root given usual timeout).files := by
  unfold fullClassPath
  dsimp only
  split
  case h_1 => exact h
  case h_2 => exact h
  case h_3 =>
    split
    case h_1 => exact h
    case h_2 program _ =>
      dsimp only [dependencies]
      split
      case h_1 => exact h
      case h_2 left hstore =>
        have hleft := alters_store h (fun l => hplace fs' true l h) hstore
        split
        case h_1 => exact hleft
        case h_2 o _ => exact alters_collectList hleft (fun l => hplace left false l hleft) o _

/-- Directories are made, and the build tool works. -/
theorem alters_work {tried : Path → Prop} {output : Path} {made : FileSystem} (root : Path)
    (hs : fs.Sound) (htries : Tries fresh changed fs tried) (htried : tried output)
    (hplace : ∀ fs₁ last l, Alters fresh changed fs fs₁ →
      fs₁.locate last (listOf root) = .ok l → changed l)
    (hmake : fs.makeDirectories output = .ok made) (given : Option String) (usual : String)
    (timeout : Int) :
    Alters fresh changed fs (fullClassPath partners made root given usual timeout).files :=
  alters_fullClassPath root (htries.makeDirectories hs.alters_self htried hmake) hplace _ _ _

end

/-! ## Changes of a run -/

/-- Where the list of the build tool is. -/
def listAt (source : Location) : Location :=
  source ++ ["javadoc_classpath.txt"]

/-- Where the main page is. -/
def pageAt (output : Location) : Location :=
  output ++ ["index.html"]

/-- The paths of a run lead to places where something may be changed, whatever it has
changed before. -/
structure Reaches (fresh changed : Location → Prop) (fs : FileSystem) (source output : Location) :
    Prop where
  tries : ∃ tried, Tries fresh changed fs tried ∧ tried (pathOf output)
  list : ∀ fs' last l, Alters fresh changed fs fs' →
    fs'.locate last (pathOf (listAt source)) = .ok l → changed l
  page : ∀ fs' l, Alters fresh changed fs fs' →
    fs'.locate true (pathOf (pageAt output)) = .ok l → changed l

section

variable {fresh changed : Location → Prop} {fs : FileSystem} {source output : Location}

theorem reaches_anywhere : Reaches (fun _ => True) (fun _ => True) fs source output :=
  ⟨⟨_, tries_anywhere, trivial⟩, fun _ _ _ _ _ => trivial, fun _ _ _ _ => trivial⟩

/-- Where no links are on the way, paths lead where they say. -/
theorem reaches_of_settled (hsource : fs.Settled (listAt source)) (houtput : fs.Settled output)
    (hpage : fs.Settled (pageAt output)) :
    Reaches (· <+: output) (fun q => q = listAt source ∨ q = pageAt output) fs source output where
  tries := ⟨_, tries_of_settled houtput, output, rfl, List.prefix_rfl⟩
  list := fun _ _ _ h hlocate => .inl (eq_of_locate_pathOf (h.settled hsource) hlocate)
  page := fun _ _ h hlocate => .inr (eq_of_locate_pathOf (h.settled hpage) hlocate)

variable {partners : Partners} {s : DocsSettings}

theorem Reaches.callTool (hr : Reaches fresh changed fs source output) {fs' : FileSystem}
    (h : Alters fresh changed fs fs') (files : List Path) (classPath : String)
    (before : List (Helper × Call)) :
    Alters fresh changed fs
      (callTool partners s fs' source output files classPath before).files := by
  unfold ApiDocs.callTool
  dsimp only
  split
  case h_1 => exact h
  case h_2 left hstore => exact alters_store h (fun l => hr.page fs' l h) hstore

/-- A run changes what its paths lead to. -/
theorem Reaches.documentFiles {name : String} (hs : fs.Sound)
    (hr : ∀ output, fs.resolve ((Path.ofText s.outputBase).child name) = .ok output →
      Reaches fresh changed fs source output) (files : List Path) (classPath : Option String) :
    Alters fresh changed fs (documentFiles partners s fs source files name classPath).files := by
  unfold ApiDocs.documentFiles
  split
  case h_1 => exact hs.alters_self
  case h_2 output houtput =>
    have hreaches := hr output houtput
    obtain ⟨tried, htries, htried⟩ := hreaches.tries
    split
    case h_1 => exact htries.triedDirectories hs.alters_self htried
    case h_2 made hmake =>
      have hwork : Alters fresh changed fs (fullClassPath partners made (pathOf source) classPath
          s.mavenCommand s.mavenTimeout).files :=
        alters_work (pathOf source) hs htries htried hreaches.list hmake _ _ _
      dsimp only
      split
      case h_1 => exact hwork
      case h_2 effective _ => exact hreaches.callTool hwork files effective _

end

/-! ## Runs that write -/

/-- A run comes to document the files below a source, and its name leads to an output. -/
structure Uses (s : DocsSettings) (fs : FileSystem) (id directory : String)
    (source output : Location) : Prop where
  named : directory ≠ ""
  asked : fs.askDirectory (Path.ofText directory) = .ok true
  leads : fs.resolve (Path.ofText directory) = .ok source
  /-- Resolution could look up all names: no path got too long on its way. -/
  seen : (fs.resolved (Path.ofText directory)).blind = false
  walk : Source.walkFault? fs (pathOf source) sourceExtension = none
  files : Source.sourceFiles fs (pathOf source) sourceExtension ≠ []
  place : fs.resolve ((Path.ofText s.outputBase).child (outputName id)) = .ok output

section

variable {partners : Partners} {s : DocsSettings} {fs : FileSystem} {id directory : String}
  {source output : Location} {classPath : Option String}

/-- A run does nothing, or documents the files below a source. -/
theorem generate_cases (partners : Partners) (s : DocsSettings) (fs : FileSystem)
    (id directory : String) (classPath : Option String) :
    (∃ result, generate partners s fs id directory classPath = .idle fs result) ∨
      ∃ source files, generate partners s fs id directory classPath =
        documentFiles partners s fs source files (outputName id) classPath := by
  unfold generate
  split
  case isTrue => exact .inl ⟨_, rfl⟩
  case isFalse =>
    split
    case h_1 => exact .inl ⟨_, rfl⟩
    case h_2 => exact .inl ⟨_, rfl⟩
    case h_3 =>
      split
      case h_1 => exact .inl ⟨_, rfl⟩
      case h_2 source _ =>
        unfold documentBelow
        split
        case h_1 => exact .inl ⟨_, rfl⟩
        case h_2 =>
          dsimp only
          split
          case isTrue => exact .inl ⟨_, rfl⟩
          case isFalse => exact .inr ⟨source, _, rfl⟩

/-- No run takes a directory away, makes a link, or leaves the files in disorder. -/
theorem alters_generate (hs : fs.Sound) (partners : Partners) (s : DocsSettings)
    (id directory : String) (classPath : Option String) :
    Alters (fun _ => True) (fun _ => True) fs
      (generate partners s fs id directory classPath).files := by
  rcases generate_cases partners s fs id directory classPath with
    ⟨result, hidle⟩ | ⟨source, files, hrun⟩
  · rw [hidle]
    exact hs.alters_self
  · rw [hrun]
    exact Reaches.documentFiles hs (fun _ _ => reaches_anywhere) files classPath

namespace Uses

theorem generate_eq (h : Uses s fs id directory source output) (partners : Partners)
    (classPath : Option String) :
    generate partners s fs id directory classPath =
      documentFiles partners s fs source
        (Source.sourceFiles fs (pathOf source) sourceExtension) (outputName id) classPath := by
  simp only [generate, if_neg h.named, h.asked, h.leads, documentBelow, h.walk,
    List.isEmpty_eq_false_iff.mpr h.files, Bool.false_eq_true, if_false]

/-- What is documented is a directory. -/
theorem source_directory (h : Uses s fs id directory source output) (hs : fs.Formed) :
    fs.node? source = some .directory := by
  obtain ⟨l, -, hdirectory, hresolve⟩ := exists_directory_of_asked h.asked
  obtain rfl := Except.ok.inj ((hresolve hs h.seen).symm.trans h.leads)
  exact hdirectory

/-- The list of the build tool is in the directory, if no link stands there. -/
theorem settled_list (h : Uses s fs id directory source output) (hs : fs.Sound)
    (hlist : ¬ fs.IsLink (listAt source)) : fs.Settled (listAt source) :=
  (hs.settled (h.source_directory hs.toFormed)).snoc (by decide) hlist

/-- All that a run may change: it makes directories on the way to its output, and writes
the list and the main page. -/
theorem alters (h : Uses s fs id directory source output) (hs : fs.Sound)
    (houtput : fs.Settled output) (hlist : ¬ fs.IsLink (listAt source))
    (hpage : ¬ fs.IsLink (pageAt output)) (partners : Partners) (classPath : Option String) :
    Alters (· <+: output) (fun q => q = listAt source ∨ q = pageAt output) fs
      (generate partners s fs id directory classPath).files := by
  rw [h.generate_eq]
  refine Reaches.documentFiles hs (fun output' hplace => ?_) _ classPath
  obtain rfl := Except.ok.inj (h.place.symm.trans hplace)
  exact reaches_of_settled (h.settled_list hs hlist) houtput (houtput.snoc (by decide) hpage)

/-- Nothing is below a place where nothing is. -/
theorem node?_page_of_fresh (hs : fs.Sound) (hfresh : fs.node? output = none) :
    fs.node? (pageAt output) = none := by
  by_contra hpage
  cases hfresh.symm.trans (hs.parent output _ hpage)

theorem not_isLink_page_of_fresh (hs : fs.Sound) (hfresh : fs.node? output = none) :
    ¬ fs.IsLink (pageAt output) :=
  not_isLink_of_none (node?_page_of_fresh hs hfresh)

/-- All that is there stays, except for the list, if the output is new. -/
theorem node?_of_fresh (h : Uses s fs id directory source output) (hs : fs.Sound)
    (houtput : fs.Settled output) (hlist : ¬ fs.IsLink (listAt source))
    (hfresh : fs.node? output = none) {q : Location} {node : Node} (hq : fs.node? q = some node)
    (hne : q ≠ listAt source) :
    (generate partners s fs id directory classPath).files.node? q = some node := by
  have hpage := not_isLink_page_of_fresh hs hfresh
  refine (h.alters hs houtput hlist hpage partners classPath).node?_eq_some hq ?_
  rintro (rfl | rfl)
  · exact hne rfl
  · cases (node?_page_of_fresh hs hfresh).symm.trans hq

/-- A directory is not above something else in another directory, unless it is above that
one. -/
theorem prefix_of_prefix_child {o d : Location} {n : String}
    (ho : fs.node? o = some .directory) (hne : fs.node? (d ++ [n]) ≠ some .directory)
    (h : o <+: d ++ [n]) : o <+: d := by
  rcases List.prefix_concat_iff.mp h with rfl | hprefix
  · exact absurd ho hne
  · exact hprefix

/-- Below a directory all stays as it is, if the output and the source are outside. -/
theorem node?_below (h : Uses s fs id directory source output) (hs : fs.Sound)
    (houtput : fs.Settled output) (hlist : ¬ fs.IsLink (listAt source))
    (hpage : ¬ fs.IsLink (pageAt output)) {o q : Location} (ho : fs.node? o = some .directory)
    (hoOutput : ¬ o <+: output) (hoSource : ¬ o <+: source) (hq : o <+: q) :
    (generate partners s fs id directory classPath).files.node? q = fs.node? q := by
  rcases (h.alters hs houtput hlist hpage partners classPath).node q with
    hsame | ⟨-, hprefix⟩ | ⟨hne, rfl | rfl⟩
  · exact hsame
  · exact absurd (hq.trans hprefix) hoOutput
  · exact absurd (prefix_of_prefix_child ho hne hq) hoSource
  · exact absurd (prefix_of_prefix_child ho hne hq) hoOutput

/-- When the tool is called, nothing is in a directory that was made for it. -/
theorem node?_page_of_prepared (h : Uses s fs id directory source output) (hs : fs.Sound)
    (houtput : fs.Settled output) (hlist : ¬ fs.IsLink (listAt source))
    (hfresh : fs.node? output = none) {work : Work String} {effective : String}
    (hprepared : Prepared partners s fs id source classPath output work effective) :
    work.files.node? (pageAt output) = none ∧ work.files.Settled (pageAt output) ∧
      work.files.Sound := by
  have hpage := node?_page_of_fresh hs hfresh
  have hnolink := not_isLink_page_of_fresh hs hfresh
  obtain ⟨made, hmake, rfl⟩ := hprepared.asked
  have hwork : Alters (· <+: output) (· = listAt source) fs (fullClassPath partners made
      (pathOf source) classPath s.mavenCommand s.mavenTimeout).files :=
    alters_work (pathOf source) hs (tries_of_settled houtput) ⟨output, rfl, List.prefix_rfl⟩
      (fun fs₁ last l h₁ => eq_of_locate_pathOf (h₁.settled (h.settled_list hs hlist))) hmake _ _ _
  refine ⟨?_, hwork.settled (houtput.snoc (by decide) hnolink), hwork.sound⟩
  rw [hwork.node?_eq ?_ ?_, hpage]
  · intro hprefix
    have hlength := hprefix.length_le
    rw [pageAt, List.length_append, List.length_singleton] at hlength
    omega
  · intro heq
    have hnames := (List.append_singleton_inj.mp heq).2
    exact absurd hnames (by decide)

/-- Where documentation was written, all was prepared for the tool and it replied. -/
theorem exists_answered (h : Uses s fs id directory source output) {place : Location}
    {hasIndex : Bool} {text : String} {n : Nat}
    (hresult : (generate partners s fs id directory classPath).result =
      .ok (.written place hasIndex text n)) :
    ∃ work effective left,
      let call := docsCall s source output
        (Source.sourceFiles fs (pathOf source) sourceExtension) effective
      Prepared partners s fs id source classPath output work effective ∧
        Answered partners work.files call output (partners.docsTool work.files call) left := by
  rw [h.generate_eq, documentFiles, h.place] at hresult
  dsimp only at hresult
  split at hresult
  case h_1 => cases hresult
  case h_2 made hmake =>
    split at hresult
    case h_1 => cases hresult
    case h_2 effective hfound =>
      unfold callTool at hresult
      dsimp only at hresult
      split at hresult
      case h_1 => cases hresult
      case h_2 left hstore =>
        exact ⟨_, effective, left, ⟨h.place, ⟨made, hmake, rfl⟩, hfound⟩, rfl, hstore⟩

/-- A main page in a directory that was made for it was written by the tool, in the call of
this run. -/
theorem page_of_fresh (h : Uses s fs id directory source output) (hs : fs.Sound)
    (houtput : fs.Settled output) (hlist : ¬ fs.IsLink (listAt source))
    (hfresh : fs.node? output = none) {place : Location} {text : String} {n : Nat}
    (hresult : (generate partners s fs id directory classPath).result =
      .ok (.written place true text n)) :
    ∃ files call content,
      (Helper.docsTool, call) ∈ (generate partners s fs id directory classPath).calls ∧
        (partners.docsTool files call).written = some content ∧
        (generate partners s fs id directory classPath).files.read (indexOf output) =
          .ok content := by
  obtain ⟨work, effective, left, hprepared, hanswered⟩ := h.exists_answered hresult
  obtain ⟨hnone, hsettled, hsound⟩ :=
    h.node?_page_of_prepared hs houtput hlist hfresh hprepared
  have hrun := h.generate_eq partners classPath
  rw [hprepared.documentFiles_eq hanswered] at hrun
  rw [hrun] at hresult ⊢
  let call := docsCall s source output (Source.sourceFiles fs (pathOf source) sourceExtension)
    effective
  have hcall : (Helper.docsTool, call) ∈ work.calls ++ [(Helper.docsTool, call)] :=
    List.mem_append_right _ List.mem_cons_self
  have hstored := hanswered.stored
  unfold Reply.store at hstored
  split at hstored
  case h_1 hwritten =>
    -- without a page from the tool there would be none
    cases hstored
    obtain ⟨o, -, hdocs⟩ := exists_docsOf_of_docsAfter_ok hresult
    obtain ⟨-, -, -, hclaims⟩ := of_docsOf_ok hdocs
    have hask := hclaims.mp (claimsSuccess_written.mpr rfl)
    obtain ⟨l, old, mode, hreach, hnode⟩ := exists_reach_of_isFile (askFile_eq_ok_true_iff.mp hask)
    obtain rfl := eq_of_locate_pathOf hsettled (reach_eq_ok_iff.mp hreach).2
    cases hnone.symm.trans hnode
  case h_2 content hwritten =>
    exact ⟨work.files, call, content, hcall, hwritten, hsound.read_of_write hsettled hstored⟩

theorem nameUsed (h : Uses s fs id directory source output) :
    (generate partners s fs id directory classPath).nameUsed = true := by
  rw [h.generate_eq, documentFiles, h.place]
  dsimp only
  split
  case h_1 => rfl
  case h_2 =>
    split
    case h_1 => rfl
    case h_2 =>
      unfold callTool
      dsimp only
      split <;> rfl

/-- The output is a directory after the run, if it can be made. -/
theorem output_directory (h : Uses s fs id directory source output) (hs : fs.Sound)
    (houtput : fs.Settled output) {made : FileSystem}
    (hmake : fs.makeDirectories (pathOf output) = .ok made) :
    (generate partners s fs id directory classPath).files.node? output = some .directory := by
  have hmade : Alters (fun _ => True) (fun _ => True) fs made :=
    tries_anywhere.makeDirectories hs.alters_self trivial hmake
  have hwork : Alters (fun _ => True) (fun _ => True) made (fullClassPath partners made
      (pathOf source) classPath s.mavenCommand s.mavenTimeout).files :=
    alters_fullClassPath (pathOf source) hmade.sound.alters_self (fun _ _ _ _ _ => trivial) _ _ _
  have hdirectory := hs.directory_of_makeDirectories houtput hmake
  rw [h.generate_eq, documentFiles, h.place]
  simp only [hmake]
  split
  case h_1 => exact hwork.directory hdirectory
  case h_2 effective _ =>
    have hreaches : Reaches (fun _ => True) (fun _ => True) made source output := reaches_anywhere
    exact (hreaches.callTool hwork _ effective _).directory hdirectory

end Uses

end

/-! ## Sessions -/

/-- What happens in a session: the files are changed by others, or documentation is
generated. -/
inductive Event where
  | change (files : FileSystem)
  | docs (directory : String) (classPath : Option String)

/-- A session, with the directories that its runs wrote to and that are still there. -/
structure Ledger where
  session : Session
  outputs : List Location

section

variable (settings : DocsSettings) (partners : Service.Partners)

/-- The directory that a run writes to, if it comes to that. -/
def outputMade? (s : Session) (directory : String) (classPath : Option String) :
    Option Location :=
  let id := partners.names s.namesUsed
  let run := generate partners.docs settings s.files id directory classPath
  match run.nameUsed, s.files.resolve ((Path.ofText settings.outputBase).child (outputName id)) with
  | true, .ok output => if run.files.node? output = some .directory then some output else none
  | _, _ => none

namespace Ledger

/-- What an event makes of a session and its directories. -/
def step (k : Ledger) : Event → Ledger
  | .change files =>
    ⟨{ k.session with files }, k.outputs.filter fun o => files.node? o = some .directory⟩
  | .docs directory classPath =>
    ⟨(k.session.docs settings partners directory classPath).session,
      (outputMade? settings partners k.session directory classPath).toList ++ k.outputs⟩

/-- What events one after the other make of a session that begins. -/
def run (s : Session) (events : List Event) : Ledger :=
  events.foldl (step settings partners) ⟨s, []⟩

/-- The files are in order, and all directories that were written to stand there. -/
structure Stands (k : Ledger) : Prop where
  sound : k.session.files.Sound
  outputs : ∀ o ∈ k.outputs, k.session.files.node? o = some .directory

end Ledger

variable {settings partners}

theorem directory_of_outputMade? {s : Session} {directory : String} {classPath : Option String}
    {output : Location} (h : outputMade? settings partners s directory classPath = some output) :
    (s.docs settings partners directory classPath).session.files.node? output =
      some .directory := by
  unfold outputMade? at h
  dsimp only at h
  split at h
  case h_2 => cases h
  case h_1 =>
    split at h
    case isFalse => cases h
    case isTrue hdirectory =>
      cases h
      exact hdirectory

theorem eq_ok_of_mapError {ε ε' α : Type} {f : ε → ε'} {r : Except ε α} {a : α}
    (h : r.mapError f = .ok a) : r = .ok a := by
  cases r with
  | error e => cases h
  | ok b => exact congrArg Except.ok (Except.ok.inj h)

/-- A run that uses an output and can make it writes there. -/
theorem Uses.outputMade?_eq {s : Session} {directory : String} {source output : Location}
    (h : Uses settings s.files (partners.names s.namesUsed) directory source output)
    (hs : s.files.Sound) (houtput : s.files.Settled output) {made : FileSystem}
    (hmake : s.files.makeDirectories (pathOf output) = .ok made) (classPath : Option String) :
    outputMade? settings partners s directory classPath = some output := by
  have hdirectory : (generate partners.docs settings s.files (partners.names s.namesUsed)
      directory classPath).files.node? output = some .directory :=
    h.output_directory hs houtput hmake
  simp only [outputMade?, h.nameUsed, h.place, hdirectory, if_true]

/-- An event leaves the directories that were written to, or they are no longer listed. -/
theorem Ledger.Stands.step {k : Ledger} (h : k.Stands) (e : Event)
    (hchange : ∀ files, e = .change files → files.Sound) :
    (k.step settings partners e).Stands := by
  cases e with
  | change files =>
      refine ⟨hchange files rfl, fun o ho => ?_⟩
      exact of_decide_eq_true (List.mem_filter.mp ho).2
  | docs directory classPath =>
      have hrun := alters_generate h.sound partners.docs settings
        (partners.names k.session.namesUsed) directory classPath
      refine ⟨hrun.sound, fun o ho => ?_⟩
      rcases List.mem_append.mp ho with hnew | hold
      · exact directory_of_outputMade? (Option.mem_toList.mp hnew)
      · exact hrun.directory (h.outputs o hold)

/-- Directories of earlier runs stand as long as nobody else takes them away, by induction
on the events. -/
theorem stands_run {s : Session} (hs : s.files.Sound) (events : List Event)
    (hchanges : ∀ files, .change files ∈ events → files.Sound) :
    (Ledger.run settings partners s events).Stands := by
  induction events using List.reverseRecOn with
  | nil => exact ⟨hs, List.forall_mem_nil _⟩
  | append_singleton events e ih =>
      rw [Ledger.run, List.foldl_append]
      refine (ih fun files hfiles => hchanges files (List.mem_append_left _ hfiles)).step e ?_
      rintro files rfl
      exact hchanges files (by simp)

/-! ## The law -/

/-- In every session, whatever its runs and others did to the files before: no run takes
away a directory that an earlier run wrote to.  If nothing is where the name of a run leads
to, its output is another directory than all of those; all that is there stays as it is,
except for the list of the build tool; the directories of earlier runs stay as they are,
unless the output or the source is inside of them; and a main page in the end was written by
the tool in a call of this run.  But if a directory is there already, it is taken as it is.
This is shown where no loop of links is met on the way to the output and the list is no
link. -/
theorem outputs_apart (settings : DocsSettings) (partners : Service.Partners) {s : Session}
    (hs : s.files.Sound) (events : List Event)
    (hchanges : ∀ files, .change files ∈ events → files.Sound) (directory : String)
    (classPath : Option String) :
    let k := Ledger.run settings partners s events
    let fs := k.session.files
    let answer := k.session.docs settings partners directory classPath
    let after := answer.session.files
    (∀ o ∈ k.outputs, fs.node? o = some .directory ∧ after.node? o = some .directory) ∧
    ∀ source output,
      Uses settings fs (partners.names k.session.namesUsed) directory source output →
      fs.Settled output → ¬ fs.IsLink (listAt source) →
      (∀ made, fs.makeDirectories (pathOf output) = .ok made →
        (k.step settings partners (.docs directory classPath)).outputs = output :: k.outputs) ∧
      (fs.node? output = none →
        output ∉ k.outputs ∧
        (∀ q node, fs.node? q = some node → q ≠ listAt source → after.node? q = some node) ∧
        (∀ o ∈ k.outputs, ¬ o <+: output → ¬ o <+: source →
          ∀ q, o <+: q → after.node? q = fs.node? q) ∧
        ∀ place text n, answer.result = .ok (.written place true text n) →
          ∃ files call content, .helper .docsTool call ∈ answer.calls ∧
            (partners.docs.docsTool files call).written = some content ∧
            after.read (indexOf output) = .ok content) ∧
      (fs.isDirectory (pathOf output) = true →
        fs.node? output = some .directory ∧ fs.makeDirectories (pathOf output) = .ok fs) := by
  intro k fs answer after
  have hstands : k.Stands := stands_run hs events hchanges
  have hany := alters_generate hstands.sound partners.docs settings
    (partners.names k.session.namesUsed) directory classPath
  refine ⟨fun o ho => ⟨hstands.outputs o ho, hany.directory (hstands.outputs o ho)⟩,
    fun source output huses houtput hlist => ⟨?_, ?_, ?_⟩⟩
  · intro made hmake
    have hmade := huses.outputMade?_eq hstands.sound houtput hmake classPath
    simp only [Ledger.step, hmade, Option.toList_some, List.singleton_append]
  · intro hfresh
    have hpage := Uses.not_isLink_page_of_fresh hstands.sound hfresh
    refine ⟨?_, ?_, ?_, ?_⟩
    · intro hmem
      cases hfresh.symm.trans (hstands.outputs output hmem)
    · exact fun q node hq hne => huses.node?_of_fresh hstands.sound houtput hlist hfresh hq hne
    · exact fun o ho hoOutput hoSource q hq =>
        huses.node?_below hstands.sound houtput hlist hpage (hstands.outputs o ho) hoOutput
          hoSource hq
    · intro place text n hresult
      have hrun : (generate partners.docs settings fs (partners.names k.session.namesUsed)
          directory classPath).result = .ok (.written place true text n) :=
        eq_ok_of_mapError hresult
      obtain ⟨files, call, content, hcall, hwritten, hread⟩ :=
        huses.page_of_fresh hstands.sound houtput hlist hfresh hrun
      exact ⟨files, call, content, List.mem_map.mpr ⟨_, hcall, rfl⟩, hwritten, hread⟩
  · intro hdirectory
    obtain ⟨hshort, hnode⟩ := (hstands.sound.isDirectory_pathOf houtput).mp hdirectory
    exact ⟨hnode, hstands.sound.makeDirectories_of_directory hshort hnode⟩

/-- Tools that reply in the same way, and names that are drawn one after the other. -/
def partnersNaming (docs : Reply) (names : List String) : Service.Partners :=
  ⟨default, partnersReplying default docs, fun n => names.getD n ""⟩

/-- A main page that the tool writes. -/
def firstPage : Reply := ⟨.ok ⟨some 0, "", false⟩, some [1]⟩

/-- Two runs with different names write to different directories, and the page of each is
its own. -/
theorem outputs_apart_twice :
    let partners := partnersNaming firstPage ["1", "2"]
    let s := Session.ofFiles sourceTree
    let k := Ledger.run {} partners s [.docs "src" none]
    let output : Location := ["generated-javadoc", "docs-2"]
    k.outputs = [["generated-javadoc", "docs-1"]] ∧ output ∉ k.outputs ∧
      (k.step {} partners (.docs "src" none)).outputs =
        [output, ["generated-javadoc", "docs-1"]] ∧
      ∃ content, (k.session.docs {} partners "src" none).session.files.read (indexOf output) =
        .ok content := by
  intro partners s k output
  have houtputs : k.outputs = [["generated-javadoc", "docs-1"]] := by decide +kernel
  have hsound : s.files.Sound := sound_sourceTree
  have hchanges : ∀ files, Event.change files ∈ [Event.docs "src" none] → files.Sound := by
    simp
  have hfresh : k.session.files.node? output = none := by decide +kernel
  have hbase : k.session.files.node? ["generated-javadoc"] = some .directory := by
    decide +kernel
  have hlist : k.session.files.node? (listAt ["src"]) = none := by decide +kernel
  have hsettled : k.session.files.Settled output :=
    ((stands_run hsound _ hchanges).sound.settled hbase).snoc (by decide)
      (not_isLink_of_none hfresh)
  have huses : Uses {} k.session.files (partners.names k.session.namesUsed) "src" ["src"]
      output :=
    ⟨by decide, by decide +kernel, by decide +kernel, by decide +kernel, by decide +kernel,
      by decide +kernel, by decide +kernel⟩
  have hmakes : (k.session.files.makeDirectories (pathOf output)).toOption.isSome = true := by
    decide +kernel
  obtain ⟨made, hmake⟩ : ∃ made, k.session.files.makeDirectories (pathOf output) = .ok made := by
    cases hmake : k.session.files.makeDirectories (pathOf output) with
    | ok made => exact ⟨made, rfl⟩
    | error f =>
        rw [hmake] at hmakes
        cases hmakes
  have hresult : (k.session.docs {} partners "src" none).result =
      .ok (.written output true "" 1) := by
    decide +kernel
  obtain ⟨-, hlaw⟩ := outputs_apart {} partners hsound [.docs "src" none] hchanges "src" none
  obtain ⟨hmade, hapart, -⟩ := hlaw ["src"] output huses hsettled (not_isLink_of_none hlist)
  obtain ⟨hother, -, -, hpage⟩ := hapart hfresh
  obtain ⟨-, -, content, -, -, hread⟩ := hpage _ _ _ hresult
  refine ⟨houtputs, hother, ?_, content, hread⟩
  rw [hmade made hmake, houtputs]

/-- Two runs with the same name write to one directory.  If the tool writes no page in the
second run, the page of the first one is taken for it. -/
theorem output_shared :
    let shared : Location := ["generated-javadoc", "docs-1"]
    let s := Session.ofFiles sourceTree
    let twice := Ledger.run {} (partnersNaming firstPage ["1", "1"]) s
      [.docs "src" none, .docs "src" none]
    let first := Ledger.run {} (partnersNaming firstPage ["1", "1"]) s [.docs "src" none]
    let silent := partnersNaming ⟨.ok ⟨some 0, "", false⟩, none⟩ ["1", "1"]
    twice.outputs = [shared, shared] ∧
      first.session.files.read (indexOf shared) = .ok [1] ∧
      (first.session.docs {} silent "src" none).result = .ok (.written shared true "" 1) := by
  intro shared s twice first silent
  exact ⟨by decide +kernel, by decide +kernel, by decide +kernel⟩

end

end JavaAtlas.ApiDocs

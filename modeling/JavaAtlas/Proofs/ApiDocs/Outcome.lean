import JavaAtlas.ApiDocs.Generate
import JavaAtlas.Proofs.ApiDocs.Additions
import JavaAtlas.Proofs.Diagram.Answering
import JavaAtlas.Proofs.Storage.Resolution

/-!
# What comes of a request for documentation

A request is rejected, has nothing to document, or ends as the tool does.  In the first two
cases nothing is done at all.  Otherwise the tool is called once, and there is
documentation exactly if it was a success.  What does not hold is that every argument that
leads to no directory is rejected: a name that is too long ends the request with the fault
of its look-up.  And a call that breaks off ends the request without the report of the tool.

Main definitions:

- `Prepared`: the state of the work when the tool is called.
- `Answered`: the reply of the tool, and the files that it left.
- `ClaimsSuccess`: the messages that claim success.

Main results:

- Theorem `exists_docsOf_ok_iff`, `docsOf_of_failure`: what the outcome of the tool decides.
- Theorem `exists_directory_of_asked`: a directory is resolved to where it stands.
- Theorem `generate_law`: what comes of every request.
-/

namespace JavaAtlas.ApiDocs

open Config (DocsSettings)
open Storage FileSystem
open Tool (Breach Call Outcome)

/-! ## The outcome of the tool -/

/-- The message says that documentation was generated. -/
def ClaimsSuccess (message : String) : Prop :=
  "Javadoc generated successfully".toList <+: message.toList

/-- A message claims success exactly if there is a main page. -/
theorem claimsSuccess_written {output : Location} {hasIndex : Bool} {text : String} {n : Nat} :
    ClaimsSuccess (Docs.written output hasIndex text n).message ↔ hasIndex = true := by
  unfold ClaimsSuccess
  cases hasIndex with
  | true =>
      have hmessage : (Docs.written output true text n).message =
          "Javadoc generated successfully" ++ (" at: " ++ (pathOf output).text) := by
        rw [← String.append_assoc]
        rfl
      rw [hmessage, String.toList_append]
      exact iff_of_true (List.prefix_append _ _) rfl
  | false =>
      have hmessage : (Docs.written output false text n).message =
          "Javadoc process completed, but main index file might be missing. " ++
            ("Check logs and output at: " ++ (pathOf output).text) := by
        rfl
      rw [hmessage, String.toList_append]
      refine iff_of_false (fun h => ?_) Bool.false_ne_true
      -- the two messages differ where the first one goes on with the generation
      have hprefix := List.prefix_of_prefix_length_le h (List.prefix_append _ _) (by decide)
      exact absurd hprefix (by decide)

section

variable {fs : FileSystem} {timeout : Int} {output : Location} {n : Nat} {o : Outcome}

/-- There is documentation exactly if the tool was a success, and it can be told whether
there is a main page. -/
theorem exists_docsOf_ok_iff :
    (∃ d, docsOf fs timeout output n o = .ok d) ↔
      o.exit = some 0 ∧ ∃ isFile, fs.askFile (indexOf output) = .ok isFile := by
  unfold docsOf
  rw [← Outcome.isOk_iff]
  cases o.isOk <;> cases fs.askFile (indexOf output) <;> simp

/-- Documentation is that of this run. -/
theorem of_docsOf_ok {d : Docs} (h : docsOf fs timeout output n o = .ok d) :
    d.output? = some output ∧ d.fileCount = n ∧ d.toolOutput = o.output ∧
      (ClaimsSuccess d.message ↔ fs.askFile (indexOf output) = .ok true) := by
  unfold docsOf at h
  split at h
  case isFalse => cases h
  case isTrue =>
    split at h
    case h_1 => cases h
    case h_2 hasIndex hask =>
      cases h
      refine ⟨rfl, rfl, rfl, ?_⟩
      rw [claimsSuccess_written, hask, Except.ok.injEq]

/-- Documentation comes only from a tool that came to an outcome. -/
theorem exists_docsOf_of_docsAfter_ok {ending : Except Breach Outcome} {d : Docs}
    (h : docsAfter fs timeout output n ending = .ok d) :
    ∃ o, ending = .ok o ∧ docsOf fs timeout output n o = .ok d := by
  cases ending with
  | error b => cases h
  | ok o => exact ⟨o, rfl, h⟩

/-- The message of a failure gives the reason: time ran out, the tool did not run to its
end, or it ended with a number. -/
theorem toolMessage_eq :
    toolMessage timeout o =
        "Javadoc generation " ++ toolReason timeout o ++ ". Check logs for details." ∧
      (o.timedOut = true → toolReason timeout o = s!"timed out after {timeout}s") ∧
      (o.timedOut = false → o.exit = none → toolReason timeout o = "could not be started") ∧
      (∀ m, o.timedOut = false → o.exit = some m →
        toolReason timeout o = s!"failed with exit code {m}") := by
  refine ⟨rfl, fun htime => ?_, fun htime hexit => ?_, fun m htime hexit => ?_⟩
  · rw [toolReason, if_pos htime]
  · simp [toolReason, htime, hexit]
  · simp [toolReason, htime, hexit]

/-- The failure of the tool is reported with its outcome. -/
theorem docsOf_of_failure (h : o.exit ≠ some 0) :
    docsOf fs timeout output n o = .error (.tool timeout o) := by
  have hok : ¬ o.isOk = true := fun hok => h ((Outcome.isOk_iff o).mp hok)
  rw [docsOf, if_neg hok]

end

/-! ## The work before and after the tool -/

/-- All is prepared for the tool: it is known where the documentation goes, the directories
are made, and the class path was found. -/
structure Prepared (partners : Partners) (s : DocsSettings) (fs : FileSystem) (id : String)
    (source : Location) (classPath : Option String) (output : Location) (work : Work String)
    (effective : String) : Prop where
  place : fs.resolve ((Path.ofText s.outputBase).child (outputName id)) = .ok output
  asked : ∃ made, fs.makeDirectories (pathOf output) = .ok made ∧
    work = fullClassPath partners made (pathOf source) classPath s.mavenCommand s.mavenTimeout
  found : work.result = .ok effective

/-- The tool replied to the call, and these are the files that it left. -/
structure Answered (partners : Partners) (files : FileSystem) (call : Call) (output : Location)
    (reply : Reply) (left : FileSystem) : Prop where
  answer : partners.docsTool files call = reply
  stored : reply.store files (indexOf output) = .ok left

section

variable {partners : Partners} {s : DocsSettings} {fs left : FileSystem} {id directory : String}
  {source output : Location} {classPath : Option String} {work : Work String}
  {effective : String} {files : List Path} {reply : Reply}

/-- The class path is asked of the build tool alone. -/
theorem helper_of_mem_calls {root : Path} {given : Option String} {usual : String}
    {timeout : Int} {c : Helper × Call}
    (h : c ∈ (fullClassPath partners fs root given usual timeout).calls) :
    c.1 = .buildTool := by
  unfold fullClassPath at h
  split at h
  case h_1 => cases h
  case h_2 => cases h
  case h_3 =>
    split at h
    case h_1 => cases h
    case h_2 program _ =>
      replace h : c ∈ (dependencies partners fs root program timeout).calls := h
      unfold dependencies at h
      dsimp only at h
      split at h
      case h_1 => rw [List.mem_singleton.mp h]
      case h_2 =>
        split at h
        case h_1 => rw [List.mem_singleton.mp h]
        case h_2 =>
          rw [collectList_calls] at h
          rw [List.mem_singleton.mp h]

/-- What is prepared is done with one call of the tool. -/
theorem Prepared.documentFiles_eq
    (h : Prepared partners s fs id source classPath output work effective)
    (hanswer : Answered partners work.files (docsCall s source output files effective) output
      reply left) :
    documentFiles partners s fs source files (outputName id) classPath =
      ⟨docsAfter left s.timeout output files.length reply.ending,
        work.calls ++ [(.docsTool, docsCall s source output files effective)], left, true⟩ := by
  obtain ⟨made, hmade, hwork⟩ := h.asked
  simp only [documentFiles, h.place, hmade, ← hwork, h.found, callTool, hanswer.answer,
    hanswer.stored]

theorem Prepared.filter_calls
    (h : Prepared partners s fs id source classPath output work effective) (call : Call) :
    (work.calls ++ [(Helper.docsTool, call)]).filter (fun c => c.1 = .docsTool) =
      [(.docsTool, call)] := by
  obtain ⟨made, -, hwork⟩ := h.asked
  have hbefore : work.calls.filter (fun c => c.1 = .docsTool) = [] := by
    rw [List.filter_eq_nil_iff]
    intro c hc
    rw [hwork] at hc
    simp [helper_of_mem_calls hc]
  rw [List.filter_append, hbefore]
  rfl

/-- The command ends with the files, and does not depend on them otherwise. -/
theorem docsCommand_eq_append (s : DocsSettings) (source output : Path) (files : List Path)
    (effective : String) :
    docsCommand s source output files effective =
      docsCommand s source output [] effective ++ files.map Path.text := by
  simp only [docsCommand, List.map_nil, List.append_nil]

/-! ## The directory -/

/-- A text that leads to a directory stands for the location of that one, unless resolution
could not look up all names on its way. -/
theorem exists_directory_of_asked (h : fs.askDirectory (Path.ofText directory) = .ok true) :
    ∃ l, fs.locate true (Path.ofText directory) = .ok l ∧ fs.node? l = some .directory ∧
      (fs.Formed → (fs.resolved (Path.ofText directory)).blind = false →
        fs.resolve (Path.ofText directory) = .ok l) := by
  have hstatus := isDirectory_iff.mp (askDirectory_eq_ok_true_iff.mp h)
  obtain ⟨l, hlocate, hnode⟩ := nodeAt_eq_ok_iff.mp (status_eq_ok_iff.mp hstatus).2
  exact ⟨l, hlocate, hnode, fun hs hseen => hs.resolve_of_locate hlocate hseen⟩

/-- What lies below the location that it is resolved to is documented. -/
theorem generate_of_resolve (hne : directory ≠ "")
    (h : fs.askDirectory (Path.ofText directory) = .ok true)
    (hresolve : fs.resolve (Path.ofText directory) = .ok source) :
    generate partners s fs id directory classPath =
      documentBelow partners s fs id directory source classPath := by
  simp only [generate, if_neg hne, h, hresolve]

theorem generate_of_unresolved {e : Unresolved} (hne : directory ≠ "")
    (h : fs.askDirectory (Path.ofText directory) = .ok true)
    (hresolve : fs.resolve (Path.ofText directory) = .error e) :
    generate partners s fs id directory classPath = .idle fs (.error (.unresolved e)) := by
  simp only [generate, if_neg hne, h, hresolve]

theorem generate_of_noDirectory
    (h : directory = "" ∨ fs.askDirectory (Path.ofText directory) = .ok false) :
    generate partners s fs id directory classPath = .idle fs (.error (.noDirectory directory)) := by
  unfold generate
  split
  case isTrue => rfl
  case isFalse hne =>
    have hask := h.resolve_left hne
    simp only [hask]

theorem generate_of_fault {f : FileFault} (hne : directory ≠ "")
    (h : fs.askDirectory (Path.ofText directory) = .error f) :
    generate partners s fs id directory classPath = .idle fs (.error (.step (.file f))) := by
  simp only [generate, if_neg hne, h]

end

/-! ## Every request -/

/-- A text that leads to no directory is rejected, and a directory without source files
gives an answer without documentation; in both cases nothing is done.  All other
directories are documented with one call of the tool, in the directory itself and with the
files of the walk in its order.  If the tool comes to an outcome, there is documentation
exactly if it exits with zero, as far as it can be told whether there is a main page;
otherwise the outcome of the tool is reported.  A call that breaks off ends the request, with
the directories that were made for it.  Texts that cannot be resolved, and texts and entries
of which it cannot be told where they lead, end the request before anything is done. -/
theorem generate_law (partners : Partners) (s : DocsSettings) (fs : FileSystem)
    (id directory : String) (classPath : Option String) :
    let asked := fs.askDirectory (Path.ofText directory)
    let run := generate partners s fs id directory classPath
    (directory = "" ∨ asked = .ok false → run = .idle fs (.error (.noDirectory directory))) ∧
    (∀ f, directory ≠ "" → asked = .error f → run = .idle fs (.error (.step (.file f)))) ∧
    (directory ≠ "" → asked = .ok true →
      (∃ l, fs.locate true (Path.ofText directory) = .ok l ∧ fs.node? l = some .directory ∧
        (fs.Formed → (fs.resolved (Path.ofText directory)).blind = false →
          fs.resolve (Path.ofText directory) = .ok l)) ∧
      (∀ e, fs.resolve (Path.ofText directory) = .error e →
        run = .idle fs (.error (.unresolved e))) ∧
      ∀ source, fs.resolve (Path.ofText directory) = .ok source →
        let fault := Source.walkFault? fs (pathOf source) sourceExtension
        let files := Source.sourceFiles fs (pathOf source) sourceExtension
        (∀ f, fault = some f → run = .idle fs (.error (.step (.file f)))) ∧
        (fault = none → files = [] →
          ∃ d, run = .idle fs (.ok d) ∧ d.output? = none ∧ d.fileCount = 0) ∧
        (fault = none → files ≠ [] → ∀ output work effective reply left,
          let call := docsCall s source output files effective
          Prepared partners s fs id source classPath output work effective →
          Answered partners work.files call output reply left →
          call.directory = (pathOf source).text ∧
          call.command = docsCommand s (pathOf source) (pathOf output) [] effective ++
            files.map Path.text ∧
          run.calls = work.calls ++ [(.docsTool, call)] ∧
          run.calls.filter (fun c => c.1 = .docsTool) = [(.docsTool, call)] ∧
          run.files = left ∧
          (∀ b, reply.ending = .error b → run.result = .error (.step (.breach b))) ∧
          ∀ o, reply.ending = .ok o →
          ((∃ d, run.result = .ok d) ↔ o.exit = some 0 ∧
            ∃ isFile, left.askFile (indexOf output) = .ok isFile) ∧
          (∀ d, run.result = .ok d →
            d.output? = some output ∧ d.fileCount = files.length ∧ d.toolOutput = o.output ∧
            (ClaimsSuccess d.message ↔ left.askFile (indexOf output) = .ok true)) ∧
          (o.exit ≠ some 0 →
            run.result = .error (.tool s.timeout o) ∧
            ∃ reason, toolMessage s.timeout o =
                "Javadoc generation " ++ reason ++ ". Check logs for details." ∧
              (o.timedOut = true → reason = s!"timed out after {s.timeout}s") ∧
              (o.timedOut = false → o.exit = none → reason = "could not be started") ∧
              (∀ n, o.timedOut = false → o.exit = some n →
                reason = s!"failed with exit code {n}")))) := by
  intro asked run
  refine ⟨generate_of_noDirectory, fun f hne hask => generate_of_fault hne hask,
    fun hne hask => ⟨exists_directory_of_asked hask,
      fun e hresolve => generate_of_unresolved hne hask hresolve, fun source hresolve => ?_⟩⟩
  have hrun : run = documentBelow partners s fs id directory source classPath :=
    generate_of_resolve hne hask hresolve
  refine ⟨?_, ?_, ?_⟩
  · intro f hfault
    simp only [run, hrun, documentBelow, hfault]
  · intro hfault hfiles
    refine ⟨.nothing directory, ?_, rfl, rfl⟩
    simp only [run, hrun, documentBelow, hfault, hfiles, List.isEmpty_nil, if_true]
  · intro hfault hfiles output work effective reply left call hprepared hanswer
    have hempty : (Source.sourceFiles fs (pathOf source) sourceExtension).isEmpty = false :=
      List.isEmpty_eq_false_iff.mpr hfiles
    have hdone : run = ⟨docsAfter left s.timeout output
        (Source.sourceFiles fs (pathOf source) sourceExtension).length reply.ending,
        work.calls ++ [(.docsTool, call)], left, true⟩ := by
      simp only [run, hrun, documentBelow, hfault, hempty, Bool.false_eq_true, if_false]
      exact hprepared.documentFiles_eq hanswer
    rw [hdone]
    refine ⟨rfl, docsCommand_eq_append _ _ _ _ _, rfl, hprepared.filter_calls call, rfl,
      fun b hb => ?_, fun o ho => ?_⟩
    · rw [hb]
      rfl
    · rw [ho]
      exact ⟨exists_docsOf_ok_iff, fun d => of_docsOf_ok,
        fun hexit => ⟨docsOf_of_failure hexit, _, toolMessage_eq⟩⟩

/-- A directory with one source file. -/
def sourceTree : FileSystem :=
  { entries := [(["src"], .directory), (["src", "A.java"], .file [] newMode)]
    workingDirectory := [] }

theorem sound_sourceTree : sourceTree.Sound := by
  refine sound_of_entries rfl ?_
  decide +kernel

theorem sourceFiles_sourceTree :
    Source.sourceFiles sourceTree (pathOf ["src"]) sourceExtension =
      [pathOf ["src", "A.java"]] := by
  have hnames : Source.listedNames sourceTree ["src"] = ["A.java"] :=
    Source.listedNames_eq rfl rfl (by decide)
  have hdepth : Source.depthBound sourceTree = 3 := rfl
  rw [Source.sourceFiles_pathOf sound_sourceTree (by decide) rfl, hdepth,
    Source.filesBelow_succ_eq ["A.java"] [] hnames rfl rfl]
  rfl

/-- A tool that exits with zero and leaves a main page documents a directory. -/
theorem generate_law_sourceTree :
    let docs : Reply := ⟨.ok ⟨some 0, "done", false⟩, some []⟩
    let run := generate (partnersReplying default docs) {} sourceTree "1" "src" none
    (∃ call, run.calls = [(.docsTool, call)]) ∧
      ∃ d, run.result = .ok d ∧ d.fileCount = 1 ∧ ClaimsSuccess d.message := by
  intro docs run
  let output : Location := ["generated-javadoc", "docs-1"]
  let made := (sourceTree.put ["generated-javadoc"] .directory).put output .directory
  let left := made.put (output ++ ["index.html"]) (.file [] newMode)
  let work : Work String := ⟨.ok "", [], made⟩
  have hask : sourceTree.askDirectory (Path.ofText "src") = .ok true := by
    decide +kernel
  have hplace : sourceTree.resolve (Path.ofText "src") = .ok ["src"] := by
    decide +kernel
  obtain ⟨-, -, hbelow⟩ :=
    (generate_law (partnersReplying default docs) {} sourceTree "1" "src" none).2.2
      (by decide) hask
  obtain ⟨-, -, hrun⟩ := hbelow ["src"] hplace
  have hfault : Source.walkFault? sourceTree (pathOf ["src"]) sourceExtension = none := by
    refine Source.walkFault?_pathOf_eq_none sound_sourceTree rfl (linksShort_of_entries ?_)
      (by decide)
    simp [sourceTree]
  rw [sourceFiles_sourceTree] at hrun
  have hprepared : Prepared (partnersReplying default docs) {} sourceTree "1" ["src"] none output
      work "" := by
    have hproject : made.askFile (descriptionOf (pathOf ["src"])) = .ok false := by
      decide +kernel
    refine ⟨by decide +kernel, ⟨made, rfl, ?_⟩, rfl⟩
    rw [fullClassPath_of_no_description hproject]
    rfl
  have hanswered : Answered (partnersReplying default docs) made
      (docsCall {} ["src"] output [pathOf ["src", "A.java"]] "") output docs left :=
    ⟨rfl, rfl⟩
  obtain ⟨-, -, hcalls, -, -, -, hended⟩ :=
    hrun hfault (List.cons_ne_nil _ _) output work "" docs left hprepared hanswered
  obtain ⟨hok, hdocs, -⟩ := hended _ rfl
  have hindex : left.askFile (indexOf output) = .ok true := by
    decide +kernel
  obtain ⟨d, hd⟩ := hok.mpr ⟨rfl, true, hindex⟩
  obtain ⟨-, hcount, -, hclaims⟩ := hdocs d hd
  exact ⟨⟨_, hcalls⟩, d, hd, hcount, hclaims.mpr hindex⟩

/-! ## Arguments that are not rejected -/

open Diagram (nameOfLength ofText_nameOfLength isOverlong_nameOfLength)

/-- A name of 256 octets leads to no directory, but is not rejected as such. -/
theorem longName_not_rejected :
    let run := generate (partnersReplying default default) {} sourceTree "1" (nameOfLength 256) none
    sourceTree.isDirectory (Path.ofText (nameOfLength 256)) = false ∧
      (∃ f, run.result = .error (.step (.file f))) ∧
      run.result ≠ .error (.noDirectory (nameOfLength 256)) := by
  intro run
  have hlong := isOverlong_nameOfLength
  have hne : nameOfLength 256 ≠ "" := by
    intro heq
    rw [heq] at hlong
    exact absurd hlong (by decide)
  have hask : sourceTree.askDirectory (Path.ofText (nameOfLength 256)) =
      .error ⟨.nameTooLong, (⟨.here, [nameOfLength 256]⟩ : Path).text⟩ := by
    rw [ofText_nameOfLength]
    exact sound_sourceTree.ask_of_isOverlong hlong
  have hrun : run = .idle sourceTree
      (.error (.step (.file ⟨.nameTooLong, (⟨.here, [nameOfLength 256]⟩ : Path).text⟩))) :=
    generate_of_fault hne hask
  rw [hrun]
  refine ⟨?_, ⟨_, rfl⟩, ?_⟩
  · rw [isDirectory, ofText_nameOfLength, status, sound_sourceTree.nodeAt_of_isOverlong hlong,
      ite_self]
  · simp [Run.idle]

end JavaAtlas.ApiDocs

import JavaAtlas.CommandLine.Run
import JavaAtlas.Proofs.Storage.Status
import JavaAtlas.Proofs.Text.Streams
import JavaAtlas.Proofs.Yaml.Problems

/-!
# Configurations that cannot be used

A configuration that cannot be used is to be reported as such.  Where loading fails, this
holds for broken documents and for values of the wrong kind.  It does not hold for files
that are no text, for escapes without a character, for scalars that are not written as
their tag asks, for documents that exhaust the stack, for sections that cannot take an
override, and where it cannot be told whether there is a file.

Main definitions:

- `TakesOverrides`: the sections that can take an override.
- `World.Orderly`: what makes every failure be reported.
- `World.IsAnswered`: there are settings, or a report.

Main results:

- Theorem `exists_override_iff`: the documents whose overrides can be carried out.
- Theorem `loading_outcome`: what loading and command lines make of any world.
-/

namespace JavaAtlas.Config

open Storage FileSystem
open Text.Utf8 (Bytes encode decodeStream)
open Yaml (Value Node LoadError)

/-! ## Overrides -/

/-- The section of a document is missing, counts for nothing, or is a mapping. -/
def TakesOverrides (document : Pairs) (name : String) : Prop :=
  ∀ v, valueAt? document name = some v → isEmptyValue v = true ∨ ∃ ps, v = .mapping ps

/-- The variable of an override has a value that counts. -/
def IsGiven (env : Environment) (o : Override) : Prop :=
  ∃ value, env.get? o.variableName = some value ∧ value ≠ ""

theorem exists_pairsForOverride_iff {v : Value} :
    (∃ ps, pairsForOverride v = .ok ps) ↔ isEmptyValue v = true ∨ ∃ ps, v = .mapping ps := by
  unfold pairsForOverride
  split
  case h_1 ps => simp
  case h_2 hne =>
    have hnone : ¬ ∃ ps, v = .mapping ps := fun ⟨ps, hps⟩ => hne ps hps
    cases isEmptyValue v <;> simp [hnone]

/-- A section takes an override exactly if that does not fail. -/
theorem takesOverrides_iff {document : Pairs} {name : String} :
    TakesOverrides document name ↔
      ∃ ps, pairsForOverride ((valueAt? document name).getD .null) = .ok ps := by
  rw [exists_pairsForOverride_iff, TakesOverrides]
  cases valueAt? document name with
  | none => simp [isEmptyValue]
  | some v => simp

/-- A pair behind a document gives the value of its key. -/
theorem valueAt?_append (document : Pairs) (name other : String) (v : Value) :
    valueAt? (document ++ [(.text name, v)]) other =
      if name = other then some v else valueAt? document other := by
  by_cases h : name = other <;> simp [valueAt?, isKey, h]

/-- What an override makes of a document that it can be carried out in. -/
theorem exists_applyOverride_iff {env : Environment} {document : Pairs} {o : Override} :
    (∃ document', applyOverride env document o = .ok document') ↔
      (IsGiven env o → TakesOverrides document o.sectionName) := by
  unfold applyOverride IsGiven
  cases env.get? o.variableName with
  | none => simp
  | some value =>
      by_cases hvalue : value = ""
      case pos => simp [hvalue]
      case neg =>
        rw [takesOverrides_iff]
        cases pairsForOverride ((valueAt? document o.sectionName).getD .null) <;>
          simp [hvalue, bind, Except.bind, pure, Except.pure]

/-- An override leaves it open to all sections to take others. -/
theorem takesOverrides_applyOverride {env : Environment} {document document' : Pairs}
    {o : Override} (h : applyOverride env document o = .ok document') (name : String) :
    TakesOverrides document' name ↔ TakesOverrides document name := by
  unfold applyOverride at h
  split at h
  · cases h
    rfl
  · split at h
    · cases h
      rfl
    · cases hpairs : pairsForOverride ((valueAt? document o.sectionName).getD .null) with
      | error kind => simp [hpairs, bind, Except.bind] at h
      | ok pairs =>
          have htakes : TakesOverrides document o.sectionName :=
            takesOverrides_iff.mpr ⟨pairs, hpairs⟩
          simp only [hpairs, bind, Except.bind, pure, Except.pure, Except.ok.injEq] at h
          rw [← h]
          by_cases hsection : o.sectionName = name
          case pos =>
            rw [← hsection]
            refine iff_of_true (fun v hv => ?_) htakes
            rw [valueAt?_append, if_pos rfl, Option.some.injEq] at hv
            exact .inr ⟨_, hv.symm⟩
          case neg => simp only [TakesOverrides, valueAt?_append, if_neg hsection]

/-- Overrides can be carried out exactly if each section that one of them is given for
takes it. -/
theorem exists_foldlM_applyOverride_iff {env : Environment} (os : List Override)
    (document : Pairs) :
    (∃ document', os.foldlM (applyOverride env) document = .ok document') ↔
      ∀ o ∈ os, IsGiven env o → TakesOverrides document o.sectionName := by
  induction os generalizing document with
  | nil => simp [pure, Except.pure]
  | cons o os ih =>
      rw [List.forall_mem_cons, List.foldlM_cons, ← exists_applyOverride_iff]
      cases hstep : applyOverride env document o with
      | error kind => simp [bind, Except.bind]
      | ok document' =>
          -- the sections of the new document take what those of the old one take
          have hsections : ∀ o' : Override, TakesOverrides document' o'.sectionName ↔
              TakesOverrides document o'.sectionName := fun o' =>
            takesOverrides_applyOverride hstep o'.sectionName
          simp only [bind, Except.bind, ih, hsections]
          simp

theorem exists_override_iff {env : Environment} {document : Pairs} :
    (∃ document', override env document = .ok document') ↔
      ∀ o ∈ overrides, IsGiven env o → TakesOverrides document o.sectionName :=
  exists_foldlM_applyOverride_iff overrides document

/-! ## The file -/

/-- The content of the configuration file, if it can be read. -/
def World.content? (w : World) : Option Bytes :=
  (w.files.read w.file).toOption

theorem World.content?_eq_some_iff {w : World} {content : Bytes} :
    w.content? = some content ↔ w.files.read w.file = .ok content := by
  unfold World.content?
  cases w.files.read w.file <;> simp [Except.toOption]

/-- Without a file there is an empty document. -/
theorem World.document_of_no_file {w : World} (h : w.files.askFile w.file = .ok false) :
    w.document = .ok [] ∧ w.content? = none := by
  refine ⟨by simp only [document, h], ?_⟩
  rw [Option.eq_none_iff_forall_ne_some]
  intro content hcontent
  exact read_ne_ok_of_askFile h content (World.content?_eq_some_iff.mp hcontent)

/-- With a file the document is the one that its content holds, if it may be read. -/
theorem World.document_of_file {w : World} (h : w.files.askFile w.file = .ok true) :
    w.document = match w.content? with
      | some content => w.pairsOfFile content
      | none => .error (.unreadable w.file) := by
  unfold World.content?
  cases hread : w.files.read w.file <;> simp [document, h, hread, Except.toOption]

/-- Of the faults of a document only broken rules are reported. -/
theorem LoadFailure.isReported_ofLoadError {file : Path} {e : LoadError} :
    (LoadFailure.ofLoadError file e).isReported = true ↔ e = .malformed := by
  cases e <;> simp [LoadFailure.ofLoadError, LoadFailure.isReported]

/-- What a text is read as. -/
theorem pairsOfContent_encode (file : Path) (text : String) :
    pairsOfContent file (encode text) =
      match Value.load (Text.withLineFeeds text) with
      | .error e => .error (.ofLoadError file e)
      | .ok v => pairsOfDocument file v := by
  have hdecode : decodeStream (encode text) = .ok text :=
    (Text.Utf8.decodeStream_eq_ok_iff _ _).mpr (Text.Utf8.decodeStrict_encode text)
  cases hload : Value.load (Text.withLineFeeds text) <;>
    simp only [pairsOfContent, hdecode, hload]

/-- A document that is no mapping is reported. -/
theorem isReported_of_pairsOfDocument {file : Path} {v : Value} {e : LoadFailure}
    (h : pairsOfDocument file v = .error e) : e.isReported = true := by
  unfold pairsOfDocument at h
  split at h
  · cases h
  · split at h
    · cases h
    · cases h
      rfl

/-! ## Worlds in which every failure is reported -/

/-- It can be told whether there is a file; if the reading of the file stops early, its
rules are broken there, and else the file is text, and where that is well formed, its codes
have characters and its scalars are written as their tags ask; the sections that overrides
are given for can take them. -/
structure World.Orderly (w : World) : Prop where
  status : ∃ isFile, w.files.askFile w.file = .ok isFile
  obstacle : ∀ content o, w.content? = some content → w.obstacle? content = some o →
    o = .fault .malformed
  text : ∀ content, w.content? = some content → w.obstacle? content = none →
    ∃ text, content = encode text
  scalars : ∀ text e, w.content? = some (encode text) → w.obstacle? (encode text) = none →
    Value.load (Text.withLineFeeds text) = .error e → e = .malformed
  sections : ∀ document, w.document = .ok document → ∀ o ∈ overrides,
    IsGiven w.environment o → TakesOverrides document o.sectionName

/-- Evaluation gives settings, or a failure that is reported. -/
def World.IsAnswered (w : World) : Prop :=
  (∃ settings, w.evaluate = .ok settings) ∨
    ∃ e, w.evaluate = .error e ∧ e.isReported = true

theorem World.evaluate_of_document_error {w : World} {e : LoadFailure}
    (h : w.document = .error e) : w.evaluate = .error e := by
  simp [evaluate, h, bind, Except.bind]

/-- Behind the document only an override can fail without a report. -/
theorem World.isAnswered_of_document {w : World} {document : Pairs}
    (h : w.document = .ok document) :
    w.IsAnswered ↔ ∃ document', override w.environment document = .ok document' := by
  unfold World.IsAnswered
  simp only [evaluate, h, bind, Except.bind]
  cases override w.environment document with
  | error kind => simp [Except.mapError, LoadFailure.isReported]
  | ok document' =>
      cases hsettings : settingsOf document' <;>
        simp [Except.mapError, hsettings, LoadFailure.isReported, pure, Except.pure, throw,
          throwThe, MonadExceptOf.throw]

theorem World.isAnswered_of_document_error {w : World} {e : LoadFailure}
    (h : w.document = .error e) : w.IsAnswered ↔ e.isReported = true := by
  simp [World.IsAnswered, World.evaluate_of_document_error h]

/-- In an orderly world a document gives settings, or a failure that is reported. -/
theorem World.Orderly.isAnswered_of_ok {w : World} (h : w.Orderly) {document : Pairs}
    (hd : w.document = .ok document) : w.IsAnswered :=
  (World.isAnswered_of_document hd).mpr (exists_override_iff.mpr (h.sections document hd))

/-- In an orderly world the content of the file gives settings, or a failure that is
reported. -/
theorem World.Orderly.isAnswered_of_pairsOfFile {w : World} (h : w.Orderly) {content : Bytes}
    (hcontent : w.content? = some content) (hdocument : w.document = w.pairsOfFile content) :
    w.IsAnswered := by
  cases hobstacle : w.obstacle? content with
  | some o =>
      cases h.obstacle content o hcontent hobstacle
      rw [World.pairsOfFile, hobstacle] at hdocument
      exact (World.isAnswered_of_document_error hdocument).mpr
        (LoadFailure.isReported_ofLoadError.mpr rfl)
  | none =>
      rw [World.pairsOfFile, hobstacle] at hdocument
      obtain ⟨text, rfl⟩ := h.text content hcontent hobstacle
      replace hdocument := hdocument.trans (pairsOfContent_encode w.file text)
      cases hload : Value.load (Text.withLineFeeds text) with
      | error e =>
          cases h.scalars text e hcontent hobstacle hload
          rw [hload] at hdocument
          exact (World.isAnswered_of_document_error hdocument).mpr
            (LoadFailure.isReported_ofLoadError.mpr rfl)
      | ok v =>
          rw [hload] at hdocument
          replace hdocument : w.document = pairsOfDocument w.file v := hdocument
          cases hpairs : pairsOfDocument w.file v with
          | error e =>
              exact (World.isAnswered_of_document_error (hdocument.trans hpairs)).mpr
                (isReported_of_pairsOfDocument hpairs)
          | ok document => exact h.isAnswered_of_ok (hdocument.trans hpairs)

/-- In an orderly world there are settings, or the failure is reported. -/
theorem World.Orderly.isAnswered {w : World} (h : w.Orderly) : w.IsAnswered := by
  obtain ⟨isFile, hstatus⟩ := h.status
  cases isFile with
  | false => exact h.isAnswered_of_ok (World.document_of_no_file hstatus).1
  | true =>
      have hdocument := World.document_of_file hstatus
      cases hcontent : w.content? with
      | none =>
          rw [hcontent] at hdocument
          exact (World.isAnswered_of_document_error hdocument).mpr rfl
      | some content =>
          rw [hcontent] at hdocument
          exact h.isAnswered_of_pairsOfFile hcontent hdocument

/-- What is read of a file where evaluation gives settings or a report. -/
theorem World.IsAnswered.document_eq {w : World} (h : w.IsAnswered) {content : Bytes}
    (hcontent : w.content? = some content) : w.document = w.pairsOfFile content := by
  cases hask : w.files.askFile w.file with
  | error fault =>
      have hdocument : w.document = .error (.unreachable fault) := by simp only [document, hask]
      have hreported := (World.isAnswered_of_document_error hdocument).mp h
      cases hreported
  | ok isFile =>
      cases isFile with
      | false =>
          rw [(World.document_of_no_file hask).2] at hcontent
          cases hcontent
      | true =>
          rw [World.document_of_file hask, hcontent]

/-- Where there are settings or a report, nothing else can have failed. -/
theorem World.IsAnswered.orderly {w : World} (h : w.IsAnswered) : w.Orderly where
  status := by
    cases hask : w.files.askFile w.file with
    | ok isFile => exact ⟨isFile, rfl⟩
    | error fault =>
        have hdocument : w.document = .error (.unreachable fault) := by
          simp only [document, hask]
        have hreported := (World.isAnswered_of_document_error hdocument).mp h
        cases hreported
  obstacle content o hcontent hobstacle := by
    have hdocument := h.document_eq hcontent
    rw [World.pairsOfFile, hobstacle] at hdocument
    cases o with
    | stack =>
        have hreported := (World.isAnswered_of_document_error hdocument).mp h
        cases hreported
    | fault e =>
        have hreported := (World.isAnswered_of_document_error hdocument).mp h
        rw [LoadFailure.isReported_ofLoadError.mp hreported]
  text content hcontent hobstacle := by
    have hdocument := h.document_eq hcontent
    rw [World.pairsOfFile, hobstacle] at hdocument
    cases hdecode : decodeStream content with
    | ok text =>
        exact ⟨text, Text.Utf8.decodeStrict_eq_ok_iff.mp
          ((Text.Utf8.decodeStream_eq_ok_iff _ _).mp hdecode)⟩
    | error cause =>
        simp only [pairsOfContent, hdecode] at hdocument
        have hreported := (World.isAnswered_of_document_error hdocument).mp h
        cases hreported
  scalars text e hcontent hobstacle hload := by
    have hdocument := h.document_eq hcontent
    rw [World.pairsOfFile, hobstacle] at hdocument
    replace hdocument := hdocument.trans (pairsOfContent_encode w.file text)
    rw [hload] at hdocument
    exact LoadFailure.isReported_ofLoadError.mp
      ((World.isAnswered_of_document_error hdocument).mp h)
  sections document hdocument :=
    exists_override_iff.mp ((World.isAnswered_of_document hdocument).mp h)

/-! ## Command lines -/

open CommandLine

/-- No task breaks off at the configuration. -/
theorem exit_carryOut_ne_config (settings : Settings) (partners : Service.Partners)
    (session : Service.Session) (i : Invocation) (e : LoadFailure) :
    (carryOut settings partners session i).exit ≠ .error (.config e) := by
  have hanswer : ∀ {α : Type} (a : Service.Answer α) (finish : α → Run),
      (∀ r, (finish r).exit ≠ .error (.config e)) →
      (Run.ofAnswer a finish).exit ≠ .error (.config e) := by
    intro α a finish hfinish
    unfold Run.ofAnswer
    cases a.result with
    | ok r => exact hfinish r
    | error failure =>
        simp only [Run.quiet, exitAt]
        cases serviceExit? failure <;> simp
  have hwriting : ∀ files p content,
      (Run.writing files p content).exit ≠ .error (.config e) := by
    intro files p content
    unfold Run.writing
    cases files.write p content <;> simp [Run.quiet]
  unfold carryOut
  cases i.task with
  | serve host port => simp [serve, Run.showing, Run.quiet]
  | docs directory classPath =>
      exact hanswer _ _ fun d => by simp [Run.showing, Run.quiet]
  | diagram directory form output =>
      unfold makeDiagram
      cases form with
      | image f => exact hanswer _ _ fun image => hwriting _ _ _
      | source =>
          refine hanswer _ _ fun d => ?_
          cases output.filter (· != "") with
          | none => simp [Run.showing, Run.quiet]
          | some o => exact hwriting _ _ _

/-- A command line that is understood does nothing where there are no settings.  It ends
with the number for failures if the failure is reported, and breaks off otherwise. -/
theorem run_of_evaluate_error {w : World} {e : LoadFailure} (h : w.evaluate = .error e)
    (partners : Service.Partners) {words : List String} {i : Invocation}
    (hwords : Invocation.ofWords words = .ok i) :
    run w partners words =
      .quiet w.files (if e.isReported then .ok failedExit else .error (.config e)) := by
  simp only [run, hwords, h, configExit?]
  cases e.isReported <;> rfl

/-- No command line breaks off at the configuration of an orderly world. -/
theorem World.Orderly.exit_ne_config {w : World} (h : w.Orderly) (partners : Service.Partners)
    (words : List String) (e : LoadFailure) :
    (run w partners words).exit ≠ .error (.config e) := by
  cases hwords : Invocation.ofWords words with
  | error usage => cases usage <;> simp [run, hwords, Run.quiet]
  | ok i =>
      rcases h.isAnswered with ⟨settings, hevaluate⟩ | ⟨e', hevaluate, hreported⟩
      · simp only [run, hwords, hevaluate]
        exact exit_carryOut_ne_config settings partners _ i e
      · rw [run_of_evaluate_error hevaluate partners hwords, if_pos hreported]
        simp [Run.quiet]

/-! ## Loading in any world -/

/-- Whatever the file holds, however deep a document may be and whichever overrides are
given, an orderly world has settings or a failure that is reported, and no other world has.
What a text has instead of a value, if no rules are broken, is a fault of its codes and
numbers or a scalar that is not written as its tag asks.  Command lines that are understood
end with a number exactly for failures that are reported, without any effect, and never
break off at the configuration of an orderly world. -/
theorem loading_outcome (w : World) :
    (w.Orderly ↔ w.IsAnswered) ∧
    (∀ text e, w.content? = some (encode text) →
      Value.load (Text.withLineFeeds text) = .error e → e ≠ .malformed →
      (∃ fault, Node.scan (Text.withLineFeeds text).toList = .error fault ∧
        fault.toError = e) ∨
      ∃ root n, Node.scan (Text.withLineFeeds text).toList = .ok (some root) ∧
        n.Inside root ∧ Yaml.Construct.Fails n e) ∧
    (∀ partners words i e, Invocation.ofWords words = .ok i → w.evaluate = .error e →
      (run w partners words).calls = [] ∧ (run w partners words).files = w.files ∧
        ((run w partners words).exit = .ok failedExit ↔ e.isReported = true)) ∧
    (w.Orderly → ∀ partners words e, (run w partners words).exit ≠ .error (.config e)) := by
  refine ⟨⟨World.Orderly.isAnswered, World.IsAnswered.orderly⟩, ?_, ?_,
    fun h => h.exit_ne_config⟩
  · intro text e _ hload he
    exact Value.exists_of_load_error hload he
  · intro partners words i e hwords hevaluate
    rw [run_of_evaluate_error hevaluate partners hwords]
    cases e.isReported <;> simp [Run.quiet]

/-! ## Failures that are not reported -/

/-- A world with a configuration file. -/
def worldWithFile (content : Bytes) (env : Environment) : World where
  files :=
    { entries := [(["config"], .directory), (["config", fileName], .file content newMode)]
      workingDirectory := [] }
  environment := env
  usualDirectory := Path.ofText "config"

theorem World.not_isAnswered {w : World} {e : LoadFailure} (h : w.evaluate = .error e)
    (he : e.isReported = false) : ¬ w.IsAnswered := by
  simp [World.IsAnswered, h, he]

/-- A world whose stack is too small for the document. -/
def deepWorld : World where
  __ := worldWithFile (encode "host: [[]]") []
  stops := fun _ => some .stack

/-- Octets that are no text, an escape with a code that no character has, a day of a month
that is none, a document that exhausts the stack, and a section that is a text while an
override is given for it: each breaks off whatever asked for the settings. -/
theorem unreported_failures :
    ¬ (worldWithFile [0xFF] []).IsAnswered ∧
    ¬ (worldWithFile (encode "host: \"\\U00110000\"") []).IsAnswered ∧
    ¬ (worldWithFile (encode "host: 2024-13-01") []).IsAnswered ∧
    ¬ deepWorld.IsAnswered ∧
    ¬ (worldWithFile (encode "uml: x") [("DOCLOOM_ALLOWED_BASE_DIR", "d")]).IsAnswered := by
  have hoctets : (worldWithFile [0xFF] []).evaluate =
      .error (.noText ⟨0, [0xFF], .invalidStart⟩) := by
    decide +kernel
  have hcode : (worldWithFile (encode "host: \"\\U00110000\"") []).evaluate =
      .error (.badScalar (.badCode 0x110000)) := by
    decide +kernel
  have hdate : (worldWithFile (encode "host: 2024-13-01") []).evaluate =
      .error (.badScalar (.impossibleMoment "month must be in 1..12")) := by
    decide +kernel
  have hdepth : deepWorld.evaluate = .error .exhausted := by
    decide +kernel
  have hsection : (worldWithFile (encode "uml: x")
      [("DOCLOOM_ALLOWED_BASE_DIR", "d")]).evaluate = .error (.noSection .text) := by
    decide +kernel
  exact ⟨World.not_isAnswered hoctets rfl, World.not_isAnswered hcode rfl,
    World.not_isAnswered hdate rfl, World.not_isAnswered hdepth rfl,
    World.not_isAnswered hsection rfl⟩

end JavaAtlas.Config

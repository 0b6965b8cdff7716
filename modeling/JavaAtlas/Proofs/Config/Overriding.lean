import JavaAtlas.Proofs.Config.Sections

/-!
# Overrides are exact

A variable that is given changes the one setting that it names and nothing else, wherever
the document has the section of that setting.  So the settings are those of the file with
the given values in place of the ones there, and the order in which the overrides are
carried out makes no difference.  Nor does it if sections of the document are one and the
same mapping, so that an override reaches all of them: no other section has a setting of
that name.

Main definitions:

- `Settings.overriddenBy`: settings with the values that variables give.
- `share`, `applySharing`: overrides of sections that are shared.

Main results:

- Theorem `exists_applySharing`: what one override changes.
- Theorem `exists_foldlM_applySharing`: what overrides in a row change.
- Theorem `overriding_exact`: loading with overrides compared to loading without.
-/

namespace JavaAtlas.Config

open Text.Utf8 (encode)
open Yaml (Value)

/-! ## Settings with overrides -/

/-- The value of a variable that counts. -/
def Environment.given? (env : Environment) (name : String) : Option String :=
  (env.get? name).filter (· ≠ "")

theorem Environment.given?_eq_some_iff {env : Environment} {name value : String} :
    env.given? name = some value ↔ env.get? name = some value ∧ value ≠ "" := by
  simp [given?, Option.filter_eq_some_iff]

theorem Environment.given?_eq_none_iff {env : Environment} {o : Override} :
    env.given? o.variableName = none ↔ ¬ IsGiven env o := by
  simp [given?, Option.filter_eq_none_iff, IsGiven]

/-- Settings with the value that an override gives for its own one. -/
def Settings.overridden (env : Environment) (s : Settings) (o : Override) : Settings :=
  let given := env.given? o.variableName
  match o.settingName with
  | "allowed_base_directory" =>
    { s with diagrams := { s.diagrams with allowedBase := given.or s.diagrams.allowedBase } }
  | "output_base_dir" =>
    { s with docs := { s.docs with outputBase := given.getD s.docs.outputBase } }
  | "command" => { s with docs := { s.docs with command := given.getD s.docs.command } }
  | "maven_command" =>
    { s with docs := { s.docs with mavenCommand := given.getD s.docs.mavenCommand } }
  | "jar_path" =>
    { s with renderer := { s.renderer with jarPath := given.or s.renderer.jarPath } }
  | "server_url" =>
    { s with renderer := { s.renderer with serverUrl := given.getD s.renderer.serverUrl } }
  | _ => s

/-- Settings with the values that variables give; where a variable is not set or is empty,
the setting stays as it is. -/
def Settings.overriddenBy (s : Settings) (env : Environment) : Settings where
  diagrams :=
    { s.diagrams with
      allowedBase := (env.given? "DOCLOOM_ALLOWED_BASE_DIR").or s.diagrams.allowedBase }
  docs :=
    { s.docs with
      outputBase := (env.given? "JAVADOC_OUTPUT_DIR").getD s.docs.outputBase
      command := (env.given? "JAVADOC_COMMAND").getD s.docs.command
      mavenCommand := (env.given? "MAVEN_COMMAND").getD s.docs.mavenCommand }
  renderer :=
    { s.renderer with
      jarPath := (env.given? "PLANTUML_JAR_PATH").or s.renderer.jarPath
      serverUrl := (env.given? "PLANTUML_SERVER_URL").getD s.renderer.serverUrl }
  server := s.server

/-- Every override is one of six. -/
theorem eq_of_mem_overrides {o : Override} (h : o ∈ overrides) :
    o = ⟨"DOCLOOM_ALLOWED_BASE_DIR", "uml", "allowed_base_directory"⟩ ∨
      o = ⟨"JAVADOC_OUTPUT_DIR", "javadoc", "output_base_dir"⟩ ∨
      o = ⟨"JAVADOC_COMMAND", "javadoc", "command"⟩ ∨
      o = ⟨"MAVEN_COMMAND", "javadoc", "maven_command"⟩ ∨
      o = ⟨"PLANTUML_JAR_PATH", "renderer", "jar_path"⟩ ∨
      o = ⟨"PLANTUML_SERVER_URL", "renderer", "server_url"⟩ := by
  simpa only [overrides, List.mem_cons, List.not_mem_nil, or_false] using h

/-- An override that is not given changes nothing. -/
theorem Settings.overridden_of_not_given {env : Environment} {o : Override} (ho : o ∈ overrides)
    (h : env.given? o.variableName = none) (s : Settings) : s.overridden env o = s := by
  rcases eq_of_mem_overrides ho with rfl | rfl | rfl | rfl | rfl | rfl
  all_goals
    simp only [Settings.overridden, h]
    rfl

/-- Overrides may change places. -/
theorem Settings.overridden_comm (env : Environment) {o o' : Override} (ho : o ∈ overrides)
    (ho' : o' ∈ overrides) (s : Settings) :
    (s.overridden env o).overridden env o' = (s.overridden env o').overridden env o := by
  by_cases hsame : o = o'
  · rw [hsame]
  · rcases eq_of_mem_overrides ho with rfl | rfl | rfl | rfl | rfl | rfl
    all_goals rcases eq_of_mem_overrides ho' with rfl | rfl | rfl | rfl | rfl | rfl
    all_goals first | exact absurd rfl hsame | rfl

/-- All overrides together, in any order. -/
theorem Settings.foldl_overridden {os : List Override} (hos : os.Perm overrides)
    (env : Environment) (s : Settings) : os.foldl (overridden env) s = s.overriddenBy env := by
  have hcomm : ∀ o ∈ os, ∀ o' ∈ os, ∀ s : Settings,
      (s.overridden env o).overridden env o' = (s.overridden env o').overridden env o := by
    intro o ho o' ho' s
    exact overridden_comm env (hos.mem_iff.mp ho) (hos.mem_iff.mp ho') s
  rw [hos.foldl_eq' hcomm]
  rfl

/-! ## The pair of an override -/

/-- The pair that an override puts into its section. -/
def Override.pair (o : Override) (value : String) : Value × Value :=
  (.text o.settingName, .text value)

/-- An override that is not given leaves the document as it is. -/
theorem applyOverride_of_not_given {env : Environment} {o : Override}
    (h : env.given? o.variableName = none) (document : Pairs) :
    applyOverride env document o = .ok document := by
  unfold applyOverride
  cases hget : env.get? o.variableName with
  | none => rfl
  | some value =>
      have hempty : value = "" := by
        by_contra hne
        rw [Environment.given?_eq_some_iff.mpr ⟨hget, hne⟩] at h
        cases h
      rw [hempty]
      rfl

/-- An override that is given puts its pair into its section. -/
theorem applyOverride_of_given {env : Environment} {document ps : Pairs} {o : Override}
    {value : String} (hgiven : env.given? o.variableName = some value)
    (hps : pairsForOverride ((valueAt? document o.sectionName).getD .null) = .ok ps) :
    applyOverride env document o =
      .ok (document ++ [(.text o.sectionName, .mapping (ps ++ [o.pair value]))]) := by
  obtain ⟨hget, hne⟩ := Environment.given?_eq_some_iff.mp hgiven
  simp only [applyOverride, hget, if_neg hne, hps, bind, Except.bind, pure, Except.pure]
  rfl

/-- In a section that is read, a pair of another name changes the settings in its own way. -/
theorem Section.Reads.exists_written {α : Type} {x : Section α} {document : Pairs} {a a' : α}
    (h : x.Reads document a) {pair : Value × Value}
    (hpair : ∀ ps, x.read ps = .fine a → x.read (ps ++ [pair]) = .fine a') :
    ∃ ps, pairsForOverride ((valueAt? document x.name).getD .null) = .ok ps ∧
      x.Reads (document ++ [(.text x.name, .mapping (ps ++ [pair]))]) a' := by
  obtain ⟨ps, hps, hread⟩ := h.exists_pairs
  exact ⟨ps, hps, Section.reads_own.mpr (hpair ps hread)⟩

section Pair

variable {ps : Pairs} (value : String)

theorem diagramSettingsOf_base {a : DiagramSettings} (h : diagramSettingsOf ps = .fine a) :
    diagramSettingsOf (ps ++ [(.text "allowed_base_directory", .text value)]) =
      .fine { a with allowedBase := some value } := by
  rw [diagramSettingsOf_eq_fine_iff] at h ⊢
  obtain ⟨-, hextension⟩ := h
  refine ⟨setting_append_own.mpr rfl, ?_⟩
  rwa [setting_append_other (by decide)]

theorem docsSettingsOf_output {a : DocsSettings} (h : docsSettingsOf ps = .fine a) :
    docsSettingsOf (ps ++ [(.text "output_base_dir", .text value)]) =
      .fine { a with outputBase := value } := by
  rw [docsSettingsOf_eq_fine_iff] at h ⊢
  refine ⟨setting_append_own.mpr rfl, ?_⟩
  simpa only [setting_append_other, ne_eq, String.reduceEq, not_false_eq_true] using h.2

theorem docsSettingsOf_command {a : DocsSettings} (h : docsSettingsOf ps = .fine a) :
    docsSettingsOf (ps ++ [(.text "command", .text value)]) =
      .fine { a with command := value } := by
  rw [docsSettingsOf_eq_fine_iff] at h ⊢
  obtain ⟨houtput, -, hrest⟩ := h
  refine ⟨?_, setting_append_own.mpr rfl, ?_⟩
  · rwa [setting_append_other (by decide)]
  · simpa only [setting_append_other, ne_eq, String.reduceEq, not_false_eq_true] using hrest

theorem docsSettingsOf_maven {a : DocsSettings} (h : docsSettingsOf ps = .fine a) :
    docsSettingsOf (ps ++ [(.text "maven_command", .text value)]) =
      .fine { a with mavenCommand := value } := by
  rw [docsSettingsOf_eq_fine_iff] at h ⊢
  obtain ⟨houtput, hcommand, -, hrest⟩ := h
  refine ⟨?_, ?_, setting_append_own.mpr rfl, ?_⟩
  · rwa [setting_append_other (by decide)]
  · rwa [setting_append_other (by decide)]
  · simpa only [setting_append_other, ne_eq, String.reduceEq, not_false_eq_true] using hrest

theorem imageSettingsOf_jar {a : ImageSettings} (h : imageSettingsOf ps = .fine a) :
    imageSettingsOf (ps ++ [(.text "jar_path", .text value)]) =
      .fine { a with jarPath := some value } := by
  rw [imageSettingsOf_eq_fine_iff] at h ⊢
  refine ⟨setting_append_own.mpr rfl, ?_⟩
  simpa only [setting_append_other, ne_eq, String.reduceEq, not_false_eq_true] using h.2

theorem imageSettingsOf_server {a : ImageSettings} (h : imageSettingsOf ps = .fine a) :
    imageSettingsOf (ps ++ [(.text "server_url", .text value)]) =
      .fine { a with serverUrl := value } := by
  rw [imageSettingsOf_eq_fine_iff] at h ⊢
  obtain ⟨hjar, -, hrest⟩ := h
  refine ⟨?_, setting_append_own.mpr rfl, ?_⟩
  · rwa [setting_append_other (by decide)]
  · simpa only [setting_append_other, ne_eq, String.reduceEq, not_false_eq_true] using hrest

end Pair

section Written

variable {document : Pairs} {s : Settings} {pair : Value × Value}

theorem exists_written_diagrams (h : settingsOf document = .fine s) {a : DiagramSettings}
    (hpair : ∀ ps, diagramSettingsOf ps = .fine s.diagrams →
      diagramSettingsOf (ps ++ [pair]) = .fine a) :
    ∃ ps, pairsForOverride ((valueAt? document "uml").getD .null) = .ok ps ∧
      settingsOf (document ++ [(.text "uml", .mapping (ps ++ [pair]))]) =
        .fine { s with diagrams := a } := by
  obtain ⟨hdiagrams, hdocs, hrenderer, hserver⟩ := settingsOf_eq_fine_iff.mp h
  obtain ⟨ps, hps, hread⟩ := hdiagrams.exists_written hpair
  refine ⟨ps, hps, settingsOf_eq_fine_iff.mpr ⟨hread, ?_, ?_, ?_⟩⟩
  · exact (Section.reads_other (by decide) _).mpr hdocs
  · exact (Section.reads_other (by decide) _).mpr hrenderer
  · exact (Section.reads_other (by decide) _).mpr hserver

theorem exists_written_docs (h : settingsOf document = .fine s) {a : DocsSettings}
    (hpair : ∀ ps, docsSettingsOf ps = .fine s.docs →
      docsSettingsOf (ps ++ [pair]) = .fine a) :
    ∃ ps, pairsForOverride ((valueAt? document "javadoc").getD .null) = .ok ps ∧
      settingsOf (document ++ [(.text "javadoc", .mapping (ps ++ [pair]))]) =
        .fine { s with docs := a } := by
  obtain ⟨hdiagrams, hdocs, hrenderer, hserver⟩ := settingsOf_eq_fine_iff.mp h
  obtain ⟨ps, hps, hread⟩ := hdocs.exists_written hpair
  refine ⟨ps, hps, settingsOf_eq_fine_iff.mpr ⟨?_, hread, ?_, ?_⟩⟩
  · exact (Section.reads_other (by decide) _).mpr hdiagrams
  · exact (Section.reads_other (by decide) _).mpr hrenderer
  · exact (Section.reads_other (by decide) _).mpr hserver

theorem exists_written_renderer (h : settingsOf document = .fine s) {a : ImageSettings}
    (hpair : ∀ ps, imageSettingsOf ps = .fine s.renderer →
      imageSettingsOf (ps ++ [pair]) = .fine a) :
    ∃ ps, pairsForOverride ((valueAt? document "renderer").getD .null) = .ok ps ∧
      settingsOf (document ++ [(.text "renderer", .mapping (ps ++ [pair]))]) =
        .fine { s with renderer := a } := by
  obtain ⟨hdiagrams, hdocs, hrenderer, hserver⟩ := settingsOf_eq_fine_iff.mp h
  obtain ⟨ps, hps, hread⟩ := hrenderer.exists_written hpair
  refine ⟨ps, hps, settingsOf_eq_fine_iff.mpr ⟨?_, ?_, hread, ?_⟩⟩
  · exact (Section.reads_other (by decide) _).mpr hdiagrams
  · exact (Section.reads_other (by decide) _).mpr hdocs
  · exact (Section.reads_other (by decide) _).mpr hserver

end Written

/-- The pair of an override that is given changes its own setting and no other. -/
theorem exists_written {env : Environment} {document : Pairs} {s : Settings} {o : Override}
    {value : String} (ho : o ∈ overrides) (hgiven : env.given? o.variableName = some value)
    (h : settingsOf document = .fine s) :
    ∃ ps, pairsForOverride ((valueAt? document o.sectionName).getD .null) = .ok ps ∧
      settingsOf (document ++ [(.text o.sectionName, .mapping (ps ++ [o.pair value]))]) =
        .fine (s.overridden env o) := by
  rcases eq_of_mem_overrides ho with rfl | rfl | rfl | rfl | rfl | rfl
  all_goals
    simp only [Settings.overridden, hgiven, Option.some_or, Option.getD_some, Override.pair]
  · exact exists_written_diagrams h fun ps => diagramSettingsOf_base value
  · exact exists_written_docs h fun ps => docsSettingsOf_output value
  · exact exists_written_docs h fun ps => docsSettingsOf_command value
  · exact exists_written_docs h fun ps => docsSettingsOf_maven value
  · exact exists_written_renderer h fun ps => imageSettingsOf_jar value
  · exact exists_written_renderer h fun ps => imageSettingsOf_server value

/-! ## Sections that are one mapping -/

/-- An override reaches another section that is the same mapping. -/
def share (o : Override) (value : String) (document : Pairs) (name : String) : Pairs :=
  if name = o.sectionName then document
  else
    match valueAt? document name with
    | some (.mapping ps) => document ++ [(.text name, .mapping (ps ++ [o.pair value]))]
    | _ => document

/-- Carries an override out, where its section is the same mapping as others. -/
def applySharing (env : Environment) (sharers : Override → List String) (document : Pairs)
    (o : Override) : Except PlainKind Pairs :=
  match env.given? o.variableName with
  | none => .ok document
  | some value =>
    (applyOverride env document o).map fun d => (sharers o).foldl (share o value) d

/-- Without sections that are shared an override is carried out in its own one. -/
theorem applySharing_alone (env : Environment) (document : Pairs) (o : Override) :
    applySharing env (fun _ => []) document o = applyOverride env document o := by
  unfold applySharing
  cases hgiven : env.given? o.variableName with
  | none => exact (applyOverride_of_not_given hgiven document).symm
  | some value => cases applyOverride env document o <;> rfl

/-- A section is not changed by an override of another one that reaches it. -/
theorem Section.Reads.share {α : Type} {x : Section α} {document : Pairs} {a : α}
    (h : x.Reads document a) {o : Override}
    (hforeign : x.name = o.sectionName ∨ o.settingName ∉ x.settingNames) (value name : String) :
    x.Reads (Config.share o value document name) a := by
  unfold Config.share
  split
  case isTrue => exact h
  case isFalse hother =>
    split
    case h_2 => exact h
    case h_1 ps hps =>
      by_cases hname : name = x.name
      · subst hname
        rw [Section.reads_own]
        rcases hforeign with hsection | hforeign
        · exact absurd hsection hother
        · rw [Override.pair, Section.read_append_foreign hforeign]
          exact h.read_mapping hps
      · exact (Section.reads_other hname _).mpr h

/-- An override that reaches other sections changes no settings there. -/
theorem settingsOf_share {document : Pairs} {s : Settings} {o : Override} (ho : o ∈ overrides)
    (h : settingsOf document = .fine s) (value name : String) :
    settingsOf (share o value document name) = .fine s := by
  obtain ⟨hdiagrams, hdocs, hrenderer, hserver⟩ := settingsOf_eq_fine_iff.mp h
  have hforeign : (diagramSection.name = o.sectionName ∨
        o.settingName ∉ diagramSection.settingNames) ∧
      (docsSection.name = o.sectionName ∨ o.settingName ∉ docsSection.settingNames) ∧
      (imageSection.name = o.sectionName ∨ o.settingName ∉ imageSection.settingNames) ∧
      (hostSection.name = o.sectionName ∨ o.settingName ∉ hostSection.settingNames) := by
    revert o
    decide
  exact settingsOf_eq_fine_iff.mpr ⟨hdiagrams.share hforeign.1 value name,
    hdocs.share hforeign.2.1 value name, hrenderer.share hforeign.2.2.1 value name,
    hserver.share hforeign.2.2.2 value name⟩

/-! ## Overrides in a row -/

/-- One override: it can be carried out, and it changes its own setting and no other. -/
theorem exists_applySharing {env : Environment} {document : Pairs} {s : Settings} {o : Override}
    (sharers : Override → List String) (ho : o ∈ overrides) (h : settingsOf document = .fine s) :
    ∃ document', applySharing env sharers document o = .ok document' ∧
      settingsOf document' = .fine (s.overridden env o) := by
  unfold applySharing
  cases hgiven : env.given? o.variableName with
  | none => exact ⟨document, rfl, by rw [Settings.overridden_of_not_given ho hgiven]; exact h⟩
  | some value =>
      obtain ⟨ps, hps, hwritten⟩ := exists_written ho hgiven h
      have hshared (names : List String) {d : Pairs}
          (hd : settingsOf d = .fine (s.overridden env o)) :
          settingsOf (names.foldl (share o value) d) = .fine (s.overridden env o) := by
        induction names generalizing d with
        | nil => exact hd
        | cons name names ih => exact ih (settingsOf_share ho hd value name)
      rw [applyOverride_of_given hgiven hps]
      exact ⟨_, rfl, hshared (sharers o) hwritten⟩

/-- Overrides in a row: each changes its own setting and no other. -/
theorem exists_foldlM_applySharing (env : Environment) (sharers : Override → List String)
    {os : List Override} (hos : ∀ o ∈ os, o ∈ overrides) {document : Pairs} {s : Settings}
    (h : settingsOf document = .fine s) :
    ∃ document', os.foldlM (applySharing env sharers) document = .ok document' ∧
      settingsOf document' = .fine (os.foldl (Settings.overridden env) s) := by
  induction os generalizing document s with
  | nil => exact ⟨document, rfl, h⟩
  | cons o os ih =>
      rw [List.forall_mem_cons] at hos
      obtain ⟨document', hstep, hsettings⟩ := exists_applySharing sharers hos.1 h
      obtain ⟨document'', hrun, hresult⟩ := ih hos.2 hsettings
      refine ⟨document'', ?_, hresult⟩
      rw [List.foldlM_cons, hstep]
      exact hrun

/-! ## Loading -/

/-- The document depends on the environment by the configuration directory alone. -/
theorem World.document_congr {w : World} {env : Environment}
    (h : env.get? directoryVariable = w.environment.get? directoryVariable) :
    ({ w with environment := env } : World).document = w.document := by
  have hfile : ({ w with environment := env } : World).file = w.file := by
    simp only [World.file, World.directory, h]
  have hpairs (content : Text.Utf8.Bytes) :
      ({ w with environment := env } : World).pairsOfFile content = w.pairsOfFile content := by
    unfold World.pairsOfFile
    rw [hfile]
    rfl
  simp only [World.document, hfile, hpairs]

/-- Where no override is given, the settings are those of the document. -/
theorem World.exists_document {w : World} {s : Settings}
    (hnone : ∀ o ∈ overrides, ¬ IsGiven w.environment o) (h : w.evaluate = .ok s) :
    ∃ document, w.document = .ok document ∧ settingsOf document = .fine s := by
  cases hdocument : w.document with
  | error e => rw [World.evaluate_of_document_error hdocument] at h; cases h
  | ok document =>
      have hrun : ∀ os : List Override, (∀ o ∈ os, o ∈ overrides) →
          os.foldlM (applyOverride w.environment) document = .ok document := by
        intro os hos
        induction os with
        | nil => rfl
        | cons o os ih =>
            rw [List.forall_mem_cons] at hos
            have hgiven := Environment.given?_eq_none_iff.mpr (hnone o hos.1)
            rw [List.foldlM_cons, applyOverride_of_not_given hgiven]
            exact ih hos.2
      have hoverride : override w.environment document = .ok document :=
        hrun overrides fun _ ho => ho
      refine ⟨document, rfl, ?_⟩
      simp only [World.evaluate, hdocument, hoverride, bind, Except.bind, Except.mapError] at h
      cases hsettings : settingsOf document with
      | refused complaints => rw [hsettings] at h; cases h
      | fine s' => rw [hsettings] at h; cases h; rfl

/-- Settings of a document with overrides that can be carried out are evaluated. -/
theorem World.evaluate_eq_ok {w : World} {document document' : Pairs} {s : Settings}
    (hdocument : w.document = .ok document)
    (hoverride : override w.environment document = .ok document')
    (hsettings : settingsOf document' = .fine s) : w.evaluate = .ok s := by
  simp only [World.evaluate, hdocument, hoverride, hsettings, bind, Except.bind, Except.mapError,
    pure, Except.pure]

/-- Overrides are exact.  If a configuration loads where no override is given, it loads
whichever values the variables have, and the settings are those of the file with the given
values in place of the ones there.  The overrides may be carried out in any order, and
sections of the document may be one mapping, so that an override reaches other sections as
well. -/
theorem overriding_exact {w : World} (env : Environment) {s : Settings}
    (hdirectory : env.get? directoryVariable = w.environment.get? directoryVariable)
    (hnone : ∀ o ∈ overrides, ¬ IsGiven w.environment o) (h : w.evaluate = .ok s) :
    ({ w with environment := env } : World).evaluate = .ok (s.overriddenBy env) ∧
      ∃ document, w.document = .ok document ∧
        ∀ (os : List Override) (sharers : Override → List String), os.Perm overrides →
          ∃ document', os.foldlM (applySharing env sharers) document = .ok document' ∧
            settingsOf document' = .fine (s.overriddenBy env) := by
  obtain ⟨document, hdocument, hsettings⟩ := World.exists_document hnone h
  have hrun (os : List Override) (sharers : Override → List String) (hos : os.Perm overrides) :
      ∃ document', os.foldlM (applySharing env sharers) document = .ok document' ∧
        settingsOf document' = .fine (s.overriddenBy env) := by
    obtain ⟨document', hrun, hresult⟩ :=
      exists_foldlM_applySharing env sharers (fun o ho => hos.mem_iff.mp ho) hsettings
    rw [Settings.foldl_overridden hos] at hresult
    exact ⟨document', hrun, hresult⟩
  refine ⟨?_, document, hdocument, hrun⟩
  obtain ⟨document', halone, hresult⟩ := hrun overrides (fun _ => []) (.refl _)
  have hoverride : override env document = .ok document' := by
    rw [← halone, override]
    congr 1
    funext document o
    exact (applySharing_alone env document o).symm
  exact World.evaluate_eq_ok ((World.document_congr hdirectory).trans hdocument) hoverride hresult

/-- A file whose sections for documentation and for images are one mapping, while there is
none for diagrams; one variable is empty. -/
theorem overriding_exact_shared :
    let content := encode "javadoc: &both {timeout_seconds: 5, jar_path: j}\nrenderer: *both\n"
    let env : Environment := [("JAVADOC_COMMAND", "jd"), ("PLANTUML_SERVER_URL", "u"),
      ("DOCLOOM_ALLOWED_BASE_DIR", "d"), ("MAVEN_COMMAND", "")]
    let sharers : Override → List String := fun o =>
      if o.sectionName = "javadoc" then ["renderer"] else ["javadoc"]
    let s : Settings :=
      { docs := { timeout := 5 }, renderer := { jarPath := some "j" } }
    (worldWithFile content []).evaluate = .ok s ∧
      (worldWithFile content env).evaluate = .ok (s.overriddenBy env) ∧
      s.overriddenBy env =
        { diagrams := { allowedBase := some "d" }
          docs := { timeout := 5, command := "jd" }
          renderer := { jarPath := some "j", serverUrl := "u" } } ∧
      ∃ document, (worldWithFile content []).document = .ok document ∧
        ∃ document', overrides.reverse.foldlM (applySharing env sharers) document = .ok document' ∧
          settingsOf document' = .fine (s.overriddenBy env) := by
  intro content env sharers s
  have hevaluate : (worldWithFile content []).evaluate = .ok s := by decide +kernel
  have hnone : ∀ o ∈ overrides, ¬ IsGiven (worldWithFile content []).environment o := by
    rintro o - ⟨value, hvalue, -⟩
    cases hvalue
  obtain ⟨hloaded, document, hdocument, hrun⟩ := overriding_exact env rfl hnone hevaluate
  exact ⟨hevaluate, hloaded, rfl, document, hdocument,
    hrun overrides.reverse sharers (List.reverse_perm overrides)⟩

end JavaAtlas.Config

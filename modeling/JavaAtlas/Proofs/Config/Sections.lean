import JavaAtlas.Proofs.Config.Failing

/-!
# Sections of a configuration

The settings of a document are read section by section, and every section is read by the
names of its settings.  So a section that is given anew replaces the earlier one and leaves
the others alone, and pairs under other names make no difference to it.

Main definitions:

- `Section`: a section with its name, its settings and how it is read.
- `Section.Reads`: what is read of a document for a section.

Main results:

- Theorem `settingsOf_eq_fine_iff`: settings are read section by section.
- Theorem `Section.Reads.exists_pairs`: a section that is read can take an override.
- Theorem `Section.reads_own`, theorem `Section.reads_other`: a section that is given anew.
-/

namespace JavaAtlas.Config

open Yaml (Value)

/-! ## Results with complaints -/

namespace Checked

variable {α β : Type}

theorem map_eq_fine_iff {f : α → β} {c : Checked α} {b : β} :
    f <$> c = .fine b ↔ ∃ a, c = .fine a ∧ f a = b := by
  cases c <;> simp [Functor.map, apply]

theorem seq_eq_fine_iff {f : Checked (α → β)} {c : Checked α} {b : β} :
    f <*> c = .fine b ↔ ∃ g a, f = .fine g ∧ c = .fine a ∧ g a = b := by
  cases f <;> cases c <;> simp [Seq.seq, apply]

theorem within_eq_fine_iff {c : Checked α} {s : Step} {a : α} :
    c.within s = .fine a ↔ c = .fine a := by
  cases c <;> simp [within]

end Checked

/-! ## Settings among pairs -/

section Setting

variable {α : Type} {ps ps' : Pairs} {name other : String} {usual a : α}
  {read : Value → Checked α}

/-- Only the value of its name counts for a setting. -/
theorem setting_congr (h : valueAt? ps name = valueAt? ps' name) :
    setting ps name usual read = setting ps' name usual read := by
  rw [setting, setting, h]

/-- A pair at the end gives the setting of its name. -/
theorem setting_append_own {v : Value} :
    setting (ps ++ [(.text name, v)]) name usual read = .fine a ↔ read v = .fine a := by
  rw [setting, valueAt?_append, if_pos rfl]
  exact Checked.within_eq_fine_iff

/-- A pair at the end gives no other setting. -/
theorem setting_append_other (h : name ≠ other) (v : Value) :
    setting (ps ++ [(.text name, v)]) other usual read = setting ps other usual read :=
  setting_congr (by rw [valueAt?_append, if_neg h])

end Setting

theorem diagramSettingsOf_eq_fine_iff {ps : Pairs} {s : DiagramSettings} :
    diagramSettingsOf ps = .fine s ↔
      setting ps "allowed_base_directory" none optionalTextOf = .fine s.allowedBase ∧
      setting ps "source_extension" ".java" textOf = .fine s.sourceExtension := by
  obtain ⟨allowedBase, sourceExtension⟩ := s
  simp [diagramSettingsOf, Checked.seq_eq_fine_iff, Checked.map_eq_fine_iff]

theorem docsSettingsOf_eq_fine_iff {ps : Pairs} {s : DocsSettings} :
    docsSettingsOf ps = .fine s ↔
      setting ps "output_base_dir" "generated-javadoc" textOf = .fine s.outputBase ∧
      setting ps "command" "javadoc" textOf = .fine s.command ∧
      setting ps "maven_command" "mvn" textOf = .fine s.mavenCommand ∧
      setting ps "timeout_seconds" 600 intOf = .fine s.timeout ∧
      setting ps "maven_timeout_seconds" 300 intOf = .fine s.mavenTimeout ∧
      setting ps "disable_doclint" false truthOf = .fine s.disableDoclint := by
  obtain ⟨outputBase, command, mavenCommand, timeout, mavenTimeout, disableDoclint⟩ := s
  simp [docsSettingsOf, Checked.seq_eq_fine_iff, Checked.map_eq_fine_iff, and_assoc,
    -Bool.exists_bool]

theorem imageSettingsOf_eq_fine_iff {ps : Pairs} {s : ImageSettings} :
    imageSettingsOf ps = .fine s ↔
      setting ps "jar_path" none optionalTextOf = .fine s.jarPath ∧
      setting ps "server_url" "https://www.plantuml.com/plantuml" textOf = .fine s.serverUrl ∧
      setting ps "jar_timeout_seconds" 60 intOf = .fine s.jarTimeout ∧
      setting ps "http_timeout_seconds" (.ofInt 30) numberOf = .fine s.httpTimeout := by
  obtain ⟨jarPath, serverUrl, jarTimeout, httpTimeout⟩ := s
  simp [imageSettingsOf, Checked.seq_eq_fine_iff, Checked.map_eq_fine_iff, and_assoc]

/-! ## Sections -/

/-- A section of the configuration. -/
structure Section (α : Type) where
  name : String
  settingNames : List String
  usual : α
  read : Pairs → Checked α
  /-- Only the values of the settings count. -/
  read_congr : ∀ ps ps', (∀ n ∈ settingNames, valueAt? ps n = valueAt? ps' n) → read ps = read ps'
  /-- Without pairs there are the usual settings. -/
  read_nil : read [] = .fine usual

namespace Section

variable {α : Type} {x : Section α} {document ps : Pairs} {a : α}

/-- The section of a document is missing or has the settings. -/
def Reads (x : Section α) (document : Pairs) (a : α) : Prop :=
  setting document x.name x.usual (sectionOf x.read) = .fine a

/-- A pair under another name makes no difference. -/
theorem read_append_foreign {name : String} (h : name ∉ x.settingNames) (ps : Pairs) (v : Value) :
    x.read (ps ++ [(.text name, v)]) = x.read ps := by
  refine x.read_congr _ _ fun n hn => ?_
  rw [valueAt?_append, if_neg (by rintro rfl; exact h hn)]

/-- A section that is given anew is read instead of the earlier one. -/
theorem reads_own : x.Reads (document ++ [(.text x.name, .mapping ps)]) a ↔ x.read ps = .fine a :=
  setting_append_own

/-- A section stays as it is where another one is given anew. -/
theorem reads_other {name : String} (h : name ≠ x.name) (v : Value) :
    x.Reads (document ++ [(.text name, v)]) a ↔ x.Reads document a := by
  rw [Reads, setting_append_other h, Reads]

/-- A section that is read can take an override, and what takes it is read alike. -/
theorem Reads.exists_pairs (h : x.Reads document a) :
    ∃ ps, pairsForOverride ((valueAt? document x.name).getD .null) = .ok ps ∧
      x.read ps = .fine a := by
  unfold Reads setting at h
  split at h
  case h_1 hnone =>
    cases h
    exact ⟨[], by rw [hnone]; rfl, x.read_nil⟩
  case h_2 v hv =>
    rw [Checked.within_eq_fine_iff] at h
    rw [hv]
    cases v with
    | mapping ps => exact ⟨ps, rfl, h⟩
    | _ => cases h

/-- A section that is a mapping is read from its pairs. -/
theorem Reads.read_mapping (h : x.Reads document a)
    (hps : valueAt? document x.name = some (.mapping ps)) : x.read ps = .fine a := by
  rw [Reads, setting, hps] at h
  exact Checked.within_eq_fine_iff.mp h

end Section

/-- The section of class diagrams. -/
def diagramSection : Section DiagramSettings where
  name := "uml"
  settingNames := ["allowed_base_directory", "source_extension"]
  usual := {}
  read := diagramSettingsOf
  read_congr ps ps' h := by
    simp only [List.forall_mem_cons] at h
    simp only [diagramSettingsOf, setting, h]
  read_nil := rfl

/-- The section of the documentation tool. -/
def docsSection : Section DocsSettings where
  name := "javadoc"
  settingNames := ["output_base_dir", "command", "maven_command", "timeout_seconds",
    "maven_timeout_seconds", "disable_doclint"]
  usual := {}
  read := docsSettingsOf
  read_congr ps ps' h := by
    simp only [List.forall_mem_cons] at h
    simp only [docsSettingsOf, setting, h]
  read_nil := rfl

/-- The section of the renderer. -/
def imageSection : Section ImageSettings where
  name := "renderer"
  settingNames := ["jar_path", "server_url", "jar_timeout_seconds", "http_timeout_seconds"]
  usual := {}
  read := imageSettingsOf
  read_congr ps ps' h := by
    simp only [List.forall_mem_cons] at h
    simp only [imageSettingsOf, setting, h]
  read_nil := rfl

/-- The section of the web server. -/
def hostSection : Section HostSettings where
  name := "server"
  settingNames := ["host", "port", "cors_origins"]
  usual := {}
  read := hostSettingsOf
  read_congr ps ps' h := by
    simp only [List.forall_mem_cons] at h
    simp only [hostSettingsOf, setting, h]
  read_nil := rfl

/-- The settings of a document are those of its sections. -/
theorem settingsOf_eq_fine_iff {document : Pairs} {s : Settings} :
    settingsOf document = .fine s ↔
      diagramSection.Reads document s.diagrams ∧ docsSection.Reads document s.docs ∧
        imageSection.Reads document s.renderer ∧ hostSection.Reads document s.server := by
  obtain ⟨diagrams, docs, renderer, server⟩ := s
  simp only [settingsOf, Checked.seq_eq_fine_iff, Checked.map_eq_fine_iff, Section.Reads,
    diagramSection, docsSection, imageSection, hostSection]
  constructor
  · rintro ⟨_, _, ⟨_, _, ⟨_, _, ⟨_, hdiagrams, rfl⟩, hdocs, rfl⟩, hrenderer, rfl⟩, hserver, heq⟩
    cases heq
    exact ⟨hdiagrams, hdocs, hrenderer, hserver⟩
  · rintro ⟨hdiagrams, hdocs, hrenderer, hserver⟩
    exact ⟨_, _, ⟨_, _, ⟨_, _, ⟨_, hdiagrams, rfl⟩, hdocs, rfl⟩, hrenderer, rfl⟩, hserver, rfl⟩

end JavaAtlas.Config

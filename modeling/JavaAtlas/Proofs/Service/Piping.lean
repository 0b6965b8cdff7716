import JavaAtlas.Proofs.Diagram.Answering
import JavaAtlas.Proofs.Diagram.Reading
import JavaAtlas.Proofs.Image.LayoutRequest
import JavaAtlas.Proofs.Image.Outcome
import JavaAtlas.Service.Session

/-!
# What the local renderer is given

Where the usual layout engine is missing, the diagram of a source tree should be given to the
local renderer with the request for another one as its second line.  Names are words, so they
cannot mention the request; but the text of a package is taken over with its comments, and a
type with the texts in its annotations.  A diagram that shows such a text is given without the
request, and any other one with it.

Main definitions:

- `shownTexts`: the texts that a declaration shows besides words.

Main results:

- Theorem `mentionsRequest_layout_iff`: which diagrams mention the request.
- Theorem `input_of_mem_calls_image`: what is given to the local renderer.
- Theorem `piping_law`: where the request stands in it.
- Theorem `request_hidden`: a diagram and a text that do not ask for the other engine.
-/

namespace JavaAtlas.Diagram.PlantUml

open Java Image

/-! ## Texts that are shown -/

/-- The texts that a declaration shows besides words: its qualified name, the types of the
variables by which its field declarations are listed, and the types of its methods. -/
def shownTexts (d : Declaration) : List String :=
  d.qualifiedName :: (d.fieldDeclarations.filterMap fun group => group.head?.map (·.type.text)) ++
    d.methods.flatMap fun m => m.returnType.text :: m.parameters.map (·.type.text)

/-- A declaration with words for names, whatever its package. -/
def HasWords (d : Declaration) : Prop :=
  (∀ f ∈ d.fields, IsWordText f.name) ∧
    ∀ m ∈ d.methods, IsWordText m.name ∧ ∀ p ∈ m.parameters, IsWordText p.name

theorem mark_not_mem_word {name : String} (h : IsWordText name) : '!' ∉ name.toList :=
  h.not_mem (by decide)

theorem mark_not_mem_sign (v : Visibility) : '!' ∉ (sign v).toList := by
  cases v <;> decide

theorem mark_not_mem_keyword (k : TypeKind) : '!' ∉ k.keyword.toList := by
  cases k <;> decide

/-- An arrow begins with a character that the request lacks. -/
theorem exists_toList_arrow (k : EdgeKind) :
    ∃ c rest, (arrow k).toList = c :: rest ∧ c ∉ layoutRequest.toList ∧ '!' ∉ rest := by
  cases k <;> exact ⟨_, _, rfl, by decide, by decide⟩

/-! ## Lines that mention the request -/

theorem mentionsRequest_header_iff (d : Declaration) :
    MentionsRequest (header d) ↔ MentionsRequest d.qualifiedName := by
  rw [MentionsRequest, toList_header, occursIn_append_iff (mark_not_mem_keyword _),
    occursIn_cons_iff (by decide), occursIn_append_blank_cons_iff (by decide)]
  exact or_iff_left (not_occursIn List.not_mem_nil)

theorem mentionsRequest_fieldLine_iff {f : Field} (h : IsWordText f.name) :
    MentionsRequest (inside (fieldLine f)) ↔ MentionsRequest f.type.text := by
  rw [MentionsRequest, toList_inside, toList_fieldLine, occursIn_cons_iff (by decide),
    occursIn_cons_iff (by decide), occursIn_append_iff (mark_not_mem_sign _),
    occursIn_cons_iff (by decide), occursIn_append_iff (mark_not_mem_word h),
    occursIn_cons_iff (by decide), occursIn_cons_iff (by decide), occursIn_cons_iff (by decide)]
  rfl

theorem mentionsRequest_parameterText_iff {p : Parameter} (h : IsWordText p.name) :
    MentionsRequest (parameterText p) ↔ MentionsRequest p.type.text := by
  rw [MentionsRequest, toList_parameterText, occursIn_append_iff (mark_not_mem_word h),
    occursIn_cons_iff (by decide), occursIn_cons_iff (by decide)]
  rfl

/-- Parameters are told apart by commas, which the request lacks. -/
theorem mentionsRequest_parameters_iff {ps : List Parameter} (h : ∀ p ∈ ps, IsWordText p.name) :
    MentionsRequest (", ".intercalate (ps.map parameterText)) ↔
      ∃ p ∈ ps, MentionsRequest p.type.text := by
  induction ps with
  | nil => simp
  | cons p ps ih =>
      have hp := mentionsRequest_parameterText_iff (h p List.mem_cons_self)
      have hrest := ih fun q hq => h q (List.mem_cons_of_mem p hq)
      simp only [List.mem_cons, exists_eq_or_imp]
      rw [← hp, ← hrest]
      cases ps with
      | nil => simp
      | cons q qs =>
          have hcons : (", ".intercalate ((p :: q :: qs).map parameterText)).toList =
              (parameterText p).toList ++ ',' ::
                ' ' :: (", ".intercalate ((q :: qs).map parameterText)).toList := by
            rw [List.map_cons, List.map_cons, String.intercalate_cons_cons]
            simp
          rw [MentionsRequest, hcons, occursIn_append_cons_iff (by decide),
            occursIn_cons_iff (by decide)]
          rfl

theorem mentionsRequest_methodLine_iff {m : Method} (hname : IsWordText m.name)
    (hparameters : ∀ p ∈ m.parameters, IsWordText p.name) :
    MentionsRequest (inside (methodLine m)) ↔
      ∃ shown ∈ m.returnType.text :: m.parameters.map (·.type.text), MentionsRequest shown := by
  rw [MentionsRequest, toList_inside, toList_methodLine, occursIn_cons_iff (by decide),
    occursIn_cons_iff (by decide), occursIn_append_iff (mark_not_mem_sign _),
    occursIn_cons_iff (by decide), occursIn_append_iff (mark_not_mem_word hname),
    occursIn_cons_iff (by decide), occursIn_append_cons_iff (by decide),
    occursIn_cons_iff (by decide), occursIn_cons_iff (by decide), occursIn_cons_iff (by decide)]
  refine (or_congr_left (mentionsRequest_parameters_iff hparameters)).trans or_comm |>.trans ?_
  simp [MentionsRequest]

/-- A block mentions the request exactly if a text does that it shows. -/
theorem mentionsRequest_block_iff {d : Declaration} (h : HasWords d) :
    (∃ line ∈ block d, MentionsRequest line) ↔ ∃ shown ∈ shownTexts d, MentionsRequest shown := by
  have hfields : (∃ line ∈ d.fieldDeclarations.filterMap fieldDeclarationLine?,
      MentionsRequest line) ↔
        ∃ shown ∈ d.fieldDeclarations.filterMap fun group => group.head?.map (·.type.text),
          MentionsRequest shown := by
    have hword : ∀ group ∈ d.fieldDeclarations, ∀ f, group.head? = some f →
        IsWordText f.name := fun group hgroup f hf =>
      h.1 f (List.mem_flatten.mpr ⟨group, hgroup, List.mem_of_mem_head? hf⟩)
    simp only [List.mem_filterMap, fieldDeclarationLine?, Option.map_eq_some_iff]
    constructor
    · rintro ⟨_, ⟨group, hgroup, f, hf, rfl⟩, hline⟩
      have hshown := (mentionsRequest_fieldLine_iff (hword group hgroup f hf)).mp hline
      exact ⟨_, ⟨group, hgroup, f, hf, rfl⟩, hshown⟩
    · rintro ⟨_, ⟨group, hgroup, f, hf, rfl⟩, hshown⟩
      have hline := (mentionsRequest_fieldLine_iff (hword group hgroup f hf)).mpr hshown
      exact ⟨_, ⟨group, hgroup, f, hf, rfl⟩, hline⟩
  have hmethods : (∃ line ∈ d.methods.map fun m => inside (methodLine m), MentionsRequest line) ↔
      ∃ shown ∈ d.methods.flatMap fun m => m.returnType.text :: m.parameters.map (·.type.text),
        MentionsRequest shown := by
    simp only [List.mem_map, List.mem_flatMap]
    constructor
    · rintro ⟨_, ⟨m, hm, rfl⟩, hline⟩
      obtain ⟨hname, hparameters⟩ := h.2 m hm
      obtain ⟨shown, hmem, hshown⟩ := (mentionsRequest_methodLine_iff hname hparameters).mp hline
      exact ⟨shown, ⟨m, hm, hmem⟩, hshown⟩
    · rintro ⟨shown, ⟨m, hm, hmem⟩, hshown⟩
      obtain ⟨hname, hparameters⟩ := h.2 m hm
      exact ⟨_, ⟨m, hm, rfl⟩,
        (mentionsRequest_methodLine_iff hname hparameters).mpr ⟨shown, hmem, hshown⟩⟩
  have hbrace : ¬ MentionsRequest "\x7d" := not_occursIn (by decide)
  simp only [block, shownTexts, List.cons_append, List.mem_cons, List.mem_append, or_and_right,
    exists_or, exists_eq_left, List.not_mem_nil, or_false, mentionsRequest_header_iff, hfields,
    hmethods, hbrace]

/-- The line of an edge mentions the request exactly if the name at one of its ends does. -/
theorem mentionsRequest_edgeLine_iff {e : Edge}
    (h : ∀ label, e.label = some label → IsWordText label) :
    MentionsRequest (edgeLine e) ↔ MentionsRequest e.source ∨ MentionsRequest e.target := by
  have hlabel : OccursIn (e.target.toList ++ (labelText e).toList) ↔
      MentionsRequest e.target := by
    unfold labelText
    split
    case h_2 => simp [MentionsRequest]
    case h_1 label _ hsome =>
      split
      case isTrue => simp [MentionsRequest]
      case isFalse =>
        have htext : (" : " ++ label).toList = ' ' :: ':' :: ' ' :: label.toList := by simp
        rw [htext, occursIn_append_blank_cons_iff (by decide), occursIn_cons_iff (by decide)]
        exact or_iff_left (not_occursIn (mark_not_mem_word (h label hsome)))
  obtain ⟨c, rest, harrow, hc, hrest⟩ := exists_toList_arrow e.kind
  rw [MentionsRequest, toList_edgeLine, harrow, List.cons_append,
    occursIn_append_blank_cons_iff hc, occursIn_append_iff hrest, occursIn_cons_iff (by decide),
    hlabel]
  rfl

/-- A diagram whose edges join its declarations mentions the request exactly if a declaration
shows a text that does. -/
theorem mentionsRequest_layout_iff {ds : List Declaration} {es : List Edge}
    (hds : ∀ d ∈ ds, HasWords d)
    (hlabels : ∀ e ∈ es, ∀ label, e.label = some label → IsWordText label)
    (hsources : ∀ e ∈ es, ∃ d ∈ ds, d.qualifiedName = e.source)
    (htargets : ∀ e ∈ es, ∃ d ∈ ds, d.qualifiedName = e.target) :
    (∃ line ∈ layout ds es, MentionsRequest line) ↔
      ∃ d ∈ ds, ∃ shown ∈ shownTexts d, MentionsRequest shown := by
  constructor
  · rintro ⟨line, hline, hmentions⟩
    have hend : ∀ name, (∃ d ∈ ds, d.qualifiedName = name) → MentionsRequest name →
        ∃ d ∈ ds, ∃ shown ∈ shownTexts d, MentionsRequest shown := by
      rintro name ⟨d, hd, rfl⟩ hname
      exact ⟨d, hd, _, List.mem_cons_self, hname⟩
    simp only [layout, List.mem_append, List.mem_cons, List.not_mem_nil, or_false] at hline
    rcases hline with ((rfl | hblock) | hedge) | rfl
    · exact absurd hmentions (not_occursIn (by decide))
    · obtain ⟨d, hd, hmem⟩ := List.mem_flatMap.mp hblock
      exact ⟨d, hd, (mentionsRequest_block_iff (hds d hd)).mp ⟨line, hmem, hmentions⟩⟩
    · obtain ⟨e, he, rfl⟩ := List.mem_map.mp hedge
      rcases (mentionsRequest_edgeLine_iff (hlabels e he)).mp hmentions with hsource | htarget
      · exact hend _ (hsources e he) hsource
      · exact hend _ (htargets e he) htarget
    · exact absurd hmentions (not_occursIn (by decide))
  · rintro ⟨d, hd, hshown⟩
    obtain ⟨line, hline, hmentions⟩ := (mentionsRequest_block_iff (hds d hd)).mpr hshown
    refine ⟨line, ?_, hmentions⟩
    simp only [layout, List.mem_append, List.mem_cons]
    exact .inl (.inl (.inr (List.mem_flatMap.mpr ⟨d, hd, hline⟩)))

end JavaAtlas.Diagram.PlantUml

namespace JavaAtlas.Diagram

open Config Java Source Storage Image
open PlantUml (HasWords shownTexts)

/-! ## Documents -/

section

variable {reader : Reader} {known : Registry} {files : List Path}

theorem ReadsCompletely.hasWords (h : ReadsCompletely reader) :
    ∀ d ∈ (extract reader known files).declarations, HasWords d := by
  intro d hd
  obtain ⟨p, -, u, hu, hd⟩ := mem_declarations_extract.mp hd
  have hspelled := (h p u hu).spelled d hd
  exact ⟨fun f hf => (hspelled.fields f hf).name, fun m hm =>
    ⟨(hspelled.methods m hm).name, fun x hx => ((hspelled.methods m hm).parameters x hx).name⟩⟩

/-- Labels are names of variables. -/
theorem ReadsCompletely.isWordText_label (h : ReadsCompletely reader) :
    ∀ e ∈ (extract reader known files).edges, ∀ label, e.label = some label →
      IsWordText label := by
  intro e he label hlabel
  obtain ⟨p, hp, u, hu, d, hd, he⟩ := mem_edges_extract.mp he
  obtain ⟨f, hf, rfl⟩ := label_of_mem_edgesOf he hlabel
  exact (((h p u hu).spelled d hd).fields f hf).name

/-- The document shows a text that mentions the request. -/
def Document.ShowsRequest (d : Document) : Prop :=
  ∃ decl ∈ d.declarations, ∃ shown ∈ shownTexts decl, MentionsRequest shown

variable {fs : FileSystem} {s : DiagramSettings} {directory : String} {d : Document}

/-- An answered request gives the extract of some files with its layout. -/
theorem ReadsCompletely.exists_of_answerWith (h : ReadsCompletely reader)
    (hd : answerWith fs reader s directory = .ok d) :
    ∃ l, d.toExtract = extractBelow fs reader s l ∧
      d.text = Text.ended (PlantUml.layout d.declarations d.edges) := by
  cases hl : validate fs s directory with
  | error e =>
      rw [answerWith, hl] at hd
      cases hd
  | ok l => exact ⟨l, eq_of_answerWith_eq_ok h hl hd⟩

/-- The text of a document mentions the request exactly if the document shows it. -/
theorem ReadsCompletely.mentionsRequest_iff (h : ReadsCompletely reader)
    (hd : answerWith fs reader s directory = .ok d) :
    MentionsRequest d.text ↔ d.ShowsRequest := by
  obtain ⟨l, hextract, htext⟩ := h.exists_of_answerWith hd
  rw [htext, mentionsRequest_ended_iff, Document.ShowsRequest, hextract]
  refine PlantUml.mentionsRequest_layout_iff h.hasWords h.isWordText_label
    (fun e he => exists_source_of_mem_edges_extract he) fun e he => ?_
  exact mem_registryOf_iff_declared.mp (target_mem_of_mem_edges_extract he)

/-- The marker is the first line of a document. -/
theorem ReadsCompletely.exists_toList_text (h : ReadsCompletely reader)
    (hd : answerWith fs reader s directory = .ok d) :
    ∃ rest, d.text.toList = diagramMarker.toList ++ '\n' :: rest := by
  obtain ⟨l, -, htext⟩ := h.exists_of_answerWith hd
  rw [htext, PlantUml.layout, Text.ended, List.cons_append, List.cons_append, List.map_cons,
    String.join_cons, String.toList_append, String.toList_append, List.append_assoc]
  exact ⟨_, rfl⟩

/-- A document is given to the local renderer with the request as its second line, unless it
shows the request; then it is given as it is. -/
theorem ReadsCompletely.withLayout_text (h : ReadsCompletely reader)
    (hd : answerWith fs reader s directory = .ok d) :
    (linesOf d.text).head? = some diagramMarker.toList ∧
      (linesOf (withLayout false d.text) =
        diagramMarker.toList :: layoutRequest.toList :: (linesOf d.text).tail ↔
          ¬ d.ShowsRequest) ∧
      (d.ShowsRequest → withLayout false d.text = d.text) := by
  obtain ⟨rest, hrest⟩ := h.exists_toList_text hd
  obtain ⟨hlines, hasked⟩ := linesOf_withLayout_of_front hrest
  rw [← h.mentionsRequest_iff hd]
  refine ⟨by rw [hlines]; rfl, ⟨fun heq hmentions => ?_, fun hnot => ?_⟩,
    fun hmentions => withLayout_of_mentions hmentions false⟩
  · -- an unchanged text has one line less
    rw [withLayout_of_mentions hmentions, hlines] at heq
    have hlength := congrArg List.length heq
    simp only [List.length_cons, List.tail_cons] at hlength
    omega
  · rw [hasked hnot, hlines]
    rfl

end

end JavaAtlas.Diagram

namespace JavaAtlas.Service

open Config Source Storage Image
open Diagram (Document answer answerWith)

/-! ## Calls -/

section

variable {s : Session} {partners : Image.Partners} {format text : String}
  {command : List String} {input : String} {timeout : Int}

/-- The local renderer is given the text, with the request if the layout engine is held to be
missing. -/
theorem input_of_mem_calls_answer {settings : ImageSettings} {surroundings : Surroundings}
    {m : Memory} (h : Image.Call.local command input timeout ∈
      (Image.answer settings partners surroundings format text m).1.calls) :
    input = withLayout (m.engine.getD surroundings.hasEngine) text := by
  rcases Image.answer_cases settings partners surroundings format text m with
    ⟨-, hanswer⟩ | ⟨f, -, fault, -, hanswer⟩ | ⟨f, -, -, hanswer⟩
  · rw [hanswer] at h
    cases h
  · rw [hanswer] at h
    cases h
  · rw [hanswer, calls_renderAs] at h
    rcases List.mem_append.mp h with h | h
    · split at h
      case isTrue =>
        cases List.mem_singleton.mp h
        rfl
      case isFalse => cases h
    · split at h
      case isTrue => cases h
      case isFalse => cases List.mem_singleton.mp h

theorem input_of_mem_calls_draw {settings : ImageSettings}
    (h : Call.image (.local command input timeout) ∈
      (s.draw settings partners format text).calls) :
    input = withLayout (s.memory.engine.getD s.surroundings.hasEngine) text := by
  obtain ⟨call, hcall, heq⟩ := List.mem_map.mp h
  cases heq
  exact input_of_mem_calls_answer hcall

/-- For the image of a directory, the local renderer is given the text of its diagram. -/
theorem input_of_mem_calls_image {settings : Settings} {directory : String}
    (h : Call.image (.local command input timeout) ∈
      (s.image settings partners directory format).calls) :
    ∃ d, answer s.files settings.diagrams directory = .ok d ∧
      input = withLayout (s.memory.engine.getD s.surroundings.hasEngine) d.text := by
  unfold Session.image at h
  split at h
  case h_1 => cases h
  case h_2 d hd => exact ⟨d, hd, input_of_mem_calls_draw h⟩

end

/-- The request is put once, and not where the layout engine is installed.  Otherwise a text
stays as it is if it mentions the request or has no marker, and else the request stands behind
the first marker: as one line between lines that stay as they are if the line of the marker
ends there, and as no line of its own if it does not.  The first line of a document is a
marker, and the request becomes its second line, with all other lines as they are, exactly if
no declaration shows a text that mentions the request; a document with such a text stays as it
is.  The local renderer is given just that. -/
theorem piping_law (text : String) (fs : FileSystem) (h : Hindrances)
    (diagrams : DiagramSettings) (directory : String) (s : Session) :
    (∀ engine, withLayout engine (withLayout engine text) = withLayout engine text) ∧
    withLayout true text = text ∧
    (MentionsRequest text ∨ ¬ IsMarked text → withLayout false text = text) ∧
    (¬ MentionsRequest text → IsMarked text →
      ∃ before after, text.toList = before ++ diagramMarker.toList ++ after ∧
        ¬ diagramMarker.toList <:+: before ++ diagramMarker.toList.dropLast ∧
        (withLayout false text).toList =
          before ++ diagramMarker.toList ++ '\n' :: (layoutRequest.toList ++ after) ∧
        (EndsLine after →
          ∃ rest, linesOf text = Text.pieces '\n' (before ++ diagramMarker.toList) ++ rest ∧
            linesOf (withLayout false text) =
              Text.pieces '\n' (before ++ diagramMarker.toList) ++ layoutRequest.toList :: rest) ∧
        (¬ EndsLine after → layoutRequest.toList ∉ linesOf (withLayout false text))) ∧
    (∀ d, answerWith fs (hinderedReader fs h) diagrams directory = .ok d →
      (linesOf d.text).head? = some diagramMarker.toList ∧
        (linesOf (withLayout false d.text) =
          diagramMarker.toList :: layoutRequest.toList :: (linesOf d.text).tail ↔
            ¬ d.ShowsRequest) ∧
        (d.ShowsRequest → withLayout false d.text = d.text)) ∧
    (∀ settings partners format command input timeout,
      Call.image (.local command input timeout) ∈
        (s.image settings partners directory format).calls →
      ∃ d, answer s.files settings.diagrams directory = .ok d ∧
        input = withLayout (s.memory.engine.getD s.surroundings.hasEngine) d.text) := by
  refine ⟨fun engine => withLayout_withLayout engine text, rfl, fun hsame => ?_,
    fun hnot hmarked => ?_,
    fun d hd => (Diagram.readsCompletely_hinderedReader fs h).withLayout_text hd,
    fun settings partners format command input timeout => input_of_mem_calls_image⟩
  · exact hsame.elim (fun hmentions => withLayout_of_mentions hmentions false)
      fun hunmarked => withLayout_of_not_marked hunmarked false
  · obtain ⟨before, after, htext, hfirst, hput⟩ := exists_toList_withLayout hnot hmarked
    exact ⟨before, after, htext, hfirst, hput, linesOf_withLayout htext hput,
      not_mem_linesOf_withLayout htext hput hnot⟩

/-! ## Diagrams with and without the request -/

/-- A session with an archive, its runner and one source file, but without the layout engine. -/
def sessionWith (source : String) : Session :=
  { files :=
      { entries := [(["p.jar"], .file [] 420), (["src"], .directory),
          (["src", "A.java"], .file (Text.Utf8.encode source) 420)]
        workingDirectory := [] }
    tools := ["java"]
    memory := .empty
    namesUsed := 0 }

/-- The settings of a renderer at `p.jar`. -/
def withRenderer : Settings :=
  { renderer := { jarPath := some "p.jar" } }

/-- Partners that do not answer. -/
def silentPartners : Image.Partners where
  «local» := .timedOut
  server := .failed "no server"

/-- A class without members is piped with the request as the second line. -/
theorem piping_law_emptyClass :
    let s := sessionWith "class A \x7b\x7d\n"
    let drawn := s.image withRenderer silentPartners "src" "svg"
    ∃ d command input timeout, answer s.files {} "src" = .ok d ∧ ¬ d.ShowsRequest ∧
      Call.image (.local command input timeout) ∈ drawn.calls ∧
      linesOf input =
        diagramMarker.toList :: layoutRequest.toList :: (linesOf d.text).tail := by
  intro s drawn
  obtain ⟨-, -, -, -, hdocuments, hinputs⟩ := piping_law "" s.files {} {} "src" s
  have hfirst : drawn.calls.head? = some (.image (.local
      ["java", "-Djava.awt.headless=true", "-jar", "p.jar", "-tsvg", "-pipe"]
      "@startuml\n!pragma layout smetana\nclass A \x7b\n\x7d\n@enduml\n" 60)) := by
    decide +kernel
  have hcall := List.mem_of_mem_head? hfirst
  obtain ⟨d, hd, hinput⟩ := hinputs _ _ _ _ _ _ hcall
  have hshown : (answer s.files {} "src").toOption.map
      (fun d => d.declarations.flatMap Diagram.PlantUml.shownTexts) = some ["A"] := by
    decide +kernel
  have hnot : ¬ d.ShowsRequest := by
    rintro ⟨decl, hdecl, shown, hmem, hmentions⟩
    rw [show answer s.files {} "src" = .ok d from hd] at hshown
    have hall : d.declarations.flatMap Diagram.PlantUml.shownTexts = ["A"] :=
      Option.some.inj hshown
    have hshown := List.mem_flatMap.mpr ⟨decl, hdecl, hmem⟩
    rw [hall, List.mem_singleton] at hshown
    rw [hshown] at hmentions
    exact not_occursIn (by decide) hmentions
  refine ⟨d, _, _, _, hd, hnot, hcall, ?_⟩
  rw [hinput]
  exact (hdocuments d hd).2.1.mpr hnot

/-- A text in an annotation hides the request from a diagram, and the rest of the line of a
marker comes to stand behind the request. -/
theorem request_hidden :
    let s := sessionWith "class A \x7b List<@N(\"!pragma layout smetana\") A> xs; \x7d\n"
    let text := "@startuml\nclass A \x7b\n" ++
      "  ~ xs : List<@N(\"!pragma layout smetana\") A>\n\x7d\n@enduml\n"
    (answer s.files {} "src").toOption.map (·.text) = some text ∧
      (s.image withRenderer silentPartners "src" "svg").calls.head? = some (.image (.local
        ["java", "-Djava.awt.headless=true", "-jar", "p.jar", "-tsvg", "-pipe"] text 60)) ∧
      layoutRequest.toList ∉ linesOf text ∧
      withLayout false "@startuml foo\n@enduml\n" =
        "@startuml\n!pragma layout smetana foo\n@enduml\n" := by
  exact ⟨by decide +kernel, by decide +kernel, by decide +kernel, by decide +kernel⟩

end JavaAtlas.Service

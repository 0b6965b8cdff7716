import JavaAtlas.ApiDocs.Generate
import JavaAtlas.Proofs.ApiDocs.Additions
import JavaAtlas.Proofs.Text.Blank

/-!
# Class paths that are read again

The class path of a project is put together from entries, written as one text, and read
again to find the archive with the annotation processor.  Reading takes blanks away at the
ends of the whole text, but not around its entries.  So the same entries come back exactly
if the first one does not begin with a blank and the last one does not end with one.

Main definitions:

- `ClassPath.HasEvenEnds`: no blank stands at the ends of a class path.
- `Adds`: the entries that the build tool adds, by what became of it.

Main results:

- Theorem `ClassPath.entries_text_eq_iff`: which entries come back.
- Theorem `fullClassPath_reread`: the class path of every project, read again.
- Theorem `blank_entry_not_reread`: an archive that is not on the class path it is
  taken from.
-/

namespace JavaAtlas.ApiDocs

open Storage FileSystem
open Text.Utf8 (Bytes encode)

namespace ClassPath

/-! ## Reading -/

/-- A class path is read from its trimmed text. -/
theorem entries_eq_listed (classPath : String) :
    entries classPath = listed (Text.trimmed classPath) := by
  rw [entries, listed, Text.trimmed, String.toList_ofList]

/-- The pieces hold all characters but the separators. -/
theorem flatten_pieces (cs : List Char) :
    (Text.pieces separator cs).flatten = cs.filter (· != separator) := by
  induction cs with
  | nil => rfl
  | cons c cs ih =>
      by_cases hc : c = separator
      case pos =>
        rw [Text.pieces, if_pos hc, List.flatten_cons, List.nil_append, ih,
          List.filter_cons_of_neg (by simp [hc])]
      case neg =>
        obtain ⟨p, ps, hcs, hcons⟩ := Text.exists_pieces_cons hc cs
        rw [hcs] at ih
        rw [hcons, List.filter_cons_of_pos (by simpa using hc), ← ih]
        rfl

/-- The entries that stand in a class path hold all its characters but the separators. -/
theorem flatMap_listed (classPath : String) :
    (listed classPath).flatMap String.toList = classPath.toList.filter (· != separator) := by
  rw [← flatten_pieces, listed, List.flatMap_map]
  simp only [String.toList_ofList]
  rw [List.flatMap_id', List.flatten_filter_not_isEmpty]

/-- A blank is no separator. -/
theorem ne_separator_of_isBlank {c : Char} (h : Text.isBlank c = true) :
    (c != separator) = true := by
  rw [bne_iff_ne]
  rintro rfl
  exact absurd h (by decide)

/-- A class path is read as the entries that stand in it exactly if trimming leaves it as
it is: blanks that are taken away are missing in the entries. -/
theorem entries_eq_listed_iff {classPath : String} :
    entries classPath = listed classPath ↔ Text.trim classPath.toList = classPath.toList := by
  constructor
  · intro h
    obtain ⟨front, back, hfront, hback, hcs⟩ := Text.exists_append_trim classPath.toList
    have hchars := congrArg (List.flatMap String.toList) h
    rw [entries_eq_listed, flatMap_listed, flatMap_listed, Text.trimmed,
      String.toList_ofList] at hchars
    have hkept : ∀ gap : List Char, gap.all Text.isBlank = true →
        gap.filter (· != separator) = gap := fun gap hgap =>
      List.filter_eq_self.mpr fun c hc =>
        ne_separator_of_isBlank (List.all_eq_true.mp hgap c hc)
    have hlength := congrArg List.length hchars
    rw [hcs, List.filter_append, List.filter_append, hkept _ hfront, hkept _ hback, ← hcs,
      List.length_append, List.length_append] at hlength
    obtain ⟨hnofront, hnoback⟩ : front.length = 0 ∧ back.length = 0 := by omega
    rw [List.length_eq_zero_iff] at hnofront hnoback
    rw [hnofront, hnoback, List.nil_append, List.append_nil] at hcs
    exact hcs.symm
  · intro h
    rw [entries_eq_listed, Text.trimmed, h, String.ofList_toList]

/-! ## The ends of a class path -/

/-- The first entry does not begin with a blank, and the last one does not end with one. -/
def HasEvenEnds (es : List String) : Prop :=
  (∀ e ∈ es.head?, ∀ c ∈ e.toList.head?, Text.isBlank c = false) ∧
    ∀ e ∈ es.getLast?, ∀ c ∈ e.toList.getLast?, Text.isBlank c = false

/-- Only the character at an end is looked at, not all characters. -/
instance decidableEvenEnd (last? : Option Char) :
    Decidable (∀ c ∈ last?, Text.isBlank c = false) :=
  Option.decidableForallMem last?

instance (es : List String) : Decidable (HasEvenEnds es) :=
  inferInstanceAs (Decidable (_ ∧ _))

theorem toList_text_cons_cons (e f : String) (es : List String) :
    (text (e :: f :: es)).toList = e.toList ++ separator :: (text (f :: es)).toList := by
  simp [text, String.intercalate_cons_cons]

/-- A class path begins as its first entry does. -/
theorem head?_text {e : String} (hne : e ≠ "") (es : List String) :
    (text (e :: es)).toList.head? = e.toList.head? := by
  cases es with
  | nil => simp [text]
  | cons f es =>
      rw [toList_text_cons_cons, List.head?_append_of_ne_nil _ (by simpa using hne)]

/-- A class path ends as its last entry does. -/
theorem getLast?_text {es : List String} (h : ∀ e ∈ es, e ≠ "") (e : String)
    (hlast : es.getLast? = some e) : (text es).toList.getLast? = e.toList.getLast? := by
  induction es with
  | nil => cases hlast
  | cons f es ih =>
      cases es with
      | nil =>
          obtain rfl : f = e := by simpa using hlast
          simp [text]
      | cons g es =>
          have hrest := ih (fun d hd => h d (List.mem_cons_of_mem f hd)) (by simpa using hlast)
          have hmem : e ∈ f :: g :: es := List.mem_of_getLast? hlast
          have hne : e.toList ≠ [] := by simpa using h e hmem
          obtain ⟨c, hc⟩ := Option.ne_none_iff_exists'.mp
            (mt List.getLast?_eq_none_iff.mp hne)
          rw [hc] at hrest
          rw [toList_text_cons_cons, List.getLast?_append, List.getLast?_cons, hrest, hc]
          rfl

/-- Trimming leaves a class path as it is exactly if its ends are even. -/
theorem trim_text_eq_iff {es : List String} (h : ∀ e ∈ es, IsEntry e) :
    Text.trim (text es).toList = (text es).toList ↔ HasEvenEnds es := by
  rw [Text.trim_eq_self_iff]
  cases es with
  | nil => exact iff_of_true ⟨nofun, nofun⟩ ⟨nofun, nofun⟩
  | cons e es =>
      have hne : ∀ f ∈ e :: es, f ≠ "" := fun f hf => (h f hf).1
      have hlast := List.getLast?_eq_some_getLast (List.cons_ne_nil e es)
      rw [head?_text (hne e List.mem_cons_self), getLast?_text hne _ hlast, HasEvenEnds, hlast]
      simp

/-- Entries come back from the class path that they are written as exactly if its ends are
even. -/
theorem entries_text_eq_iff {es : List String} (h : ∀ e ∈ es, IsEntry e) :
    entries (text es) = es ↔ HasEvenEnds es := by
  rw [← trim_text_eq_iff h, ← entries_eq_listed_iff, listed_text h]

/-- With even ends, the archive with the annotation processor is one of the entries that
are passed with it. -/
theorem HasEvenEnds.mem_of_processorOf? {es : List String} {archive : String}
    (heven : HasEvenEnds es) (h : ∀ e ∈ es, IsEntry e)
    (harchive : processorOf? (text es) = some archive) : archive ∈ es := by
  rw [← (entries_text_eq_iff h).mpr heven]
  exact mem_entries_of_processorOf? harchive

end ClassPath

/-! ## The class path of a project -/

/-- The entries that the build tool of a project adds to its class path. -/
inductive Adds (partners : Partners) (fs : FileSystem) (root : Path) (usual : String)
    (timeout : Int) : List String → Prop where
  | noDescription (h : fs.askFile (descriptionOf root) = .ok false) :
      Adds partners fs root usual timeout []
  | noSuccess {call : Tool.Call} {reply : Reply} {left : FileSystem} {o : Tool.Outcome}
      (h : Asked partners fs root usual timeout call reply left)
      (hending : reply.ending = .ok o) (hexit : o.exit ≠ some 0) :
      Adds partners fs root usual timeout []
  | noList {call : Tool.Call} {reply : Reply} {left : FileSystem}
      (h : Asked partners fs root usual timeout call reply left)
      (hlist : left.askFile (listOf root) = .ok false) : Adds partners fs root usual timeout []
  /-- A success left a text. -/
  | listed {call : Tool.Call} {reply : Reply} {left : FileSystem} {o : Tool.Outcome}
      {content : String} (h : Asked partners fs root usual timeout call reply left)
      (hending : reply.ending = .ok o) (hexit : o.exit = some 0)
      (hlist : left.read (listOf root) = .ok (encode content)) :
      Adds partners fs root usual timeout (ClassPath.entries (Text.withLineFeeds content))

section

variable {partners : Partners} {fs : FileSystem} {root : Path} {given : Option String}
  {usual classPath : String} {timeout : Int} {found : List String}

theorem Adds.isEntry (h : Adds partners fs root usual timeout found) :
    ∀ e ∈ found, ClassPath.IsEntry e := by
  cases h with
  | noDescription => exact List.forall_mem_nil _
  | noSuccess => exact List.forall_mem_nil _
  | noList => exact List.forall_mem_nil _
  | listed => exact fun e => ClassPath.isEntry_of_mem_entries

/-- What is collected after the tool was asked is what it adds. -/
theorem Asked.adds {call : Tool.Call} {reply : Reply} {left : FileSystem}
    (h : Asked partners fs root usual timeout call reply left) {o : Tool.Outcome}
    (ho : reply.ending = .ok o) {calls : List (Helper × Tool.Call)}
    (hfound : (collectList left (listOf root) o calls).result = .ok found) :
    Adds partners fs root usual timeout found := by
  have hread : (if o.isOk then readList left (listOf root) else .ok []) =
      .ok found := by
    unfold collectList at hfound
    cases hwithout : withoutFile left (listOf root) with
    | error f => simp [hwithout] at hfound
    | ok after => simpa only [hwithout] using hfound
  split at hread
  case isTrue hok =>
    rcases readList_eq_ok_iff.mp hread with ⟨hask, hnone⟩ | ⟨content, -, hcontent, hentries⟩
    · rw [hnone]
      exact .noList h hask
    · rw [hentries]
      exact .listed h ho ((Tool.Outcome.isOk_iff _).mp hok) hcontent
  case isFalse hok =>
    cases hread
    exact .noSuccess h ho fun hexit => hok ((Tool.Outcome.isOk_iff _).mpr hexit)

/-- The class path of a project is written from the given entries and those that the build
tool adds. -/
theorem exists_adds_of_ok
    (h : (fullClassPath partners fs root given usual timeout).result = .ok classPath) :
    ∃ found, Adds partners fs root usual timeout found ∧
      classPath = ClassPath.text (ClassPath.merged (ClassPath.entries (given.getD "")) found) := by
  unfold fullClassPath at h
  dsimp only at h
  split at h
  case h_1 => cases h
  case h_2 hask => exact ⟨[], .noDescription hask, (Except.ok.inj h).symm⟩
  case h_3 hask =>
    split at h
    case h_1 => cases h
    case h_2 program hprogram =>
      obtain ⟨found, hfound, rfl⟩ := Text.Utf8.map_eq_ok_iff.mp h
      unfold dependencies at hfound
      dsimp only at hfound
      split at hfound
      case h_1 => cases hfound
      case h_2 left hstored =>
        have hasked : Asked partners fs root usual timeout (dependencyCall program root timeout)
            (partners.buildTool fs (dependencyCall program root timeout)) left :=
          ⟨hask, ⟨program, hprogram, rfl⟩, rfl, hstored⟩
        split at hfound
        case h_1 => cases hfound
        case h_2 o ho => exact ⟨found, hasked.adds ho hfound, rfl⟩

end

/-- The class path of a project holds the given entries and those that the build tool adds,
each where it first occurs.  It is read as these entries again exactly if its ends are
even, and then the archive that is named for the annotation processor is one of them.
Entries that were read from any text come back under the same condition. -/
theorem fullClassPath_reread {partners : Partners} {fs : FileSystem} {root : Path}
    {given : Option String} {usual classPath : String} {timeout : Int}
    (h : (fullClassPath partners fs root given usual timeout).result = .ok classPath) :
    ∃ found, Adds partners fs root usual timeout found ∧
      let all := ClassPath.merged (ClassPath.entries (given.getD "")) found
      ClassPath.listed classPath = all ∧
      (ClassPath.entries classPath = all ↔ ClassPath.HasEvenEnds all) ∧
      (ClassPath.HasEvenEnds all → ∀ archive,
        classPathOptions classPath = ["-classpath", classPath, "-processorpath", archive,
          "-processor", annotationProcessor] →
        archive ∈ all) ∧
      ∀ content, ClassPath.entries (ClassPath.text (ClassPath.entries content)) =
          ClassPath.entries content ↔
        ClassPath.HasEvenEnds (ClassPath.entries content) := by
  obtain ⟨found, hadds, rfl⟩ := exists_adds_of_ok h
  have hall : ∀ e ∈ ClassPath.merged (ClassPath.entries (given.getD "")) found,
      ClassPath.IsEntry e := by
    intro e he
    rw [ClassPath.merged, List.mem_eraseDups, List.mem_append] at he
    exact he.elim ClassPath.isEntry_of_mem_entries (hadds.isEntry e)
  refine ⟨found, hadds, ClassPath.listed_text hall, ClassPath.entries_text_eq_iff hall, ?_,
    fun content => ClassPath.entries_text_eq_iff fun e => ClassPath.isEntry_of_mem_entries⟩
  intro heven archive hoptions
  refine heven.mem_of_processorOf? hall ?_
  unfold classPathOptions at hoptions
  split at hoptions
  case isTrue => cases hoptions
  case isFalse =>
    split at hoptions
    case h_1 => simp at hoptions
    case h_2 archive' harchive =>
      obtain rfl : archive' = archive := by simpa using hoptions
      exact harchive

/-- A given entry is followed by one that the build tool adds, and its archive is found
again. -/
theorem fullClassPath_reread_projectTree :
    let partners := partnersLeaving ⟨some 0, "", false⟩ (some (encode "b.jar:lombok.jar \n"))
    (fullClassPath partners (projectTree []) (Path.ofText "p") (some " a b.jar:") "mvn"
        300).result = .ok "a b.jar:b.jar:lombok.jar" ∧
      ∃ found, ClassPath.entries "a b.jar:b.jar:lombok.jar" =
          ClassPath.merged ["a b.jar"] found ∧
        "lombok.jar" ∈ ClassPath.merged ["a b.jar"] found := by
  intro partners
  have hresult : (fullClassPath partners (projectTree []) (Path.ofText "p") (some " a b.jar:")
      "mvn" 300).result = .ok "a b.jar:b.jar:lombok.jar" := by
    decide +kernel
  obtain ⟨found, -, hlisted, hback, hprocessor, -⟩ := fullClassPath_reread hresult
  have hown : ClassPath.entries (Option.getD (some " a b.jar:") "") = ["a b.jar"] := by
    decide +kernel
  rw [hown] at hlisted hback hprocessor
  have heven : ClassPath.HasEvenEnds (ClassPath.merged ["a b.jar"] found) := by
    rw [← hlisted]
    decide +kernel
  exact ⟨hresult, found, hback.mpr heven, hprocessor heven "lombok.jar" (by decide +kernel)⟩

/-- An entry behind an empty one keeps its blank and loses it when it is read again: the
archive that is named for the annotation processor is not on the class path. -/
theorem blank_entry_not_reread :
    let work := fullClassPath (partnersReplying default default)
      { entries := [], workingDirectory := [] } (Path.ofText "p") (some ": lombok.jar") "mvn" 300
    work.result = .ok " lombok.jar" ∧
      ClassPath.entries " lombok.jar" ≠
        ClassPath.merged (ClassPath.entries ": lombok.jar") [] ∧
      classPathOptions " lombok.jar" = ["-classpath", " lombok.jar", "-processorpath",
        "lombok.jar", "-processor", annotationProcessor] ∧
      "lombok.jar" ∉ ClassPath.listed " lombok.jar" ∧
      ClassPath.entries (ClassPath.text (ClassPath.entries ": lombok.jar")) ≠
        ClassPath.entries ": lombok.jar" := by
  refine ⟨?_, ?_, ?_, ?_, ?_⟩ <;> decide +kernel

end JavaAtlas.ApiDocs

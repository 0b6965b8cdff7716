import JavaAtlas.Proofs.Text.Utf8
import JavaAtlas.Source.Reader

/-!
# Files with other line ends

Whether the lines of a file end in line feeds, in carriage returns or in both makes no
difference for its unit.  This holds for any octets: an octet of a line end belongs to no
longer character, so it ends one that has begun, whichever octet it is, and the same
replacement characters stand before it.

Main definitions:

- `LineEnd`: how lines end.
- `LineEnd.inOctets`, `LineEnd.inCharacters`: octets and characters with other line ends.

Main results:

- Theorem `decodeFrom_inOctets`: decoding leaves line ends where they are.
- Theorem `unifyLineEnds_inCharacters`: reading undoes the change of line ends.
- Theorem `lineEnds_immaterial`: the unit of a file does not depend on its line ends.
-/

namespace JavaAtlas.Text

/-- How lines end. -/
inductive LineEnd where
  | lineFeed
  | carriageReturn
  | both
  deriving DecidableEq, Repr

namespace LineEnd

/-- The octets of a line end. -/
def octets : LineEnd → Utf8.Bytes
  | lineFeed => [0x0A]
  | carriageReturn => [0x0D]
  | both => [0x0D, 0x0A]

/-- The characters of a line end. -/
def characters : LineEnd → List Char
  | lineFeed => ['\n']
  | carriageReturn => ['\r']
  | both => ['\r', '\n']

/-- The octets with other line ends for all line feeds. -/
def inOctets (e : LineEnd) (bs : Utf8.Bytes) : Utf8.Bytes :=
  bs.flatMap fun b => if b = 0x0A then e.octets else [b]

/-- The characters with other line ends for all line feeds. -/
def inCharacters (e : LineEnd) (cs : List Char) : List Char :=
  cs.flatMap fun c => if c = '\n' then e.characters else [c]

theorem inCharacters_append (e : LineEnd) (cs ds : List Char) :
    e.inCharacters (cs ++ ds) = e.inCharacters cs ++ e.inCharacters ds :=
  List.flatMap_append

theorem inCharacters_eq_self (e : LineEnd) {cs : List Char} (h : '\n' ∉ cs) :
    e.inCharacters cs = cs := by
  induction cs with
  | nil => rfl
  | cons c cs ih =>
      have hc : c ≠ '\n' := (List.ne_of_not_mem_cons h).symm
      rw [inCharacters, List.flatMap_cons, if_neg hc]
      exact congrArg (c :: ·) (ih (List.not_mem_of_not_mem_cons h))

/-- No line feed is left where carriage returns stand for all of them. -/
theorem not_mem_inCharacters (cs : List Char) : '\n' ∉ carriageReturn.inCharacters cs := by
  intro h
  obtain ⟨c, -, hc⟩ := List.mem_flatMap.mp h
  split at hc
  case isTrue => exact absurd hc (by decide)
  case isFalse hne => exact hne (List.mem_singleton.mp hc).symm

end LineEnd

/-- Reading undoes the change of line ends. -/
theorem unifyLineEnds_inCharacters (e : LineEnd) {cs : List Char} (h : '\r' ∉ cs) :
    unifyLineEnds (e.inCharacters cs) = cs := by
  induction cs with
  | nil => rfl
  | cons c cs ih =>
      have hc : c ≠ '\r' := (List.ne_of_not_mem_cons h).symm
      replace ih := ih (List.not_mem_of_not_mem_cons h)
      have hcons : e.inCharacters (c :: cs) =
          (if c = '\n' then e.characters else [c]) ++ e.inCharacters cs := List.flatMap_cons
      rw [hcons]
      by_cases hfeed : c = '\n'
      case neg =>
        rw [if_neg hfeed, List.singleton_append, unifyLineEnds, if_neg hc, ih]
        rintro rest rfl
        exact absurd rfl hc
      case pos =>
        rw [if_pos hfeed, hfeed]
        cases e with
        | lineFeed =>
            rw [LineEnd.characters, List.singleton_append, unifyLineEnds, if_neg (by decide), ih]
            rintro rest hr -
            exact absurd hr (by decide)
        | both => exact congrArg ('\n' :: ·) ih
        | carriageReturn =>
            -- the next character is no line feed, so the carriage return stands alone
            rw [LineEnd.characters, List.singleton_append, unifyLineEnds, if_pos rfl, ih]
            rintro rest - hrest
            exact LineEnd.not_mem_inCharacters cs (hrest ▸ List.mem_cons_self)

namespace Utf8

/-! ## Octets that stand alone -/

/-- A state between characters, or after at least one octet of a character. -/
def IsReached (state : Option Pending) : Prop :=
  ∀ p, state = some p → ∃ octets, octets ≠ [] ∧ p.Begins octets

theorem isReached_none : IsReached none :=
  nofun

/-- What is put for a character that is broken off. -/
def brokenOff : Option Pending → List Char
  | none => []
  | some _ => [replacement]

theorem feed_not_mem_brokenOff (state : Option Pending) : '\n' ∉ brokenOff state := by
  cases state with
  | none => exact List.not_mem_nil
  | some _ => exact show '\n' ∉ [replacement] by decide

theorem decodeFrom_nil (state : Option Pending) : decodeFrom state [] = brokenOff state := by
  cases state <;> rfl

theorem lead_of_lt {b : UInt8} (h : b.toNat < 0x80) : lead b = .single (Char.ofNat b.toNat) := by
  rw [lead, if_pos h]

/-- An octet below 80 breaks off what was begun, and is a character of its own. -/
theorem step_of_lt {state : Option Pending} (hs : IsReached state) {b : UInt8}
    (h : b.toNat < 0x80) : step state b = (brokenOff state ++ [Char.ofNat b.toNat], none) := by
  cases state with
  | none => simp only [step, step.fresh, lead_of_lt h, brokenOff]
  | some p =>
      obtain ⟨octets, -, hp⟩ := hs p rfl
      have hrefused : ¬ p.accepts b = true := fun haccepts => by
        have hleast := (bounds_of_accepts hp haccepts).2.2.1
        omega
      simp only [step, if_neg hrefused, step.fresh, lead_of_lt h, brokenOff]

theorem decodeFrom_of_lt {state : Option Pending} (hs : IsReached state) {b : UInt8}
    (h : b.toNat < 0x80) (bs : Bytes) :
    decodeFrom state (b :: bs) =
      brokenOff state ++ Char.ofNat b.toNat :: decodeFrom none bs := by
  rw [decodeFrom, step_of_lt hs h]
  exact List.append_assoc ..

/-- A line end breaks off what was begun. -/
theorem decodeFrom_lineEnd (e : LineEnd) {state : Option Pending} (hs : IsReached state)
    (bs : Bytes) :
    decodeFrom state (e.octets ++ bs) =
      brokenOff state ++ (e.characters ++ decodeFrom none bs) := by
  cases e with
  | lineFeed => exact decodeFrom_of_lt hs (by decide) bs
  | carriageReturn => exact decodeFrom_of_lt hs (by decide) bs
  | both =>
      have hreturn : decodeFrom state (0x0D :: 0x0A :: bs) =
          brokenOff state ++ '\r' :: decodeFrom none (0x0A :: bs) :=
        decodeFrom_of_lt hs (by decide) _
      have hfeed : decodeFrom none (0x0A :: bs) = '\n' :: decodeFrom none bs :=
        decodeFrom_of_lt isReached_none (by decide) bs
      exact hreturn.trans (by rw [hfeed]; rfl)

/-- A character of several octets has a number from 80 on. -/
theorem le_toNat_of_encode {c : Char} (h : 1 < (String.utf8EncodeChar c).length) :
    0x80 ≤ c.toNat := by
  refine Nat.le_of_not_lt fun hlt => ?_
  have hsmall : c.val.toNat ≤ 0x7F := Nat.le_of_lt_succ hlt
  simp only [String.utf8EncodeChar, if_pos hsmall, List.length_singleton] at h
  exact absurd h (Nat.lt_irrefl 1)

theorem le_toNat_replacement : 0x80 ≤ replacement.toNat := by
  decide

/-- Reading an octet where a character begins leads to a state that is reached, and puts no
character below 80 but the octet itself. -/
theorem fresh_of_le {b : UInt8} (h : 0x80 ≤ b.toNat) {settled : List Char}
    (hsettled : ∀ c ∈ settled, 0x80 ≤ c.toNat) :
    IsReached (step.fresh b settled).2 ∧ ∀ c ∈ (step.fresh b settled).1, 0x80 ≤ c.toNat := by
  unfold step.fresh
  cases hlead : lead b with
  | single c =>
      -- only the first class of octets are characters
      simp only [lead, beq_iff_eq, if_neg (Nat.not_lt.mpr h)] at hlead
      repeat' split at hlead
      all_goals cases hlead
  | opening p =>
      refine ⟨fun q hq => ?_, hsettled⟩
      cases hq
      exact ⟨[b], List.cons_ne_nil b [], begins_of_lead hlead⟩
  | invalid =>
      refine ⟨isReached_none, fun c hc => ?_⟩
      rcases List.mem_append.mp hc with hc | hc
      · exact hsettled c hc
      · rw [List.mem_singleton.mp hc]
        exact le_toNat_replacement

/-- An octet from 80 on leads to a state that is reached, and puts no character below 80. -/
theorem step_of_le {state : Option Pending} (hs : IsReached state) {b : UInt8}
    (h : 0x80 ≤ b.toNat) :
    IsReached (step state b).2 ∧ ∀ c ∈ (step state b).1, 0x80 ≤ c.toNat := by
  cases state with
  | none => exact fresh_of_le h (List.forall_mem_nil _)
  | some p =>
      obtain ⟨octets, hne, hp⟩ := hs p rfl
      rw [step]
      by_cases haccepts : p.accepts b = true
      case neg =>
        rw [if_neg haccepts]
        exact fresh_of_le h (List.forall_mem_singleton.mpr le_toNat_replacement)
      case pos =>
        rw [if_pos haccepts]
        by_cases hm : p.missing ≤ 1
        case pos =>
          rw [if_pos hm]
          refine ⟨isReached_none, fun c hc => ?_⟩
          rw [List.mem_singleton.mp hc]
          apply le_toNat_of_encode
          rw [hp.complete haccepts hm, List.length_append, List.length_singleton]
          have := List.length_pos_iff.mpr hne
          omega
        case neg =>
          rw [if_neg hm]
          refine ⟨fun q hq => ?_, List.forall_mem_nil _⟩
          cases hq
          exact ⟨octets ++ [b], by simp, hp.extended haccepts hm⟩

/-! ## Line ends -/

/-- The characters that an octet other than a line feed settles are no line ends. -/
theorem inCharacters_of_le (e : LineEnd) {cs : List Char} (h : ∀ c ∈ cs, 0x80 ≤ c.toNat) :
    e.inCharacters cs = cs :=
  e.inCharacters_eq_self fun hmem => absurd (h '\n' hmem) (by decide)

/-- Decoding leaves line ends where they are. -/
theorem decodeFrom_inOctets (e : LineEnd) (bs : Bytes) {state : Option Pending}
    (hs : IsReached state) :
    decodeFrom state (e.inOctets bs) = e.inCharacters (decodeFrom state bs) := by
  induction bs generalizing state with
  | nil =>
      rw [LineEnd.inOctets, List.flatMap_nil, decodeFrom_nil]
      exact (e.inCharacters_eq_self (feed_not_mem_brokenOff state)).symm
  | cons b bs ih =>
      have hcons : e.inOctets (b :: bs) =
          (if b = 0x0A then e.octets else [b]) ++ e.inOctets bs := List.flatMap_cons
      rw [hcons]
      by_cases hfeed : b = 0x0A
      case pos =>
        have hread : decodeFrom state (0x0A :: bs) =
            brokenOff state ++ ('\n' :: decodeFrom none bs) :=
          decodeFrom_lineEnd .lineFeed hs bs
        have hchanged : e.inCharacters ('\n' :: decodeFrom none bs) =
            e.characters ++ e.inCharacters (decodeFrom none bs) := List.flatMap_cons
        rw [if_pos hfeed, hfeed, decodeFrom_lineEnd e hs, hread, LineEnd.inCharacters_append,
          LineEnd.inCharacters_eq_self e (feed_not_mem_brokenOff state), hchanged,
          ih isReached_none]
      case neg =>
        rw [if_neg hfeed, List.singleton_append]
        rcases Nat.lt_or_ge b.toNat 0x80 with hlt | hle
        · have hchar : Char.ofNat b.toNat ≠ '\n' := fun heq => hfeed (by
            have hvalue := congrArg (fun c : Char => c.val.toNat) heq
            simp only [toNat_val_ofNat (.inl (by omega) : b.toNat.isValidChar)] at hvalue
            exact UInt8.toNat_inj.mp hvalue)
          have hfirst : e.inCharacters (Char.ofNat b.toNat :: decodeFrom none bs) =
              Char.ofNat b.toNat :: e.inCharacters (decodeFrom none bs) :=
            List.flatMap_cons.trans (by rw [if_neg hchar]; rfl)
          rw [decodeFrom_of_lt hs hlt, decodeFrom_of_lt hs hlt, LineEnd.inCharacters_append,
            LineEnd.inCharacters_eq_self e (feed_not_mem_brokenOff state), hfirst,
            ih isReached_none]
        · obtain ⟨hreached, hsettled⟩ := step_of_le hs hle
          have hsplit : ∀ rest, decodeFrom state (b :: rest) =
              (step state b).1 ++ decodeFrom (step state b).2 rest := fun rest => by
            rw [decodeFrom]
          rw [hsplit, hsplit, LineEnd.inCharacters_append, inCharacters_of_le e hsettled,
            ih hreached]

/-- A character below 80 is read from an octet of that number. -/
theorem exists_octet_of_mem_decodeFrom {bs : Bytes} {state : Option Pending}
    (hs : IsReached state) {c : Char} (hc : c ∈ decodeFrom state bs) (hlt : c.toNat < 0x80) :
    ∃ b ∈ bs, b.toNat = c.toNat := by
  have hbroken : ∀ {state}, c ∉ brokenOff state := fun {state} hmem => by
    cases state with
    | none => exact List.not_mem_nil hmem
    | some _ =>
        have hreplacement : c = replacement := List.mem_singleton.mp hmem
        rw [hreplacement] at hlt
        exact absurd le_toNat_replacement (Nat.not_le_of_lt hlt)
  induction bs generalizing state with
  | nil => exact absurd (decodeFrom_nil state ▸ hc) hbroken
  | cons b bs ih =>
      have hlater : ∀ {next}, IsReached next → c ∈ decodeFrom next bs →
          ∃ x ∈ b :: bs, x.toNat = c.toNat := fun hnext hmem =>
        let ⟨x, hx, heq⟩ := ih hnext hmem
        ⟨x, List.mem_cons_of_mem b hx, heq⟩
      rcases Nat.lt_or_ge b.toNat 0x80 with hsmall | hlarge
      · rw [decodeFrom_of_lt hs hsmall, List.mem_append, List.mem_cons] at hc
        rcases hc with hmem | hself | hmem
        · exact absurd hmem hbroken
        · rw [hself]
          exact ⟨b, List.mem_cons_self, (toNat_val_ofNat (.inl (by omega))).symm⟩
        · exact hlater isReached_none hmem
      · obtain ⟨hreached, hsettled⟩ := step_of_le hs hlarge
        rw [decodeFrom] at hc
        rcases List.mem_append.mp hc with hmem | hmem
        · exact absurd (hsettled c hmem) (Nat.not_le_of_lt hlt)
        · exact hlater hreached hmem

/-- Only a carriage return is read as one. -/
theorem return_not_mem_decode {bs : Bytes} (h : 0x0D ∉ bs) : '\r' ∉ (decode bs).toList := by
  rw [decode, String.toList_ofList]
  intro hmem
  obtain ⟨b, hb, heq⟩ := exists_octet_of_mem_decodeFrom isReached_none hmem (by decide)
  have hreturn : b = 0x0D := UInt8.toNat_inj.mp heq
  exact h (hreturn ▸ hb)

end Utf8

end JavaAtlas.Text

namespace JavaAtlas.Source

open Storage
open Text (LineEnd)
open Text.Utf8 (Bytes decode)

/-! ## Files -/

/-- Decoding puts the changed line ends, and nothing else changes. -/
theorem decode_inOctets (e : LineEnd) (content : Bytes) :
    decode (e.inOctets content) = String.ofList (e.inCharacters (decode content).toList) := by
  rw [decode, Text.Utf8.decodeFrom_inOctets e content Text.Utf8.isReached_none, decode,
    String.toList_ofList]

/-- A file is read as if all its lines ended in line feeds. -/
theorem textOfFile_inOctets (e : LineEnd) {content : Bytes} (h : 0x0D ∉ content) :
    textOfFile (e.inOctets content) = decode content := by
  rw [textOfFile, decode_inOctets, Text.withLineFeeds, String.toList_ofList,
    Text.unifyLineEnds_inCharacters e (Text.Utf8.return_not_mem_decode h), String.ofList_toList]

section

variable {content : Bytes} (h : 0x0D ∉ content) {e e' : LineEnd} {fs fs' : FileSystem}
  {p : Path} (hread : fs.read p = .ok (e.inOctets content))
  (hread' : fs'.read p = .ok (e'.inOctets content))

include h hread hread'

theorem unitOfFile_eq (language : Language) (root : String) :
    unitOfFile fs' language root p = unitOfFile fs language root p := by
  rw [unitOfFile, unitOfFile, hread, hread']
  dsimp only
  rw [textOfFile_inOctets e h, textOfFile_inOctets e' h]

end

/-- The line ends of a file do not matter.  Decoding leaves them where they are, with the same
replacement characters before them; the text of the file is the same for all; and so is its
unit, whichever language is asked for or told by the path. -/
theorem lineEnds_immaterial {content : Bytes} (h : 0x0D ∉ content) (e e' : LineEnd) :
    decode (e.inOctets content) = String.ofList (e.inCharacters (decode content).toList) ∧
    textOfFile (e.inOctets content) = decode content ∧
    (∀ (fs fs' : FileSystem) (p : Path), fs.read p = .ok (e.inOctets content) →
      fs'.read p = .ok (e'.inOctets content) → ∀ language root,
        unitOfFile fs' language root p = unitOfFile fs language root p) ∧
    (∀ (fs fs' : FileSystem) (path : String),
      fs.read (Path.asWritten path) = .ok (e.inOctets content) →
      fs'.read (Path.asWritten path) = .ok (e'.inOctets content) → ∀ root,
        unitOfPath fs' root path = unitOfPath fs root path) := by
  refine ⟨decode_inOctets e content, textOfFile_inOctets e h, fun fs fs' p => unitOfFile_eq h,
    fun fs fs' path hread hread' root => ?_⟩
  simp only [unitOfPath, unitOfFile_eq h hread hread']

/-- A directory with one source file. -/
def singleFile (content : Bytes) : FileSystem where
  entries := [(["A.java"], .file content 420)]
  workingDirectory := []

/-- The first two of three octets of a character before a line end, in a comment. -/
def cutBeforeLineEnd : Bytes :=
  [0x2F, 0x2F, 0xE2, 0x82, 0x0A, 0x63, 0x6C, 0x61, 0x73, 0x73, 0x20, 0x41, 0x7B, 0x7D, 0x0A]

/-- Octets that are cut off before a line end, with line feeds and with both. -/
theorem lineEnds_immaterial_cutBeforeLineEnd :
    decode (LineEnd.both.inOctets cutBeforeLineEnd) = "//\uFFFD\r\nclass A{}\r\n" ∧
      textOfFile (LineEnd.both.inOctets cutBeforeLineEnd) = "//\uFFFD\nclass A{}\n" ∧
      unitOfPath (singleFile (LineEnd.carriageReturn.inOctets cutBeforeLineEnd)) "" "A.java" =
        unitOfPath (singleFile (LineEnd.both.inOctets cutBeforeLineEnd)) "" "A.java" := by
  have hreturn : 0x0D ∉ cutBeforeLineEnd := by decide
  obtain ⟨hdecode, htext, -, hunit⟩ := lineEnds_immaterial hreturn .both .carriageReturn
  have hcut : decode cutBeforeLineEnd = "//\uFFFD\nclass A{}\n" := by decide
  exact ⟨by rw [hdecode, hcut]; decide, by rw [htext, hcut],
    hunit _ _ "A.java" rfl rfl ""⟩

end JavaAtlas.Source

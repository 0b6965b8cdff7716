import Mathlib.Data.Finset.Card
import JavaAtlas.Proofs.Diagram.Validation
import JavaAtlas.Proofs.Image.Outcome
import JavaAtlas.Service.Session

/-!
# What is remembered of local renderers

A session is asked again and again whether the local renderer at a path can be used, also
by every drawing in a known format, while files and programs come and go.  The answer is
that of the last time, unless at least eight other paths were answered since: then, and the
first time, it is found out anew.  A question that cannot be answered leaves no trace.

Main definitions:

- `Image.latest`: the latest answer for each path.
- `Event`, `Session.after`: what happens to a session.
- `Course`: a session with all questions that it was asked.

Main results:

- Theorem `Image.ask_take_latest`: the latest answers remain when a path is asked for.
- Theorem `Course.Faithful.after`, theorem `Course.Faithful.run`: a step and a run keep the
  latest answers remembered, as many as there is room for.
- Theorem `Course.answers_law`: which answer a path is given.
- Theorem `Course.unanswered_not_counted`: a question without an answer displaces none.
-/

namespace JavaAtlas.Image

open Storage

/-! ## The latest answers -/

/-- The paths of answers. -/
def paths (r : Remembered) : List (Option String) :=
  r.map Prod.fst

theorem mem_paths_cons {q : Option String × Bool} {r : Remembered} {path : Option String} :
    path ∈ paths (q :: r) ↔ path = q.1 ∨ path ∈ paths r :=
  List.mem_cons

theorem mem_paths_append {r r' : Remembered} {path : Option String} :
    path ∈ paths (r ++ r') ↔ path ∈ paths r ∨ path ∈ paths r' := by
  simp only [paths, List.map_append, List.mem_append]

theorem mem_paths_of_mem_take {r : Remembered} {n : Nat} {path : Option String}
    (h : path ∈ paths (r.take n)) : path ∈ paths r :=
  ((List.take_sublist n r).map Prod.fst).subset h

/-- The answers for other paths. -/
def without (path : Option String) (r : Remembered) : Remembered :=
  r.filter (·.1 != path)

/-- The latest answer for each path, of answers the latest of which is the first. -/
def latest : Remembered → Remembered
  | [] => []
  | q :: earlier => q :: without q.1 (latest earlier)

variable {r : Remembered} {path : Option String}

theorem without_cons_of_eq {q : Option String × Bool} (h : q.1 = path) :
    without path (q :: r) = without path r :=
  List.filter_cons_of_neg (by simpa using h)

theorem without_cons_of_ne {q : Option String × Bool} (h : q.1 ≠ path) :
    without path (q :: r) = q :: without path r :=
  List.filter_cons_of_pos (by simpa using h)

theorem without_eq_self (h : path ∉ paths r) : without path r = r :=
  List.filter_eq_self.mpr fun _ hq => bne_iff_ne.mpr fun heq =>
    h (heq ▸ List.mem_map_of_mem hq)

theorem mem_paths_without {other : Option String} :
    path ∈ paths (without other r) ↔ path ∈ paths r ∧ path ≠ other := by
  simp only [paths, without, List.mem_map, List.mem_filter, bne_iff_ne, ne_eq]
  constructor
  · rintro ⟨q, ⟨hq, hne⟩, rfl⟩
    exact ⟨⟨q, hq, rfl⟩, hne⟩
  · rintro ⟨⟨q, hq, rfl⟩, hne⟩
    exact ⟨q, ⟨hq, hne⟩, rfl⟩

theorem mem_paths_latest : path ∈ paths (latest r) ↔ path ∈ paths r := by
  induction r with
  | nil => rfl
  | cons q earlier ih =>
      have hwithout : path ∈ paths (without q.1 (latest earlier)) ↔
          path ∈ paths earlier ∧ path ≠ q.1 :=
        mem_paths_without.trans (and_congr_left fun _ => ih)
      rw [latest, mem_paths_cons, mem_paths_cons]
      exact (or_congr_right hwithout).trans ⟨fun h => h.imp_right And.left, fun h =>
        (em (path = q.1)).imp_right fun hne => ⟨h.resolve_left hne, hne⟩⟩

theorem nodup_latest (r : Remembered) : (paths (latest r)).Nodup := by
  induction r with
  | nil => exact List.nodup_nil
  | cons q earlier ih =>
      refine List.nodup_cons.mpr ⟨fun h => (mem_paths_without.mp h).2 rfl, ?_⟩
      exact ih.sublist (List.filter_sublist.map Prod.fst)

/-- There are as many latest answers as different paths. -/
theorem length_latest (r : Remembered) : (latest r).length = (paths r).toFinset.card := by
  have hsame : (paths (latest r)).toFinset = (paths r).toFinset := by
    ext path
    rw [List.mem_toFinset, List.mem_toFinset, mem_paths_latest]
  rw [← hsame, List.toFinset_card_of_nodup (nodup_latest r), paths, List.length_map]

/-- Behind the latest answers of a while are those of before, for other paths. -/
theorem latest_append (later earlier : Remembered) :
    latest (later ++ earlier) =
      latest later ++ (latest earlier).filter fun q => decide (q.1 ∉ paths later) := by
  induction later with
  | nil => simp [latest, paths]
  | cons q later ih =>
      rw [List.cons_append, latest, latest, ih, without, List.filter_append, List.filter_filter,
        List.cons_append]
      refine congrArg (fun rest => q :: (_ ++ rest)) (List.filter_congr fun x _ => ?_)
      rw [Bool.eq_iff_iff, Bool.and_eq_true, bne_iff_ne, decide_eq_true_eq, decide_eq_true_eq,
        mem_paths_cons, not_or]

theorem lookup_eq_none_iff : r.lookup path = none ↔ path ∉ paths r := by
  simp only [List.lookup_eq_none_iff, paths, List.mem_map, not_exists, not_and, bne_iff_ne, ne_eq]
  exact forall_congr' fun q => imp_congr_right fun _ => not_congr eq_comm

/-- Among the first so many of the latest answers is that for a path exactly if there are
fewer other paths before it. -/
theorem lookup_take_latest {later earlier : Remembered} {a : Bool} (h : path ∉ paths later)
    (n : Nat) :
    ((latest (later ++ (path, a) :: earlier)).take n).lookup path =
      if (paths later).toFinset.card < n then some a else none := by
  have hnone : (latest later).lookup path = none :=
    lookup_eq_none_iff.mpr fun hmem => h (mem_paths_latest.mp hmem)
  rw [latest_append, latest, List.filter_cons_of_pos (by simpa using h), ← length_latest]
  by_cases hlt : (latest later).length < n
  case pos =>
    obtain ⟨m, hm⟩ : ∃ m, n - (latest later).length = m + 1 :=
      ⟨n - (latest later).length - 1, by omega⟩
    rw [if_pos hlt, List.take_append, List.take_of_length_le (Nat.le_of_lt hlt), hm,
      List.take_succ_cons, List.lookup_append, hnone, Option.none_or, List.lookup_cons_self]
  case neg =>
    rw [if_neg hlt, List.take_append_of_le_length (Nat.le_of_not_lt hlt), lookup_eq_none_iff]
    exact fun hmem => lookup_eq_none_iff.mp hnone (mem_paths_of_mem_take hmem)

/-- The latest answer for a path that has one. -/
theorem exists_latest_of_mem (h : path ∈ paths r) :
    ∃ later a earlier, r = later ++ (path, a) :: earlier ∧ path ∉ paths later := by
  induction r with
  | nil => cases h
  | cons q r ih =>
      by_cases hq : path = q.1
      case pos => exact ⟨[], q.2, r, by rw [hq]; rfl, List.not_mem_nil⟩
      case neg =>
        obtain ⟨later, a, earlier, rfl, hlater⟩ := ih ((mem_paths_cons.mp h).resolve_left hq)
        exact ⟨q :: later, a, earlier, rfl, fun hmem => (mem_paths_cons.mp hmem).elim hq hlater⟩

/-- A path that was never answered is not among the latest answers. -/
theorem lookup_take_latest_of_not_mem (h : path ∉ paths r) (n : Nat) :
    ((latest r).take n).lookup path = none := by
  rw [lookup_eq_none_iff]
  exact fun hmem => h (mem_paths_latest.mp (mem_paths_of_mem_take hmem))

/-! ## Asking -/

/-- Where a path is not among the first, leaving it out changes nothing there. -/
theorem take_without_of_not_mem {m n : Nat} (hmn : m ≤ n) (h : path ∉ paths (r.take n)) :
    (without path r).take m = r.take m := by
  induction r generalizing m n with
  | nil => rfl
  | cons q r ih =>
      cases m with
      | zero => rfl
      | succ m =>
          obtain ⟨n, rfl⟩ : ∃ k, n = k + 1 := ⟨n - 1, by omega⟩
          rw [List.take_succ_cons, mem_paths_cons, not_or] at h
          rw [without_cons_of_ne (Ne.symm h.1), List.take_succ_cons, List.take_succ_cons,
            ih (Nat.le_of_succ_le_succ hmn) h.2]

/-- Where a path is among the first, leaving it out leaves room for one more. -/
theorem without_take_of_mem {n : Nat} (hnodup : (paths r).Nodup)
    (h : path ∈ paths (r.take (n + 1))) :
    without path (r.take (n + 1)) = (without path r).take n := by
  induction r generalizing n with
  | nil => exact (List.take_nil (i := n)).symm
  | cons q r ih =>
      obtain ⟨hq, hnodup⟩ := List.nodup_cons.mp hnodup
      rw [List.take_succ_cons] at h ⊢
      by_cases hself : q.1 = path
      case pos =>
        -- the rest has no other answer for the path
        have hrest : path ∉ paths r := hself ▸ hq
        rw [without_cons_of_eq hself, without_cons_of_eq hself, without_eq_self hrest,
          without_eq_self fun hmem => hrest (mem_paths_of_mem_take hmem)]
      case neg =>
        have hmem : path ∈ paths (r.take n) := (mem_paths_cons.mp h).resolve_left (Ne.symm hself)
        cases n with
        | zero => exact absurd hmem List.not_mem_nil
        | succ n =>
            rw [without_cons_of_ne hself, without_cons_of_ne hself, ih hnodup hmem,
              List.take_succ_cons]

/-- Asking for a path keeps the latest answers, with the new one as the first. -/
theorem ask_take_latest (log : Remembered) (path : Option String) (fresh : Bool) :
    let r : Remembered := (latest log).take rememberedLimit
    (r.ask path fresh).2 =
      (latest ((path, (r.ask path fresh).1) :: log)).take rememberedLimit := by
  intro r
  unfold Remembered.ask
  cases hlookup : r.lookup path with
  | some known =>
      have hmem : path ∈ paths r := by
        refine Decidable.byContradiction fun hnot => ?_
        rw [lookup_eq_none_iff.mpr hnot] at hlookup
        cases hlookup
      exact congrArg ((path, known) :: ·) (without_take_of_mem (nodup_latest log) hmem)
  | none =>
      have hnot : path ∉ paths r := lookup_eq_none_iff.mp hlookup
      have hrest : (r.take 7) = (latest log).take 7 := List.take_take
      exact congrArg ((path, fresh) :: ·)
        (hrest.trans (take_without_of_not_mem (by decide) hnot).symm)

/-- What a memory answers: what it remembers, or else what is found out. -/
theorem Memory.tryJar_fst (m : Memory) (s : Surroundings) (path : Option String) :
    (m.tryJar s path).1 =
      match m.jars.lookup path with
      | some known => .ok known
      | none => s.check path := by
  unfold Memory.tryJar Memory.jarFault? Memory.askJar Remembered.ask Surroundings.check
  cases m.jars.lookup path with
  | some known => rfl
  | none => cases s.renderFault? path <;> rfl

/-- Asking has an answer and remembers it, or has none and changes nothing. -/
theorem Memory.tryJar_cases (m : Memory) (s : Surroundings) (path : Option String) :
    (∃ fault, m.jarFault? s path = some fault ∧ m.tryJar s path = (.error fault, m)) ∨
      m.jarFault? s path = none ∧
        m.tryJar s path = (.ok (m.askJar s path).1, (m.askJar s path).2) := by
  unfold Memory.tryJar
  cases m.jarFault? s path with
  | some fault => exact .inl ⟨fault, rfl, rfl⟩
  | none => exact .inr ⟨rfl, rfl⟩

/-- Only something that is too long or not allowed leaves open whether the local renderer can
be used. -/
theorem error_of_check {s : Surroundings} {fault : FileFault} (h : s.check path = .error fault) :
    fault.error = .nameTooLong ∨ fault.error = .permissionDenied := by
  unfold Surroundings.check at h
  split at h
  case h_2 => cases h
  case h_1 fault' hfault =>
    cases h
    unfold Surroundings.renderFault? at hfault
    split at hfault
    case h_1 => cases hfault
    case h_2 => cases hfault
    case h_3 text _ =>
      split at hfault
      case isTrue => cases hfault
      case isFalse =>
        split at hfault
        case h_1 e hask =>
          cases hfault
          obtain ⟨e, hstatus, habsence, rfl⟩ := FileSystem.ask_eq_error_iff.mp hask
          exact (FileSystem.isAbsence_or_refused_of_status hstatus).resolve_left
            (by simp [habsence])
        case h_2 => cases hfault

/-- Rendering remembers of local renderers what asking does. -/
theorem jars_renderAs (settings : Config.ImageSettings) (partners : Partners) (s : Surroundings)
    (f : Format) (text : String) (m : Memory) :
    (renderAs settings partners s f text m).2.jars = (m.askJar s settings.jarPath).2.jars := by
  unfold renderAs
  dsimp only
  split
  case isFalse => rfl
  case isTrue => split <;> rfl

end JavaAtlas.Image

namespace JavaAtlas.Service

open Config Storage
open Image (Remembered paths latest rememberedLimit mem_paths_append)

/-! ## Sessions -/

/-- What happens to a session. -/
inductive Event where
  /-- Files and programs come or go. -/
  | change (files : FileSystem) (tools : List String)
  /-- It is asked whether the local renderer at a path can be used. -/
  | ask (path : Option String)
  /-- A text is drawn. -/
  | draw (settings : ImageSettings) (partners : Image.Partners) (format text : String)

/-- The path that is asked for; drawing asks for that of its settings. -/
def Event.path? : Event → Option (Option String)
  | change _ _ => none
  | ask path => some path
  | draw settings _ format _ => (Image.Format.ofName? format).map fun _ => settings.jarPath

/-- The session after an event. -/
def Session.after (s : Session) : Event → Session
  | .change files tools => { s with files, tools }
  | .ask path => (s.askJar path).2
  | .draw settings partners format text => (s.draw settings partners format text).session

/-- The answer that a session would give if it remembered nothing. -/
def Session.fresh (s : Session) (path : Option String) : Except FileFault Bool :=
  ({ s with memory := .empty }.askJar path).1

/-- A question with its answer, if it has one. -/
structure Query where
  path : Option String
  answer : Except FileFault Bool

/-- A session with the questions that it was asked, the latest first. -/
structure Course where
  session : Session
  queries : List Query

namespace Course

/-- The course after an event. -/
def after (c : Course) (e : Event) : Course :=
  ⟨c.session.after e,
    (e.path?.map fun path => ⟨path, (c.session.askJar path).1⟩).toList ++ c.queries⟩

/-- The course after events in their order. -/
def run (c : Course) (events : List Event) : Course :=
  events.foldl after c

/-- A course in which nothing happened yet. -/
def begin (files : FileSystem) : Course :=
  ⟨.ofFiles files, []⟩

/-- The answers of a course, the latest first. -/
def answers (c : Course) : Remembered :=
  c.queries.filterMap fun q => q.answer.toOption.map (q.path, ·)

end Course

section

variable {s : Session} {path : Option String} {e : Event}

/-! ## Steps -/

theorem Session.fresh_eq : s.fresh path = s.surroundings.check path :=
  Image.Memory.tryJar_fst .empty s.surroundings path

theorem Session.askJar_fst :
    (s.askJar path).1 =
      match s.memory.jars.lookup path with
      | some known => .ok known
      | none => s.fresh path := by
  rw [Session.fresh_eq]
  exact Image.Memory.tryJar_fst s.memory s.surroundings path

theorem Session.error_of_askJar {fault : FileFault} (h : (s.askJar path).1 = .error fault) :
    fault.error = .nameTooLong ∨ fault.error = .permissionDenied := by
  rw [Session.askJar_fst] at h
  split at h
  case h_1 => cases h
  case h_2 => exact Image.error_of_check (Session.fresh_eq.symm.trans h)

/-- The local renderer is called exactly if it is held to be there. -/
theorem exists_localCall_iff {settings : ImageSettings} {partners : Image.Partners}
    {surroundings : Image.Surroundings} {f : Image.Format} {text : String} {m : Image.Memory} :
    (∃ command input timeout, Image.Call.local command input timeout ∈
      (Image.renderAs settings partners surroundings f text m).1.calls) ↔
        Image.isAvailable settings surroundings m = true := by
  rw [Image.calls_renderAs]
  constructor
  · rintro ⟨command, input, timeout, hmem⟩
    rcases List.mem_append.mp hmem with hmem | hmem
    · split at hmem
      case isTrue havailable => exact havailable
      case isFalse => cases hmem
    · split at hmem
      case isTrue => cases hmem
      case isFalse => cases List.mem_singleton.mp hmem
  · intro havailable
    rw [if_pos havailable]
    exact ⟨_, _, _, List.mem_append_left _ List.mem_cons_self⟩

/-- Where it cannot be told whether the local renderer can be used, drawing fails. -/
theorem Session.draw_of_fault {settings : ImageSettings} {fault : FileFault}
    (h : s.memory.jarFault? s.surroundings settings.jarPath = some fault)
    (partners : Image.Partners) (f : Image.Format) (text : String) :
    s.draw settings partners f.name text = ⟨.error (.renderer fault), [], s⟩ := by
  rw [Session.draw, Image.answer_of_fault rfl h]
  rfl

/-- Otherwise drawing renders. -/
theorem Session.draw_of_no_fault {settings : ImageSettings}
    (h : s.memory.jarFault? s.surroundings settings.jarPath = none)
    (partners : Image.Partners) (f : Image.Format) (text : String) :
    let rendered := Image.renderAs settings partners s.surroundings f text s.memory
    s.draw settings partners f.name text =
      ⟨rendered.1.result.mapError .ofRendering, rendered.1.calls.map .image,
        { s with memory := rendered.2 }⟩ := by
  intro rendered
  rw [Session.draw, Image.answer_of_name rfl h]

/-- Drawing in a known format asks for the path of its settings: without an answer it fails,
and the local renderer is called exactly if the answer is yes. -/
theorem Session.draw_law (settings : ImageSettings) (partners : Image.Partners)
    (f : Image.Format) (text : String) :
    let asked := s.askJar settings.jarPath
    let drawn := s.draw settings partners f.name text
    (∀ fault, asked.1 = .error fault →
      drawn.result = .error (.renderer fault) ∧ drawn.calls = []) ∧
      ((∃ command input timeout, Call.image (.local command input timeout) ∈ drawn.calls) ↔
        asked.1 = .ok true) ∧
      drawn.session.memory.jars = asked.2.memory.jars := by
  intro asked drawn
  rcases s.memory.tryJar_cases s.surroundings settings.jarPath with
    ⟨fault, hfault, htry⟩ | ⟨hnone, htry⟩
  · have hasked : asked = (.error fault, s) := by
      simp only [asked, Session.askJar, htry]
    rw [hasked, show drawn = _ from Session.draw_of_fault hfault partners f text]
    refine ⟨fun other hother => ?_, ⟨?_, nofun⟩, rfl⟩
    · cases hother
      exact ⟨rfl, rfl⟩
    · rintro ⟨_, _, _, hmem⟩
      cases hmem
  · have hasked : asked = (.ok (Image.isAvailable settings s.surroundings s.memory),
        { s with memory := (s.memory.askJar s.surroundings settings.jarPath).2 }) := by
      simp only [asked, Session.askJar, htry, Image.isAvailable]
    rw [hasked, show drawn = _ from Session.draw_of_no_fault hnone partners f text]
    refine ⟨nofun, ?_, Image.jars_renderAs settings partners s.surroundings f text s.memory⟩
    simp only [List.mem_map, Call.image.injEq, exists_eq_right, Except.ok.injEq]
    exact exists_localCall_iff

/-- An event that asks for a path leaves what asking for it leaves. -/
theorem Session.jars_after_of_path (h : e.path? = some path) :
    (s.after e).memory.jars = (s.askJar path).2.memory.jars := by
  cases e with
  | change files tools => cases h
  | ask other =>
      cases h
      rfl
  | draw settings partners format text =>
      obtain ⟨f, hname, rfl⟩ := Option.map_eq_some_iff.mp h
      obtain rfl := Image.Format.ofName?_eq_some_iff.mp hname
      exact (s.draw_law settings partners f text).2.2

/-- Any other event leaves what is remembered. -/
theorem Session.jars_after_of_none (h : e.path? = none) :
    (s.after e).memory.jars = s.memory.jars := by
  cases e with
  | change files tools => rfl
  | ask path => cases h
  | draw settings partners format text =>
      have hname : Image.Format.ofName? format = none := Option.map_eq_none_iff.mp h
      simp only [Session.after, Session.draw, Image.answer, hname]

/-! ## Runs -/

namespace Course

variable {c : Course}

/-- The latest answers are remembered, as many as there is room for. -/
def Faithful (c : Course) : Prop :=
  c.session.memory.jars = (latest c.answers).take rememberedLimit

/-- Asking keeps the latest answers. -/
theorem Faithful.jars_askJar (h : c.Faithful) (path : Option String) :
    (c.session.askJar path).2.memory.jars =
      match (c.session.askJar path).1 with
      | .ok a => (latest ((path, a) :: c.answers)).take rememberedLimit
      | .error _ => (latest c.answers).take rememberedLimit := by
  rcases c.session.memory.tryJar_cases c.session.surroundings path with
    ⟨fault, -, htry⟩ | ⟨-, htry⟩
  · simp only [Session.askJar, htry]
    exact h
  · simp only [Session.askJar, htry, Image.Memory.askJar]
    rw [show c.session.memory.jars = _ from h]
    exact Image.ask_take_latest c.answers path _

theorem answers_after_of_path (h : e.path? = some path) :
    (c.after e).answers =
      match (c.session.askJar path).1 with
      | .ok a => (path, a) :: c.answers
      | .error _ => c.answers := by
  simp only [answers, after, h, Option.map_some, Option.toList_some, List.singleton_append,
    List.filterMap_cons]
  cases (c.session.askJar path).1 <;> rfl

theorem answers_after_of_none (h : e.path? = none) : (c.after e).answers = c.answers := by
  simp only [answers, after, h, Option.map_none, Option.toList_none, List.nil_append]

/-- Whatever happens, the latest answers remain remembered. -/
theorem Faithful.after (h : c.Faithful) (e : Event) : (c.after e).Faithful := by
  cases hpath : e.path? with
  | none =>
      rw [Faithful, answers_after_of_none hpath]
      exact (Session.jars_after_of_none hpath).trans h
  | some path =>
      rw [Faithful, answers_after_of_path hpath]
      refine (Session.jars_after_of_path hpath).trans ((h.jars_askJar path).trans ?_)
      cases (c.session.askJar path).1 <;> rfl

/-- After every run the latest answers are remembered. -/
theorem Faithful.run (h : c.Faithful) (events : List Event) : (c.run events).Faithful := by
  induction events generalizing c with
  | nil => exact h
  | cons e events ih => exact ih (h.after e)

theorem faithful_begin (files : FileSystem) : (begin files).Faithful :=
  rfl

/-- A run puts answers before those that were there, for paths that it asks for. -/
theorem exists_answers_run (c : Course) {events : List Event}
    (h : ∀ e ∈ events, e.path? ≠ some path) :
    ∃ newer, (c.run events).answers = newer ++ c.answers ∧ path ∉ paths newer := by
  induction events generalizing c with
  | nil => exact ⟨[], rfl, List.not_mem_nil⟩
  | cons e events ih =>
      obtain ⟨newer, hnewer, hnot⟩ := ih (c.after e) fun x hx => h x (List.mem_cons_of_mem e hx)
      have hrun : (c.run (e :: events)).answers = newer ++ (c.after e).answers := hnewer
      have hne := h e List.mem_cons_self
      cases hpath : e.path? with
      | none => exact ⟨newer, hrun.trans (by rw [answers_after_of_none hpath]), hnot⟩
      | some other =>
          rw [answers_after_of_path hpath] at hrun
          have hother : path ≠ other := fun heq => hne (hpath.trans (congrArg some heq.symm))
          cases hanswer : (c.session.askJar other).1 with
          | error fault =>
              rw [hanswer] at hrun
              exact ⟨newer, hrun, hnot⟩
          | ok a =>
              rw [hanswer] at hrun
              refine ⟨newer ++ [(other, a)], by rw [hrun]; simp, fun hmem => ?_⟩
              exact (mem_paths_append.mp hmem).elim hnot fun hlast =>
                hother (List.mem_singleton.mp hlast)

/-! ## Answers -/

section

variable {later earlier : Remembered} {a : Bool}

/-- A path is remembered while fewer than eight other paths are answered. -/
theorem Faithful.lookup_of_answered (h : c.Faithful)
    (hanswers : c.answers = later ++ (path, a) :: earlier) (hlater : path ∉ paths later) :
    c.session.memory.jars.lookup path =
      if (paths later).toFinset.card < 8 then some a else none := by
  rw [show c.session.memory.jars = _ from h, hanswers]
  exact Image.lookup_take_latest hlater rememberedLimit

theorem Faithful.lookup_of_unanswered (h : c.Faithful) (hnot : path ∉ paths c.answers) :
    c.session.memory.jars.lookup path = none := by
  rw [show c.session.memory.jars = _ from h]
  exact Image.lookup_take_latest_of_not_mem hnot rememberedLimit

/-- While a path is not asked for, its answer is not changed, only forgotten. -/
theorem Faithful.lookup_of_run (h : c.Faithful) {events : List Event}
    (hother : ∀ e ∈ events, e.path? ≠ some path)
    (hlookup : (c.run events).session.memory.jars.lookup path = some a) :
    c.session.memory.jars.lookup path = some a := by
  obtain ⟨newer, hnewer, hnot⟩ := exists_answers_run c hother
  by_cases hanswered : path ∈ paths c.answers
  case pos =>
    obtain ⟨later, known, earlier, hsplit, hlater⟩ := Image.exists_latest_of_mem hanswered
    have hnewest : path ∉ paths (newer ++ later) := fun hmem =>
      (mem_paths_append.mp hmem).elim hnot hlater
    rw [hsplit, ← List.append_assoc] at hnewer
    rw [(h.run events).lookup_of_answered hnewer hnewest] at hlookup
    rw [h.lookup_of_answered hsplit hlater]
    -- the paths answered meanwhile come on top of those answered before
    have hle : (paths later).toFinset.card ≤ (paths (newer ++ later)).toFinset.card := by
      refine Finset.card_le_card fun other hmem => ?_
      rw [List.mem_toFinset] at hmem ⊢
      exact mem_paths_append.mpr (.inr hmem)
    split at hlookup
    case isTrue hlt => rw [if_pos (Nat.lt_of_le_of_lt hle hlt), hlookup]
    case isFalse => cases hlookup
  case neg =>
    have hnever : path ∉ paths (c.run events).answers := by
      rw [hnewer, mem_paths_append]
      exact fun hmem => hmem.elim hnot hanswered
    rw [(h.run events).lookup_of_unanswered hnever] at hlookup
    cases hlookup

end

/-- A question without an answer changes nothing but that it was asked. -/
theorem session_after_of_unanswered {fault : FileFault}
    (h : (c.session.askJar path).1 = .error fault) : (c.after (.ask path)).session = c.session := by
  have hsame : (c.session.askJar path).2 = c.session := by
    rcases c.session.memory.tryJar_cases c.session.surroundings path with
      ⟨_, -, htry⟩ | ⟨-, htry⟩
    · simp only [Session.askJar, htry]
    · simp only [Session.askJar, htry] at h
      cases h
  exact hsame

/-- Asking leaves the files as they are. -/
theorem files_run_ask (c : Course) (others : List String) :
    (c.run (others.map fun other => .ask (some other))).session.files = c.session.files := by
  induction others generalizing c with
  | nil => rfl
  | cons other others ih => exact (ih (c.after (.ask (some other)))).trans rfl

/-- Where all questions have answers, the answers are those to all questions. -/
theorem paths_answers (h : ∀ q ∈ c.queries, ∃ a, q.answer = .ok a) :
    paths c.answers = c.queries.map Query.path := by
  unfold answers
  generalize c.queries = queries at h
  induction queries with
  | nil => rfl
  | cons q queries ih =>
      obtain ⟨a, ha⟩ := h q List.mem_cons_self
      have hrest := ih fun x hx => h x (List.mem_cons_of_mem q hx)
      rw [List.filterMap_cons, ha, List.map_cons, ← hrest]
      rfl

/-- Only questions for something that is too long or not allowed have no answer. -/
theorem error_of_mem_queries {events : List Event}
    (h : ∀ q ∈ c.queries, ∀ fault, q.answer = .error fault →
      fault.error = .nameTooLong ∨ fault.error = .permissionDenied) :
    ∀ q ∈ (c.run events).queries, ∀ fault, q.answer = .error fault →
      fault.error = .nameTooLong ∨ fault.error = .permissionDenied := by
  induction events generalizing c with
  | nil => exact h
  | cons e events ih =>
      refine ih fun q hq => ?_
      rcases List.mem_append.mp hq with hnew | hold
      · obtain ⟨path, -, rfl⟩ := Option.map_eq_some_iff.mp (Option.mem_toList.mp hnew)
        exact fun fault => Session.error_of_askJar
      · exact h q hold

/-- After every run, a path gets the answer of the last time if fewer than eight other paths
were answered since; otherwise, and if it was not answered yet, it gets the answer of a session
that remembers nothing.  At most eight paths are remembered, each once, and while a path is not
asked for its answer is forgotten at most.  Drawing in a known format asks like one who only
asks: without an answer it fails, and the local renderer is called exactly if the answer is
yes.  Only something that is too long or not allowed leaves a question without answer; where
there was none, all questions count. -/
theorem answers_law (files : FileSystem) (events : List Event) (path : Option String) :
    let c := (begin files).run events
    let s := c.session
    (∀ later a earlier, c.answers = later ++ (path, a) :: earlier → path ∉ paths later →
      (s.askJar path).1 =
        if (paths later).toFinset.card < 8 then .ok a else s.fresh path) ∧
    (path ∉ paths c.answers → (s.askJar path).1 = s.fresh path) ∧
    (s.memory.jars.length ≤ 8 ∧ (paths s.memory.jars).Nodup) ∧
    (∀ more, (∀ e ∈ more, e.path? ≠ some path) → ∀ a,
      (c.run more).session.memory.jars.lookup path = some a →
        s.memory.jars.lookup path = some a) ∧
    (∀ settings partners (f : Image.Format) text,
      let asked := s.askJar settings.jarPath
      let drawn := s.draw settings partners f.name text
      (∀ fault, asked.1 = .error fault →
        drawn.result = .error (.renderer fault) ∧ drawn.calls = []) ∧
        ((∃ command input timeout, Call.image (.local command input timeout) ∈ drawn.calls) ↔
          asked.1 = .ok true) ∧
        drawn.session.memory.jars = asked.2.memory.jars) ∧
    (∀ q ∈ c.queries, ∀ fault, q.answer = .error fault →
      fault.error = .nameTooLong ∨ fault.error = .permissionDenied) ∧
    ((∀ q ∈ c.queries, ∃ a, q.answer = .ok a) → paths c.answers = c.queries.map Query.path) := by
  intro c s
  have hc : c.Faithful := (faithful_begin files).run events
  refine ⟨fun later a earlier hanswers hlater => ?_, fun hnot => ?_, ⟨?_, ?_⟩,
    fun more hother a => hc.lookup_of_run hother, s.draw_law,
    error_of_mem_queries (List.forall_mem_nil _), paths_answers⟩
  · rw [Session.askJar_fst, hc.lookup_of_answered hanswers hlater]
    by_cases hlt : (paths later).toFinset.card < 8
    case pos => rw [if_pos hlt, if_pos hlt]
    case neg => rw [if_neg hlt, if_neg hlt]
  · rw [Session.askJar_fst, hc.lookup_of_unanswered hnot]
  · rw [show s.memory.jars = _ from hc]
    exact List.length_take_le _ _
  · rw [show s.memory.jars = _ from hc]
    exact (Image.nodup_latest c.answers).sublist ((List.take_sublist _ _).map Prod.fst)

/-- Nothing is stored. -/
def noFiles : FileSystem where
  entries := []
  workingDirectory := []

/-- An archive at `p.jar`, and the program that runs it. -/
def withArchive : Event :=
  .change { entries := [(["p.jar"], .file [] 420)], workingDirectory := [] } ["java"]

/-- Neither archives nor programs. -/
def withoutArchive : Event :=
  .change noFiles []

/-- The path is asked for while the archive is there, and others when it is gone. -/
def asksAfter (others : List String) : List Event :=
  withArchive :: .ask (some "p.jar") :: withoutArchive :: others.map fun other => .ask (some other)

/-- With seven other paths since then the answer is out of date, with eight it is not. -/
theorem answers_law_outOfDate :
    let c := (begin noFiles).run (asksAfter ["a", "b", "c", "d", "e", "f", "g"])
    let c' := (begin noFiles).run (asksAfter ["a", "b", "c", "d", "e", "f", "g", "h"])
    (c.session.askJar (some "p.jar")).1 = .ok true ∧
      (c'.session.askJar (some "p.jar")).1 = .ok false ∧ c'.session.memory.jars.length ≤ 8 := by
  intro c c'
  obtain ⟨hold, -⟩ := answers_law noFiles (asksAfter ["a", "b", "c", "d", "e", "f", "g"])
    (some "p.jar")
  obtain ⟨hnew, -, ⟨hlength, -⟩, -⟩ := answers_law noFiles
    (asksAfter ["a", "b", "c", "d", "e", "f", "g", "h"]) (some "p.jar")
  have hanswers : c.answers = (["g", "f", "e", "d", "c", "b", "a"].map fun other =>
      (some other, false)) ++ [(some "p.jar", true)] := by
    decide +kernel
  have hanswers' : c'.answers = (["h", "g", "f", "e", "d", "c", "b", "a"].map fun other =>
      (some other, false)) ++ [(some "p.jar", true)] := by
    decide +kernel
  refine ⟨(hold _ _ _ hanswers (by decide)).trans (if_pos (by decide)), ?_, hlength⟩
  exact (hnew _ _ _ hanswers' (by decide)).trans ((if_neg (by decide)).trans rfl)

/-- It stays open whether the local renderer at a name that is too long can be used. -/
theorem exists_fault_nameOfLength {s : Session} (hs : s.files.Sound) :
    ∃ fault, s.fresh (some (Diagram.nameOfLength 256)) = .error fault := by
  have hlong := Diagram.isOverlong_nameOfLength
  have hne : Diagram.nameOfLength 256 ≠ "" := fun heq => by
    rw [heq] at hlong
    cases hlong
  have hnull : ¬ holdsNull (Diagram.nameOfLength 256) = true := by
    rw [Diagram.holdsNull_nameOfLength]
    exact Bool.false_ne_true
  have hask : s.surroundings.files.askFile (Path.ofText (Diagram.nameOfLength 256)) =
      .error ⟨.nameTooLong, (Path.ofText (Diagram.nameOfLength 256)).text⟩ := by
    rw [Diagram.ofText_nameOfLength]
    exact hs.ask_of_isOverlong hlong
  refine ⟨⟨.nameTooLong, (Path.ofText (Diagram.nameOfLength 256)).text⟩, ?_⟩
  rw [Session.fresh_eq, Image.Surroundings.check, Image.Surroundings.renderFault?]
  · rw [if_neg hnull, hask]
  · exact fun heq => hne heq

theorem eq_ok_of_toOption {ε α : Type} {r : Except ε α} {a : α} (h : r.toOption = some a) :
    r = .ok a := by
  cases r with
  | error e => cases h
  | ok b => exact congrArg Except.ok (Option.some.inj h)

/-- A name that is too long is the eighth other path that is asked for, and still the answer
is out of date. -/
theorem unanswered_not_counted :
    let others := ["a", "b", "c", "d", "e", "f", "g", Diagram.nameOfLength 256]
    let c := (begin noFiles).run (asksAfter others)
    c.queries.map Query.path = (others.map some).reverse ++ [some "p.jar"] ∧
      others.toFinset.card = 8 ∧
      (c.session.askJar (some "p.jar")).1 = .ok true ∧
      c.session.fresh (some "p.jar") = .ok false := by
  intro others c
  let before := (begin noFiles).run (asksAfter ["a", "b", "c", "d", "e", "f", "g"])
  have hfaithful : before.Faithful := (faithful_begin _).run _
  have hfiles : before.session.files = noFiles :=
    files_run_ask ((begin noFiles).run (asksAfter [])) _
  have hsound : before.session.files.Sound := by
    rw [hfiles]
    exact FileSystem.sound_of_entries rfl (by decide)
  have hunanswered : some (Diagram.nameOfLength 256) ∉ paths before.answers := by decide +kernel
  obtain ⟨fault, hfault⟩ := exists_fault_nameOfLength hsound
  have hlong : (before.session.askJar (some (Diagram.nameOfLength 256))).1 = .error fault := by
    rw [Session.askJar_fst, hfaithful.lookup_of_unanswered hunanswered]
    exact hfault
  have hlast : c = before.after (.ask (some (Diagram.nameOfLength 256))) := rfl
  have hsession : c.session = before.session := by
    rw [hlast, session_after_of_unanswered hlong]
  have hqueries : before.queries.map Query.path =
      ["g", "f", "e", "d", "c", "b", "a", "p.jar"].map some := by
    decide +kernel
  have hanswer : (before.session.askJar (some "p.jar")).1.toOption = some true := by
    decide +kernel
  have hfresh : (before.session.fresh (some "p.jar")).toOption = some false := by
    decide +kernel
  rw [hsession]
  refine ⟨?_, by decide +kernel, eq_ok_of_toOption hanswer, eq_ok_of_toOption hfresh⟩
  rw [hlast]
  exact congrArg (some (Diagram.nameOfLength 256) :: ·) hqueries

end Course

end

end JavaAtlas.Service

import Mathlib.Data.List.Induction
import JavaAtlas.Config.Load
import JavaAtlas.Proofs.Storage.Removal

/-!
# Keeping a configuration

A program loads its configuration many times, while files and variables change and what
was kept is forgotten now and then.  The settings that a load answers are those of one
earlier moment: of the first load since the last forgetting that succeeded, or of the
load itself if there is none.  Failures are neither kept nor do they put an end to what
is kept.

Main definitions:

- `Event`, `Keeper.run`: histories and what they leave.
- `answerAfter`: what a load answers after a history.
- `IsLoadSince`: the loads of a history since the last forgetting.

Main results:

- Theorem `Environment.get?_assign`: variables after one of them was set.
- Theorem `kept_run_of_forget_notMem`: kept settings stay until they are forgotten.
- Theorem `keptAfter_eq_some_iff`: where kept settings come from.
- Theorem `answerAfter_law`: the answer of a load after any history.
-/

namespace JavaAtlas.Config

open Storage

/-! ## Histories -/

/-- What happens between and with loads. -/
inductive Event where
  /-- The files are others from now on. -/
  | files (after : FileSystem)
  /-- A variable has a value from now on, or none. -/
  | assign (name : String) (value : Option String)
  | forget
  | load

/-- The variables after one of them was set, or taken away. -/
def Environment.assign (env : Environment) (name : String) (value : Option String) :
    Environment :=
  (value.map fun v => (name, v)).toList ++ env.filter fun v => v.1 != name

/-- A variable has the value that it was given, and every other one its own. -/
theorem Environment.get?_assign (env : Environment) (name other : String)
    (value : Option String) :
    (env.assign name value).get? other = if other = name then value else env.get? other := by
  rw [get?, assign, List.lookup_append, FileSystem.lookup_filter env (fun n => n != name) other]
  by_cases h : other = name
  case pos => cases value <;> simp [h]
  case neg =>
    have hne : (other == name) = false := beq_false_of_ne h
    cases value <;> simp [h, hne, get?, List.lookup_cons]

/-- The world after an event. -/
def World.after (w : World) : Event → World
  | .files fs => { w with files := fs }
  | .assign name value => { w with environment := w.environment.assign name value }
  | .forget => w
  | .load => w

/-- A world, and the settings that are kept in it. -/
structure Keeper where
  world : World
  kept : Kept

namespace Keeper

/-- What an event leaves. -/
def step (k : Keeper) : Event → Keeper
  | .forget => ⟨k.world, forget k.kept⟩
  | .load => ⟨k.world, (load k.world k.kept).2⟩
  | e => ⟨k.world.after e, k.kept⟩

/-- What a history leaves. -/
def run (k : Keeper) (history : List Event) : Keeper :=
  history.foldl step k

/-- What a load answers. -/
def answer (k : Keeper) : Except LoadFailure Loaded :=
  (load k.world k.kept).1

@[simp]
theorem run_append (k : Keeper) (before after : List Event) :
    k.run (before ++ after) = (k.run before).run after :=
  List.foldl_append

@[simp]
theorem run_cons (k : Keeper) (e : Event) (after : List Event) :
    k.run (e :: after) = (k.step e).run after :=
  rfl

@[simp]
theorem world_step (k : Keeper) (e : Event) : (k.step e).world = k.world.after e := by
  cases e <;> rfl

/-- What is kept has no influence on the world. -/
theorem world_run (k : Keeper) (history : List Event) :
    (k.run history).world = history.foldl World.after k.world := by
  induction history generalizing k with
  | nil => rfl
  | cons e history ih => rw [run_cons, ih, world_step, List.foldl_cons]

/-! ### Loads -/

theorem answer_of_kept {k : Keeper} {s : Settings} (h : k.kept = some s) :
    k.answer = .ok ⟨s, true⟩ := by
  simp only [answer, load, h]

theorem answer_of_nothing_kept {k : Keeper} (h : k.kept = none) :
    k.answer = (⟨·, false⟩) <$> k.world.evaluate := by
  simp only [answer, load, h]
  cases k.world.evaluate <;> rfl

/-- A load that succeeds keeps its settings. -/
theorem kept_step_load_of_ok {k : Keeper} {l : Loaded} (h : k.answer = .ok l) :
    (k.step .load).kept = some l.settings := by
  simp only [answer, load] at h
  simp only [step, load]
  cases hk : k.kept with
  | some s =>
      rw [hk] at h
      cases h
      rfl
  | none =>
      rw [hk] at h
      cases hw : k.world.evaluate with
      | error e => simp [hw] at h
      | ok s =>
          simp only [hw, Except.ok.injEq] at h
          rw [← h]

/-- A load fails only where nothing is kept, and leaves nothing. -/
theorem kept_of_answer_error {k : Keeper} {e : LoadFailure} (h : k.answer = .error e) :
    k.kept = none ∧ (k.step .load).kept = none := by
  cases hk : k.kept with
  | some s => simp [answer_of_kept hk] at h
  | none =>
      rw [answer_of_nothing_kept hk] at h
      refine ⟨rfl, ?_⟩
      simp only [step, load, hk]
      cases hw : k.world.evaluate with
      | error e' => rfl
      | ok s => simp [hw] at h

/-! ### One event -/

/-- Kept settings stay in every event but forgetting. -/
theorem kept_step_of_ne_forget {k : Keeper} {s : Settings} {e : Event} (h : k.kept = some s)
    (he : e ≠ .forget) : (k.step e).kept = some s := by
  cases e with
  | files fs => exact h
  | assign name value => exact h
  | forget => exact absurd rfl he
  | load => exact kept_step_load_of_ok (answer_of_kept h)

/-- Where something is kept after an event, it was kept before, or the event is a load
that evaluated it. -/
theorem kept_of_step {k : Keeper} {s : Settings} {e : Event} (h : (k.step e).kept = some s) :
    e ≠ .forget ∧ (k.kept = some s ∨
      e = .load ∧ k.kept = none ∧ k.world.evaluate = .ok s) := by
  cases e with
  | files fs => exact ⟨by simp, .inl h⟩
  | assign name value => exact ⟨by simp, .inl h⟩
  | forget => simp [step, Config.forget] at h
  | load =>
      refine ⟨by simp, ?_⟩
      cases hk : k.kept with
      | some s' =>
          rw [kept_step_load_of_ok (answer_of_kept hk)] at h
          exact .inl h
      | none =>
          refine .inr ⟨rfl, rfl, ?_⟩
          simp only [step, load, hk] at h
          cases hw : k.world.evaluate with
          | error e => simp [hw] at h
          | ok s' =>
              simp only [hw, Option.some.injEq] at h
              rw [h]

/-! ### Histories -/

/-- Kept settings stay until they are forgotten. -/
theorem kept_run_of_forget_notMem {k : Keeper} {s : Settings} (h : k.kept = some s)
    {history : List Event} (hforget : .forget ∉ history) :
    (k.run history).kept = some s := by
  induction history generalizing k with
  | nil => exact h
  | cons e history ih =>
      rw [List.mem_cons, not_or] at hforget
      exact ih (kept_step_of_ne_forget h (Ne.symm hforget.1)) hforget.2

/-- Where no event is a load, nothing begins to be kept. -/
theorem kept_run_eq_none {k : Keeper} (h : k.kept = none) {history : List Event}
    (hload : .load ∉ history) : (k.run history).kept = none := by
  induction history generalizing k with
  | nil => exact h
  | cons e history ih =>
      rw [List.mem_cons, not_or] at hload
      refine ih ?_ hload.2
      by_contra hkept
      obtain ⟨s, hs⟩ := Option.ne_none_iff_exists'.mp hkept
      rcases (kept_of_step hs).2 with hbefore | ⟨he, _⟩
      · rw [h] at hbefore
        cases hbefore
      · exact hload.1 he.symm

end Keeper

/-! ## Runs of a program -/

/-- The world after a history. -/
def World.afterAll (w : World) (history : List Event) : World :=
  history.foldl World.after w

/-- What a history leaves of a world where nothing is kept yet. -/
def keeperAfter (w : World) (history : List Event) : Keeper :=
  (Keeper.mk w none).run history

/-- What a load answers after a history. -/
def answerAfter (w : World) (history : List Event) : Except LoadFailure Loaded :=
  (keeperAfter w history).answer

/-- The history has a load behind the given beginning, and forgets nothing after it. -/
def IsLoadSince (history before : List Event) : Prop :=
  ∃ between, history = before ++ .load :: between ∧ .forget ∉ between

theorem world_keeperAfter (w : World) (history : List Event) :
    (keeperAfter w history).world = w.afterAll history :=
  Keeper.world_run _ _

theorem keeperAfter_append (w : World) (before after : List Event) :
    keeperAfter w (before ++ after) = (keeperAfter w before).run after :=
  Keeper.run_append _ _ _

/-- A load stays one since the last forgetting in every event but forgetting. -/
theorem IsLoadSince.append {history before : List Event} (h : IsLoadSince history before)
    {e : Event} (he : e ≠ .forget) : IsLoadSince (history ++ [e]) before := by
  obtain ⟨between, rfl, hbetween⟩ := h
  refine ⟨between ++ [e], by simp, ?_⟩
  rw [List.mem_append, not_or, List.mem_singleton]
  exact ⟨hbetween, Ne.symm he⟩

/-- A load that succeeds decides what is kept until the next forgetting. -/
theorem kept_of_isLoadSince {w : World} {history before : List Event} {l : Loaded}
    (h : IsLoadSince history before) (hl : answerAfter w before = .ok l) :
    (keeperAfter w history).kept = some l.settings := by
  obtain ⟨between, rfl, hbetween⟩ := h
  rw [keeperAfter_append, Keeper.run_cons]
  exact Keeper.kept_run_of_forget_notMem (Keeper.kept_step_load_of_ok hl) hbetween

/-- Settings are kept exactly where a load since the last forgetting evaluated them. -/
theorem keptAfter_eq_some_iff {w : World} {history : List Event} {s : Settings} :
    (keeperAfter w history).kept = some s ↔
      ∃ before, IsLoadSince history before ∧ answerAfter w before = .ok ⟨s, false⟩ := by
  constructor
  · intro h
    -- from the end: the last event kept what was kept, or is the load that is looked for
    induction history using List.reverseRecOn with
    | nil => cases h
    | append_singleton history e ih =>
        rw [keeperAfter_append] at h
        obtain ⟨he, hbefore | ⟨rfl, hnone, hevaluate⟩⟩ := Keeper.kept_of_step h
        · obtain ⟨before, hsince, hanswer⟩ := ih hbefore
          exact ⟨before, hsince.append he, hanswer⟩
        · refine ⟨history, ⟨[], rfl, by simp⟩, ?_⟩
          rw [answerAfter, Keeper.answer_of_nothing_kept hnone, hevaluate]
          rfl
  · rintro ⟨before, hsince, hanswer⟩
    exact kept_of_isLoadSince hsince hanswer

/-- An answer that was evaluated afresh gives the settings of the world at that moment. -/
theorem evaluate_of_answerAfter {w : World} {history : List Event} {s : Settings}
    (h : answerAfter w history = .ok ⟨s, false⟩) : (w.afterAll history).evaluate = .ok s := by
  rw [answerAfter] at h
  cases hk : (keeperAfter w history).kept with
  | some s' => simp [Keeper.answer_of_kept hk] at h
  | none =>
      rw [Keeper.answer_of_nothing_kept hk, world_keeperAfter] at h
      cases hw : (w.afterAll history).evaluate with
      | error e => simp [hw] at h
      | ok s' =>
          rw [hw] at h
          cases h
          rfl

/-- After any history, a load answers the settings of every load since the last
forgetting that succeeded; if all of these failed, it evaluates the files and variables
that there are now.  What was kept is what an earlier load evaluated.  A load that fails
leaves nothing kept, so the next one evaluates again; and whatever happens after a load
that succeeds, no later load sees it before the next forgetting. -/
theorem answerAfter_law (w : World) (history : List Event) :
    (∀ before l, IsLoadSince history before → answerAfter w before = .ok l →
      answerAfter w history = .ok ⟨l.settings, true⟩) ∧
    ((∀ before, IsLoadSince history before → ∃ e, answerAfter w before = .error e) →
      answerAfter w history = (⟨·, false⟩) <$> (w.afterAll history).evaluate) ∧
    (∀ s, answerAfter w history = .ok ⟨s, true⟩ →
      ∃ before, IsLoadSince history before ∧ answerAfter w before = .ok ⟨s, false⟩ ∧
        (w.afterAll before).evaluate = .ok s) ∧
    (∀ e changes, answerAfter w history = .error e → .load ∉ changes →
      (keeperAfter w (history ++ .load :: changes)).kept = none ∧
      answerAfter w (history ++ .load :: changes) =
        (⟨·, false⟩) <$> (w.afterAll (history ++ changes)).evaluate) ∧
    (∀ l changes changes', answerAfter w history = .ok l → .forget ∉ changes →
      .forget ∉ changes' →
      answerAfter w (history ++ .load :: changes) =
        answerAfter w (history ++ .load :: changes')) := by
  refine ⟨?_, ?_, ?_, ?_, ?_⟩
  · intro before l hsince hl
    exact Keeper.answer_of_kept (kept_of_isLoadSince hsince hl)
  · intro hfailed
    have hnone : (keeperAfter w history).kept = none := by
      by_contra hkept
      obtain ⟨s, hs⟩ := Option.ne_none_iff_exists'.mp hkept
      obtain ⟨before, hsince, hanswer⟩ := keptAfter_eq_some_iff.mp hs
      obtain ⟨e, he⟩ := hfailed before hsince
      rw [hanswer] at he
      cases he
    rw [answerAfter, Keeper.answer_of_nothing_kept hnone, world_keeperAfter]
  · intro s hs
    have hkept : (keeperAfter w history).kept = some s := by
      cases hk : (keeperAfter w history).kept with
      | some s' =>
          rw [answerAfter, Keeper.answer_of_kept hk] at hs
          cases hs
          rfl
      | none =>
          rw [answerAfter, Keeper.answer_of_nothing_kept hk] at hs
          cases hw : (keeperAfter w history).world.evaluate <;> simp [hw] at hs
    obtain ⟨before, hsince, hanswer⟩ := keptAfter_eq_some_iff.mp hkept
    exact ⟨before, hsince, hanswer, evaluate_of_answerAfter hanswer⟩
  · intro e changes he hload
    have hnone : (keeperAfter w (history ++ .load :: changes)).kept = none := by
      rw [keeperAfter_append, Keeper.run_cons]
      exact Keeper.kept_run_eq_none (Keeper.kept_of_answer_error he).2 hload
    refine ⟨hnone, ?_⟩
    rw [answerAfter, Keeper.answer_of_nothing_kept hnone, world_keeperAfter]
    -- a load leaves the world as it is
    simp [World.afterAll, World.after]
  · intro l changes changes' hl hforget hforget'
    have hanswer : ∀ later, .forget ∉ later →
        answerAfter w (history ++ .load :: later) = .ok ⟨l.settings, true⟩ := fun later hlater =>
      Keeper.answer_of_kept (kept_of_isLoadSince ⟨later, rfl, hlater⟩ hl)
    rw [hanswer changes hforget, hanswer changes' hforget']

/-- A world without files and variables. -/
def bareWorld : World where
  files := { entries := [], workingDirectory := [] }
  environment := []
  usualDirectory := Path.ofText "config"

/-- Files with a configuration that is no mapping. -/
def spoiltFiles : FileSystem where
  entries :=
    [(["config"], .directory),
      (["config", fileName], .file (Text.Utf8.encode "[x]") FileSystem.newMode)]
  workingDirectory := []

/-- A load that fails leaves nothing kept: once the file is gone, the next one evaluates the
usual settings, and these are kept while a variable is set. -/
theorem answerAfter_law_spoiltFiles :
    answerAfter bareWorld [.files spoiltFiles] = .error (.noMapping bareWorld.file) ∧
    answerAfter bareWorld ([.files spoiltFiles] ++ .load :: [.files bareWorld.files]) =
      .ok ⟨{}, false⟩ ∧
    answerAfter bareWorld ([.files spoiltFiles, .load, .files bareWorld.files] ++
      .load :: [.assign "JAVADOC_COMMAND" (some "jd")]) = .ok ⟨{}, true⟩ := by
  have hspoilt : (bareWorld.afterAll [.files spoiltFiles]).evaluate =
      .error (.noMapping bareWorld.file) := by
    decide +kernel
  have hfails : answerAfter bareWorld [.files spoiltFiles] =
      .error (.noMapping bareWorld.file) := by
    rw [answerAfter, Keeper.answer_of_nothing_kept rfl, world_keeperAfter, hspoilt]
    rfl
  have hafresh : answerAfter bareWorld ([.files spoiltFiles] ++ .load :: [.files bareWorld.files]) =
      .ok ⟨{}, false⟩ := by
    rw [((answerAfter_law bareWorld _).2.2.2.1 _ [.files bareWorld.files] hfails (by simp)).2]
    rfl
  exact ⟨hfails, hafresh, (answerAfter_law bareWorld _).1 _ _ ⟨_, rfl, by simp⟩ hafresh⟩

-- a variable counts once the settings are forgotten
example : answerAfter bareWorld [.load, .assign "JAVADOC_COMMAND" (some "jd"), .forget] =
    .ok ⟨{ docs := { command := "jd" } }, false⟩ := by
  rfl

end JavaAtlas.Config

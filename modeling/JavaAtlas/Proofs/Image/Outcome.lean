import JavaAtlas.Image.Render
import JavaAtlas.Proofs.Image.Address

/-!
# Outcomes of rendering

Two partners may fail on their own: the local renderer can be missing, time out or put
out something else, and the server can fail or answer something else.  Only the octets
that they give decide what comes of it.  The local renderer is asked if it was found, the
server if no image came from there, and the first octets that look like an image are taken.
Rendering breaks off without an error of its own exactly where a partner that is asked
breaks off, and where it cannot be told whether the local renderer is there.

Main results:

- Theorem `toOption_renderAs`: which octets are taken.
- Theorem `calls_renderAs`: who is asked for what.
- Theorem `render_outcome`: both for every name of a format, with the errors.
- Theorem `render_overlongArchive`: an archive of which it cannot be told whether it is there.
-/

namespace JavaAtlas.Image

open Config (ImageSettings)
open Text.Utf8 (Bytes)

/-! ## Octets of the partners -/

/-- What the local renderer put out, if it came to its end. -/
def LocalOutcome.output? : LocalOutcome → Option Bytes
  | .finished _ output _ => some output
  | .timedOut | .notStarted _ | .brokeOff _ => none

/-- How the local renderer broke off, if it did. -/
def LocalOutcome.breach? : LocalOutcome → Option String
  | .brokeOff reason => some reason
  | .finished _ _ _ | .timedOut | .notStarted _ => none

/-- The body of the answer of the server, if it answered. -/
def ServerOutcome.body? : ServerOutcome → Option Bytes
  | .response _ body => some body
  | .failed _ | .brokeOff _ => none

/-- How the request to the server broke off, if it did. -/
def ServerOutcome.breach? : ServerOutcome → Option String
  | .brokeOff reason => some reason
  | .response _ _ | .failed _ => none

/-- The failure that a server leaves which gave no image. -/
def ServerOutcome.failure (f : Format) : ServerOutcome → RenderFailure
  | .failed reason => .error (.requestFailed reason)
  | .brokeOff reason => .partner reason
  | .response status body =>
    .error (if status = 200 then .unexpected body else .badStatus status f)

/-- The failure is an error of rendering. -/
def RenderFailure.IsError (failure : RenderFailure) : Prop :=
  ∃ e, failure = .error e

/-- A server leaves an error unless it broke off. -/
theorem ServerOutcome.isError_failure_iff {f : Format} {o : ServerOutcome} :
    (o.failure f).IsError ↔ o.breach?.isSome = false := by
  cases o with
  | response status body => exact ⟨fun _ => rfl, fun _ => ⟨_, rfl⟩⟩
  | failed reason => exact ⟨fun _ => rfl, fun _ => ⟨_, rfl⟩⟩
  | brokeOff reason =>
      constructor
      · rintro ⟨e, he⟩
        cases he
      · intro h
        cases h

/-- A server that broke off gave no body. -/
theorem ServerOutcome.body?_of_breach {o : ServerOutcome} (h : o.breach?.isSome = true) :
    o.body? = none := by
  cases o with
  | brokeOff reason => rfl
  | response status body => cases h
  | failed reason => cases h

/-- A local renderer that broke off put nothing out. -/
theorem LocalOutcome.output?_of_breach {o : LocalOutcome} {reason : String}
    (h : o.breach? = some reason) : o.output? = none := by
  cases o with
  | brokeOff reason => rfl
  | finished exit output errors => cases h
  | timedOut => cases h
  | notStarted reason => cases h

/-- Of an outcome of the local renderer only the output is looked at. -/
theorem localImage_eq (f : Format) (o : LocalOutcome) :
    localImage f o =
      match o.breach? with
      | some reason => .error (.partner reason)
      | none => .ok (o.output?.filter f.resembles) := by
  cases o with
  | finished exit output errors =>
      rw [localImage, LocalOutcome.breach?, LocalOutcome.output?, Option.filter_some]
  | timedOut => rfl
  | notStarted reason => rfl
  | brokeOff reason => rfl

/-- Of an outcome of the server the body is looked at; the rest only chooses the failure. -/
theorem serverImage_eq (f : Format) (o : ServerOutcome) :
    serverImage f o =
      match o.body?.filter f.resembles with
      | some image => .ok image
      | none => .error (o.failure f) := by
  cases o with
  | failed reason => rfl
  | brokeOff reason => rfl
  | response status body =>
      by_cases hlooks : f.resembles body = true
      case pos => simp [serverImage, ServerOutcome.body?, Option.filter_some, hlooks]
      case neg =>
        by_cases hstatus : status = 200
        case pos =>
          simp [serverImage, ServerOutcome.body?, ServerOutcome.failure, Option.filter_some, hlooks,
            hstatus]
        case neg =>
          simp [serverImage, ServerOutcome.body?, ServerOutcome.failure, Option.filter_some, hlooks,
            hstatus]

/-- A format is found by its name. -/
theorem Format.ofName?_eq_some_iff {format : String} {f : Format} :
    Format.ofName? format = some f ↔ f.name = format := by
  constructor
  · intro h
    have hfound : all.find? (fun g => g.name == format) = some f := h
    simpa using List.find?_some hfound
  · rintro rfl
    exact Format.ofName?_name f

theorem Format.ofName?_eq_none_iff {format : String} :
    Format.ofName? format = none ↔ ∀ f : Format, f.name ≠ format := by
  rw [Option.eq_none_iff_forall_ne_some]
  simp only [ne_eq, Format.ofName?_eq_some_iff]

/-! ## Rendering in a format -/

section Formats

variable (settings : ImageSettings) (partners : Partners) (s : Surroundings) (f : Format)
  (text : String) (m : Memory)

/-- The local renderer is held to be there, rightly or not. -/
def isAvailable : Bool :=
  (m.askJar s settings.jarPath).1

/-- The image of the local renderer, if it is asked and gives one. -/
def ownImage? : Option Bytes :=
  if isAvailable settings s m then partners.local.output?.filter f.resembles else none

/-- How the local renderer broke off, if it is asked and did. -/
def ownBreach? : Option String :=
  if isAvailable settings s m then partners.local.breach? else none

/-- The call of the local renderer: its text may ask for another layout engine. -/
def localCall : Call :=
  .local (localCommand (settings.jarPath.getD "") f)
    (withLayout (m.engine.getD s.hasEngine) text) settings.jarTimeout

/-- The call of the server. -/
def serverCall : Call :=
  .server (imageUrl settings.serverUrl text f) settings.httpTimeout

/-- Rendering ends where the local renderer breaks off, and its image is taken before that of
the server. -/
theorem result_renderAs :
    (renderAs settings partners s f text m).1.result =
      match ownBreach? settings partners s m, ownImage? settings partners s f m with
      | some reason, _ => .error (.partner reason)
      | none, some image => .ok image
      | none, none => serverImage f partners.server := by
  unfold renderAs ownBreach? ownImage? isAvailable
  dsimp only
  cases (m.askJar s settings.jarPath).1 with
  | false => rfl
  | true =>
      rw [localImage_eq]
      cases partners.local.breach? with
      | some reason => rfl
      | none => cases partners.local.output?.filter f.resembles <;> rfl

/-- The server is asked behind the local renderer, unless this gave an image or broke off. -/
theorem calls_renderAs :
    (renderAs settings partners s f text m).1.calls =
      (if isAvailable settings s m then [localCall settings s f text m] else []) ++
        if (ownBreach? settings partners s m).isSome || (ownImage? settings partners s f m).isSome
        then []
        else [serverCall settings f text] := by
  unfold renderAs ownBreach? ownImage? isAvailable
  dsimp only
  cases (m.askJar s settings.jarPath).1 with
  | false => rfl
  | true =>
      rw [localImage_eq]
      cases partners.local.breach? with
      | some reason => rfl
      | none => cases partners.local.output?.filter f.resembles <;> rfl

/-- The octets come from the local renderer or, if it gives no image and does not break off,
from the body of the answer of the server. -/
theorem toOption_renderAs :
    (renderAs settings partners s f text m).1.result.toOption =
      if (ownBreach? settings partners s m).isSome then none
      else (ownImage? settings partners s f m).or (partners.server.body?.filter f.resembles) := by
  rw [result_renderAs]
  cases ownBreach? settings partners s m with
  | some reason => rfl
  | none =>
      cases ownImage? settings partners s f m with
      | some image => rfl
      | none =>
          rw [serverImage_eq]
          cases partners.server.body?.filter f.resembles <;> rfl

variable {settings partners s f text m}

theorem ownImage?_eq_some_iff {image : Bytes} :
    ownImage? settings partners s f m = some image ↔
      isAvailable settings s m = true ∧ partners.local.output? = some image ∧
        f.resembles image = true := by
  unfold ownImage?
  by_cases havailable : isAvailable settings s m = true
  case pos => simp [havailable, Option.filter_eq_some_iff]
  case neg => simp [havailable]

theorem isSome_ownImage? :
    (ownImage? settings partners s f m).isSome =
      (isAvailable settings s m && partners.local.output?.any f.resembles) := by
  unfold ownImage?
  by_cases havailable : isAvailable settings s m = true
  case pos => cases partners.local.output? <;> simp [havailable, Option.filter_some, apply_ite]
  case neg => simp [havailable]

theorem isSome_ownBreach? :
    (ownBreach? settings partners s m).isSome =
      (isAvailable settings s m && partners.local.breach?.isSome) := by
  unfold ownBreach?
  by_cases havailable : isAvailable settings s m = true
  case pos => simp [havailable]
  case neg => simp [havailable]

/-- Without an image there is the breach of the local renderer or else the failure of the
server, which was asked. -/
theorem error_renderAs_iff {failure : RenderFailure} :
    (renderAs settings partners s f text m).1.result = .error failure ↔
      (∃ reason, ownBreach? settings partners s m = some reason ∧ failure = .partner reason) ∨
        ownBreach? settings partners s m = none ∧ ownImage? settings partners s f m = none ∧
          partners.server.body?.filter f.resembles = none ∧
          failure = partners.server.failure f := by
  rw [result_renderAs]
  cases ownBreach? settings partners s m with
  | some reason =>
      simp only [Except.error.injEq, Option.some.injEq, exists_eq_left', reduceCtorEq, false_and,
        or_false]
      exact eq_comm
  | none =>
      cases ownImage? settings partners s f m with
      | some image => simp
      | none =>
          rw [serverImage_eq]
          cases partners.server.body?.filter f.resembles with
          | some image => simp
          | none =>
              simp only [Except.error.injEq, reduceCtorEq, false_and, exists_false, true_and,
                false_or]
              exact eq_comm

end Formats

/-! ## Rendering by the name of a format -/

section Names

variable {settings : ImageSettings} {partners : Partners} {s : Surroundings} {f : Format}
  {format text : String} {m : Memory}

theorem answer_of_name (h : f.name = format) (htold : m.jarFault? s settings.jarPath = none) :
    answer settings partners s format text m = renderAs settings partners s f text m := by
  simp only [answer, Format.ofName?_eq_some_iff.mpr h, htold]

theorem answer_of_fault (h : f.name = format) {fault : Storage.FileFault}
    (hfault : m.jarFault? s settings.jarPath = some fault) :
    answer settings partners s format text m = (⟨.error (.status fault), []⟩, m) := by
  simp only [answer, Format.ofName?_eq_some_iff.mpr h, hfault]

theorem answer_of_unsupported (h : ∀ f : Format, f.name ≠ format) :
    answer settings partners s format text m =
      (⟨.error (.error (.unsupported format)), []⟩, m) := by
  simp only [answer, Format.ofName?_eq_none_iff.mpr h]

/-- A name of a format is unknown, or it is known and either it cannot be told whether the
local renderer is there or the text is rendered. -/
theorem answer_cases (settings : ImageSettings) (partners : Partners) (s : Surroundings)
    (format text : String) (m : Memory) :
    ((∀ f : Format, f.name ≠ format) ∧
        answer settings partners s format text m =
          (⟨.error (.error (.unsupported format)), []⟩, m)) ∨
      (∃ f : Format, f.name = format ∧ ∃ fault, m.jarFault? s settings.jarPath = some fault ∧
        answer settings partners s format text m = (⟨.error (.status fault), []⟩, m)) ∨
      ∃ f : Format, f.name = format ∧ m.jarFault? s settings.jarPath = none ∧
        answer settings partners s format text m = renderAs settings partners s f text m := by
  by_cases hformat : ∃ f : Format, f.name = format
  case neg =>
    have hunsupported : ∀ f : Format, f.name ≠ format := fun f hname => hformat ⟨f, hname⟩
    exact .inl ⟨hunsupported, answer_of_unsupported hunsupported⟩
  case pos =>
    obtain ⟨f, hname⟩ := hformat
    cases hfault : m.jarFault? s settings.jarPath with
    | some fault => exact .inr (.inl ⟨f, hname, fault, rfl, answer_of_fault hname hfault⟩)
    | none => exact .inr (.inr ⟨f, hname, rfl, answer_of_name hname hfault⟩)

/-- Formats with the same name are the same. -/
theorem Format.name_injective {f g : Format} (h : f.name = g.name) : f = g :=
  Option.some.inj ((Format.ofName?_name f).symm.trans (h ▸ Format.ofName?_name g))

/-- Rendering gives octets exactly if the format is supported, it can be told whether the local
renderer is there, and one of the partners gives an image, the local renderer before the
server and without having broken off. -/
theorem ok_answer_iff {image : Bytes} :
    (answer settings partners s format text m).1.result = .ok image ↔
      m.jarFault? s settings.jarPath = none ∧ ∃ f : Format, f.name = format ∧
        ownBreach? settings partners s m = none ∧
        (ownImage? settings partners s f m).or (partners.server.body?.filter f.resembles) =
          some image := by
  have hoption {r : Except RenderFailure Bytes} : r = .ok image ↔ r.toOption = some image := by
    cases r with
    | ok octets => simp [Except.toOption]
    | error e => simp [Except.toOption]
  rcases answer_cases settings partners s format text m with
    ⟨hunsupported, hanswer⟩ | ⟨f, hname, fault, hfault, hanswer⟩ | ⟨f, hname, htold, hanswer⟩
  · rw [hanswer]
    exact ⟨nofun, fun ⟨_, f, hname, _⟩ => absurd hname (hunsupported f)⟩
  · rw [hanswer, hfault]
    exact ⟨nofun, fun ⟨htold, _⟩ => by cases htold⟩
  · rw [hanswer, hoption, toOption_renderAs]
    have hiff (x : Option Bytes) :
        (if (ownBreach? settings partners s m).isSome = true then none else x) = some image ↔
          ownBreach? settings partners s m = none ∧ x = some image := by
      cases ownBreach? settings partners s m <;> simp
    rw [hiff]
    constructor
    · intro h
      exact ⟨htold, f, hname, h⟩
    · rintro ⟨-, g, hname', h⟩
      obtain rfl := Format.name_injective (hname'.trans hname.symm)
      exact h

/-- Partners that give the same octets and break off alike are asked the same and lead to the
same octets. -/
theorem answer_of_same_octets {partners' : Partners}
    (hlocal : partners'.local.output? = partners.local.output?)
    (hbreach : partners'.local.breach? = partners.local.breach?)
    (hserver : partners'.server.body? = partners.server.body?) :
    let r := (answer settings partners s format text m).1
    let r' := (answer settings partners' s format text m).1
    r'.calls = r.calls ∧ r'.result.toOption = r.result.toOption := by
  intro r r'
  have hown (f : Format) :
      ownImage? settings partners' s f m = ownImage? settings partners s f m := by
    rw [ownImage?, ownImage?, hlocal]
  have hbreaks : ownBreach? settings partners' s m = ownBreach? settings partners s m := by
    rw [ownBreach?, ownBreach?, hbreach]
  rcases answer_cases settings partners s format text m with
    ⟨hunsupported, hanswer⟩ | ⟨f, hname, fault, hfault, hanswer⟩ | ⟨f, hname, htold, hanswer⟩
  · simp only [r, r', answer_of_unsupported hunsupported, and_self]
  · simp only [r, r', answer_of_fault hname hfault, and_self]
  · simp only [r, r', answer_of_name hname htold, calls_renderAs, toOption_renderAs, hown,
      hbreaks, hserver, and_self]

/-- Rendering breaks off without an error of its own exactly if the format is supported and
either it cannot be told whether the local renderer is there, or that breaks off, or it gives
no image and the server breaks off. -/
theorem breaks_off_iff :
    (∃ failure, (answer settings partners s format text m).1.result = .error failure ∧
        ¬ failure.IsError) ↔
      ∃ f : Format, f.name = format ∧
        ((∃ fault, m.jarFault? s settings.jarPath = some fault) ∨
          m.jarFault? s settings.jarPath = none ∧
            ((ownBreach? settings partners s m).isSome = true ∨
              (ownImage? settings partners s f m).isSome = false ∧
                partners.server.breach?.isSome = true)) := by
  rcases answer_cases settings partners s format text m with
    ⟨hunsupported, hanswer⟩ | ⟨f, hname, fault, hfault, hanswer⟩ | ⟨f, hname, htold, hanswer⟩
  · rw [hanswer]
    constructor
    · rintro ⟨failure, hresult, hnot⟩
      exact absurd ⟨_, (Except.error.inj hresult).symm⟩ hnot
    · rintro ⟨f, hname, _⟩
      exact absurd hname (hunsupported f)
  · rw [hanswer]
    refine ⟨fun _ => ⟨f, hname, .inl ⟨fault, hfault⟩⟩, fun _ => ⟨_, rfl, ?_⟩⟩
    rintro ⟨e, he⟩
    cases he
  · simp only [hanswer, htold, error_renderAs_iff]
    constructor
    · rintro ⟨failure, ⟨reason, hbreach, rfl⟩ | ⟨hbreach, himage, -, rfl⟩, hnot⟩
      · exact ⟨f, hname, .inr ⟨trivial, .inl (by rw [hbreach]; rfl)⟩⟩
      · refine ⟨f, hname, .inr ⟨trivial, .inr ⟨by rw [himage]; rfl, ?_⟩⟩⟩
        rw [ServerOutcome.isError_failure_iff, Bool.not_eq_false] at hnot
        exact hnot
    · rintro ⟨g, hname', ⟨fault, hfault⟩ | ⟨-, hends⟩⟩
      · cases hfault
      · obtain rfl := Format.name_injective (hname'.trans hname.symm)
        cases hbreach : ownBreach? settings partners s m with
        | some reason =>
            refine ⟨_, .inl ⟨reason, rfl, rfl⟩, ?_⟩
            rintro ⟨e, he⟩
            cases he
        | none =>
            rw [hbreach] at hends
            obtain ⟨himage, hserver⟩ := hends.resolve_left Bool.false_ne_true
            have hnone : ownImage? settings partners s g m = none :=
              Option.isNone_iff_eq_none.mp (Option.isSome_eq_false_iff.mp himage)
            refine ⟨_, .inr ⟨rfl, hnone, ?_, rfl⟩, ?_⟩
            · rw [ServerOutcome.body?_of_breach hserver]
              rfl
            · rw [ServerOutcome.isError_failure_iff, hserver]
              decide

end Names

/-- Rendering gives octets exactly if the format is supported, it can be told whether the local
renderer is there, and they look like an image of the format: the output of the local renderer
if this is held to be there, and otherwise the body of the answer of the server.  The local
renderer is asked first if it is held to be there, and behind it the server is asked exactly if
there is no image yet and the local renderer did not break off, with an address from which the
text itself comes back.  Everything else ends in the error of the server; only where it cannot
be told whether the local renderer is there, or where a partner that was asked broke off, it
ends in something else.  Another name of a format ends in an error, and nobody is asked.  How
the local renderer ended and which status the server gave matter neither for the calls nor for
the octets. -/
theorem render_outcome (settings : ImageSettings) (partners : Partners) (s : Surroundings)
    (format text : String) (m : Memory) :
    let r := (answer settings partners s format text m).1
    let fault? := m.jarFault? s settings.jarPath
    let available := (m.askJar s settings.jarPath).1
    let output := partners.local.output?
    let breach := partners.local.breach?
    (∀ image, r.result = .ok image ↔ fault? = none ∧
      ∃ f : Format, f.name = format ∧
        (available = true ∧ output = some image ∧ f.resembles image = true ∨
          ¬(available && (output.any f.resembles || breach.isSome)) ∧
            partners.server.body? = some image ∧ f.resembles image = true)) ∧
      (∀ f : Format, f.name = format → fault? = none →
        (∀ failure, r.result = .error failure →
          (available && breach.isSome) = false → failure = partners.server.failure f) ∧
        (∀ reason, available = true → breach = some reason →
          r.result = .error (.partner reason)) ∧
        ∃ address, decode? address = some text ∧
          r.calls =
            (if available then
              [Call.local (localCommand (settings.jarPath.getD "") f)
                (withLayout (m.engine.getD s.hasEngine) text) settings.jarTimeout]
            else []) ++
            if available && (output.any f.resembles || breach.isSome) then []
            else
              [Call.server (serverRoot settings.serverUrl ++ "/" ++ f.name ++ "/" ++ address)
                settings.httpTimeout]) ∧
      (∀ f : Format, f.name = format → ∀ fault, fault? = some fault →
        answer settings partners s format text m = (⟨.error (.status fault), []⟩, m)) ∧
      ((∀ f : Format, f.name ≠ format) →
        answer settings partners s format text m =
          (⟨.error (.error (.unsupported format)), []⟩, m)) ∧
      ((∃ failure, r.result = .error failure ∧ ¬ failure.IsError) ↔
        ∃ f : Format, f.name = format ∧ (fault?.isSome = true ∨ fault? = none ∧
          ((available && breach.isSome) = true ∨ (available && output.any f.resembles) = false ∧
            partners.server.breach?.isSome = true))) ∧
      ∀ partners' : Partners, partners'.local.output? = output →
        partners'.local.breach? = breach → partners'.server.body? = partners.server.body? →
        let r' := (answer settings partners' s format text m).1
        r'.calls = r.calls ∧ r'.result.toOption = r.result.toOption := by
  intro r fault? available output breach
  have hown (f : Format) : (ownImage? settings partners s f m).isSome =
      (available && output.any f.resembles) := isSome_ownImage?
  have hbreach : (ownBreach? settings partners s m).isSome = (available && breach.isSome) :=
    isSome_ownBreach?
  refine ⟨fun image => ?_, fun f hname htold => ⟨fun failure hresult hnot => ?_,
    fun reason havailable hreason => ?_, encode text, decode?_encode text, ?_⟩,
    fun f hname fault => answer_of_fault hname, answer_of_unsupported, ?_,
    fun partners' => answer_of_same_octets⟩
  · have hsilent : output = some image → breach.isSome = false := by
      intro houtput
      cases hreason : breach with
      | none => rfl
      | some reason =>
          have hnone : output = none := LocalOutcome.output?_of_breach hreason
          rw [hnone] at houtput
          cases houtput
    rw [ok_answer_iff]
    refine and_congr_right fun _ => exists_congr fun f => and_congr_right fun _ => ?_
    rw [Option.or_eq_some_iff, ownImage?_eq_some_iff, ← Option.not_isSome_iff_eq_none,
      ← Option.not_isSome_iff_eq_none, hown, hbreach, Option.filter_eq_some_iff]
    change _ ∧ (available = true ∧ output = some image ∧ _ ∨ _) ↔ _
    cases available with
    | false => simp
    | true =>
        simp only [Bool.true_and, true_and]
        constructor
        · rintro ⟨hquiet, hfound | ⟨hempty, hserver⟩⟩
          · exact .inl hfound
          · exact .inr ⟨by simp [hquiet, hempty], hserver⟩
        · rintro (⟨houtput, hlooks⟩ | ⟨hquiet, hserver⟩)
          · exact ⟨by simp [hsilent houtput], .inl ⟨houtput, hlooks⟩⟩
          · rw [Bool.or_eq_true, not_or] at hquiet
            exact ⟨hquiet.2, .inr ⟨hquiet.1, hserver⟩⟩
  · simp only [r, answer_of_name hname htold, error_renderAs_iff] at hresult
    rcases hresult with ⟨reason, hreason, -⟩ | ⟨-, -, -, rfl⟩
    · rw [← hbreach, hreason] at hnot
      cases hnot
    · rfl
  · have hheld : isAvailable settings s m = true := havailable
    have hown : ownBreach? settings partners s m = some reason := by
      rw [ownBreach?, if_pos hheld]
      exact hreason
    simp only [r, answer_of_name hname htold, error_renderAs_iff]
    exact .inl ⟨reason, hown, rfl⟩
  · have hcalls := calls_renderAs settings partners s f text m
    rw [hown, hbreach, ← answer_of_name hname htold, ← Bool.and_or_distrib_left,
      Bool.or_comm breach.isSome] at hcalls
    exact hcalls
  · rw [breaks_off_iff]
    simp only [hown, hbreach, ← Option.isSome_iff_exists]
    rfl

/-! ## An image with a bad status -/

/-- The archive is held to be there, though it is gone. -/
def staleMemory : Memory := ⟨[(some "renderer.jar", true)], none⟩

/-- No files and no programs. -/
def bareSurroundings : Surroundings :=
  ⟨{ entries := [], workingDirectory := [] }, []⟩

/-- The local renderer succeeds without an image, and the server fails with one. -/
def contraryPartners : Partners where
  «local» := .finished 0 [] []
  server := .response 500 pngSignature

/-- With a stale answer the local renderer is asked in vain, with a request for another
layout engine; the server is asked for the text without one, and its image is taken.  The
status, and how the local renderer failed, make no difference; only if it breaks off the
server is not asked. -/
theorem render_outcome_contrary :
    let settings : ImageSettings := { jarPath := some "renderer.jar", serverUrl := "http://u/" }
    let text := "@startuml\n@enduml\n"
    let r := (answer settings contraryPartners bareSurroundings "png" text staleMemory).1
    r.result = .ok pngSignature ∧
      (∃ address, decode? address = some text ∧
        r.calls =
          [Call.local ["java", "-Djava.awt.headless=true", "-jar", "renderer.jar", "-tpng", "-pipe"]
              "@startuml\n!pragma layout smetana\n@enduml\n" 60,
            Call.server ("http://u/png/" ++ address) (.ofInt 30)]) ∧
      (∀ exit, (answer settings ⟨.finished exit [] [], .response 200 pngSignature⟩
        bareSurroundings "png" text staleMemory).1.calls = r.calls) ∧
      answer settings contraryPartners bareSurroundings "jpg" text staleMemory =
        (⟨.error (.error (.unsupported "jpg")), []⟩, staleMemory) ∧
      (answer settings ⟨.brokeOff "timeout is too large", contraryPartners.server⟩
        bareSurroundings "png" text staleMemory).1.result =
          .error (.partner "timeout is too large") := by
  intro settings text r
  obtain ⟨hok, hcalls, -, -, -, hsame⟩ :=
    render_outcome settings contraryPartners bareSurroundings "png" text staleMemory
  obtain ⟨-, -, -, hunsupported, -⟩ :=
    render_outcome settings contraryPartners bareSurroundings "jpg" text staleMemory
  obtain ⟨-, hbreaks, -⟩ :=
    render_outcome settings ⟨.brokeOff "timeout is too large", contraryPartners.server⟩
      bareSurroundings "png" text staleMemory
  have havailable : (staleMemory.askJar bareSurroundings settings.jarPath).1 = true := by decide
  refine ⟨(hok pngSignature).mpr ⟨rfl, .png, rfl, .inr ⟨by decide, rfl, by decide⟩⟩, ?_,
    fun exit => (hsame ⟨.finished exit [] [], .response 200 pngSignature⟩ rfl rfl rfl).1,
    hunsupported fun f => by cases f <;> decide, (hbreaks .png rfl rfl).2.1 _ havailable rfl⟩
  obtain ⟨-, -, address, haddress, hlist⟩ := hcalls .png rfl rfl
  have houtput : (contraryPartners.local.output?.any Format.png.resembles ||
      contraryPartners.local.breach?.isSome) = false := by decide
  have hinput : withLayout (staleMemory.engine.getD bareSurroundings.hasEngine) text =
      "@startuml\n!pragma layout smetana\n@enduml\n" := by decide
  have hroot : serverRoot settings.serverUrl ++ "/" ++ Format.png.name ++ "/" =
      "http://u/png/" := by decide
  have hcommand : localCommand (settings.jarPath.getD "") .png =
      ["java", "-Djava.awt.headless=true", "-jar", "renderer.jar", "-tpng", "-pipe"] := by
    decide
  refine ⟨address, haddress, hlist.trans ?_⟩
  rw [havailable, houtput, hinput, hroot, hcommand]
  rfl

/-! ## An archive that cannot be looked up -/

/-- An archive whose name is too long to be looked up ends rendering without an error of its
own and without any call, though the server would give an image. -/
theorem render_overlongArchive :
    let settings : ImageSettings := { jarPath := some (String.ofList (List.replicate 256 'a')) }
    let r := (answer settings ⟨.timedOut, .response 200 pngSignature⟩ bareSurroundings "png"
      "@startuml\n@enduml\n" .empty).1
    r.calls = [] ∧ ∃ fault, fault.error = .nameTooLong ∧ r.result = .error (.status fault) ∧
      ¬ (RenderFailure.status fault).IsError := by
  intro settings r
  have hfault : Memory.empty.jarFault? bareSurroundings settings.jarPath =
      some ⟨.nameTooLong, String.ofList (List.replicate 256 'a')⟩ := by
    decide +kernel
  have hr : r = ⟨.error (.status _), []⟩ :=
    congrArg Prod.fst (answer_of_fault (f := .png) rfl hfault)
  rw [hr]
  refine ⟨rfl, _, rfl, rfl, ?_⟩
  rintro ⟨e, he⟩
  cases he

end JavaAtlas.Image

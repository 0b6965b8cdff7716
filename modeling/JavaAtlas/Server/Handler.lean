import JavaAtlas.Server.Exchange

/-!
# Handling requests

Every request has a response: the result of a service, or a status that says why there
is none.  Failures that no response is made for break the request off.

Main definitions:

- `handle`: the response to a request.
-/

namespace JavaAtlas.Server

open Config
open Service (Answer Partners Session Call Failure)

/-- The response to a failure, as status and body; there is none for a failure that
breaks the request off. -/
def failureBody? : Failure → Option (Nat × Body)
  | .diagram (.input e) => some (400, .detail e.message)
  | .diagram _ => none
  | .image e => some (502, .detail e.message)
  | .renderer _ => none
  | .partner _ => none
  | .docs (.noDirectory directory) =>
    some (400, .detail (ApiDocs.noDirectoryMessage directory))
  | .docs (.tool timeout outcome) =>
    some (500, .toolDetail (ApiDocs.toolMessage timeout outcome) outcome.output)
  | .docs _ => none

/-- What is answered at an endpoint, before the origin is looked at. -/
structure Handled where
  /-- Status and body, or the failure that breaks the request off. -/
  result : Except Failure (Nat × Body)
  calls : List Call
  session : Session

/-- The answer of a service as response. -/
def Handled.ofAnswer {α : Type} (body : α → Body) (a : Answer α) : Handled :=
  let result := match a.result with
    | .ok r => .ok (200, body r)
    | .error f =>
      match failureBody? f with
      | some shown => .ok shown
      | none => .error f
  ⟨result, a.calls, a.session⟩

/-- A response without any service. -/
def Handled.plain (s : Session) (status : Nat) (body : Body) : Handled :=
  ⟨.ok (status, body), [], s⟩

/-- The format that a request for an image names. -/
def requestedFormat (r : Request) : String :=
  (r.field? "format").getD Image.Format.svg.name

/-- The format of an image is unknown, in words. -/
def formatDetail (format : String) : String :=
  let known := ", ".intercalate (Image.Format.all.map fun f => Text.Quoted.text f.name)
  s!"Unsupported format: {format}. Supported: [{known}]"

/-- Answers a request at an endpoint. -/
def handleAt (settings : Settings) (partners : Partners) (s : Session) (r : Request) :
    Endpoint → Handled
  | .health => .plain s 200 .health
  | .diagramSource =>
    match r.field? "directoryPath" with
    | none => .plain s 422 (.missing "directoryPath")
    | some directory => .ofAnswer .diagram (s.diagram settings.diagrams directory)
  | .diagramImage =>
    match r.field? "directoryPath", Image.Format.ofName? (requestedFormat r) with
    | none, _ => .plain s 422 (.missing "directoryPath")
    | some _, none => .plain s 400 (.detail (formatDetail (requestedFormat r)))
    | some directory, some f =>
      .ofAnswer (.image (Image.mediaType f.name))
        (s.image settings partners.images directory f.name)
  | .docs =>
    match r.field? "folderPath" with
    | none => .plain s 422 (.missing "folderPath")
    | some directory =>
      .ofAnswer .docs (s.docs settings.docs partners directory (r.field? "classpath"))

/-- A request with its response, or with the failure that broke it off. -/
structure Exchange where
  result : Except Failure Response
  calls : List Call
  session : Session

/-- Answers a request. -/
def handle (settings : Settings) (partners : Partners) (s : Session) (r : Request) : Exchange :=
  let h : Handled := match Endpoint.reached? r.path with
    | none => .plain s 404 (.detail "Not Found")
    | some e =>
      if r.method = e.method then handleAt settings partners s r e
      else .plain s 405 (.detail "Method Not Allowed")
  let origin := allowedOrigin settings.server.corsOrigins r.origin
  ⟨(fun shown => ⟨shown.1, shown.2, origin⟩) <$> h.result, h.calls, h.session⟩

end JavaAtlas.Server

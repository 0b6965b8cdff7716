import JavaAtlas.Service.Session

/-!
# Requests and responses

A client sends a request with a method, a path and the fields of a form.  The response
has a status and a body, and says which origin may read it.

Main definitions:

- `Request`, `Endpoint`: what is asked, and where.
- `Body`, `Response`: what is answered.
-/

namespace JavaAtlas.Server

open Text.Utf8 (Bytes)

/-! ## Requests -/

/-- A request of a client. -/
structure Request where
  method : String
  path : String
  /-- The fields of a form; each name at most once. -/
  form : List (String × String)
  /-- The origin of the page that sends the request. -/
  origin : Option String
  deriving DecidableEq, Repr

namespace Request

/-- The value of a field; an empty one counts as missing. -/
def field? (r : Request) (name : String) : Option String :=
  (r.form.lookup name).filter (· != "")

end Request

/-- The endpoints of the server. -/
inductive Endpoint where
  | health
  | diagramSource
  | diagramImage
  | docs
  deriving DecidableEq, Repr

namespace Endpoint

/-- All endpoints. -/
def all : List Endpoint := [health, diagramSource, diagramImage, docs]

/-- The path of an endpoint. -/
def path : Endpoint → String
  | health => "/api/health"
  | diagramSource => "/api/uml/generate"
  | diagramImage => "/api/uml/render"
  | docs => "/api/javadoc/generate"

/-- The method that an endpoint answers to. -/
def method : Endpoint → String
  | health => "GET"
  | _ => "POST"

/-- The endpoint at a path. -/
def ofPath? (path : String) : Option Endpoint :=
  all.find? fun e => e.path == path

/-- The path without slashes at its end. -/
def withoutSlashes (path : String) : String :=
  String.ofList (path.toList.reverse.dropWhile (· == '/')).reverse

/-- The endpoint that a path leads to: slashes at the end count for nothing. -/
def reached? (path : String) : Option Endpoint :=
  (ofPath? path).or (ofPath? (withoutSlashes path))

end Endpoint

/-! ## Responses -/

/-- What a response says. -/
inductive Body where
  /-- The server is well. -/
  | health
  | diagram (d : Diagram.Document)
  | image (mediaType : String) (content : Bytes)
  | docs (d : ApiDocs.Docs)
  /-- Why the request failed. -/
  | detail (text : String)
  /-- Why a tool failed, and what it said. -/
  | toolDetail (message output : String)
  /-- A field is missing. -/
  | missing (field : String)
  deriving Repr

/-- The media type of a body. -/
def Body.mediaType : Body → String
  | .image mediaType _ => mediaType
  | _ => "application/json"

/-- A response to a client. -/
structure Response where
  status : Nat
  body : Body
  /-- The origin that may read the response. -/
  allowedOrigin : Option String
  deriving Repr

/-- The origin that stands for all. -/
def anyOrigin : String := "*"

/-- The origin that may read a response, if the request has one. -/
def allowedOrigin (allowed : List String) (origin : Option String) : Option String :=
  match origin with
  | none => none
  | some o =>
    if allowed.contains anyOrigin then some anyOrigin
    else if allowed.contains o then some o
    else none

end JavaAtlas.Server

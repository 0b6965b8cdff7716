import JavaAtlas.Number.Binary64

/-!
# Settings

The settings of the program in four sections, with the values that hold where
nothing else is configured.
-/

namespace JavaAtlas.Config

open Number (Binary64)

/-- Settings of class diagrams. -/
structure DiagramSettings where
  /-- Requests must stay inside this directory, if there is one. -/
  allowedBase : Option String := none
  sourceExtension : String := ".java"
  deriving DecidableEq, Repr, Inhabited

/-- Settings of the documentation tool. -/
structure DocsSettings where
  outputBase : String := "generated-javadoc"
  command : String := "javadoc"
  mavenCommand : String := "mvn"
  /-- Seconds that the tool may take. -/
  timeout : Int := 600
  /-- Seconds that collecting the class path may take. -/
  mavenTimeout : Int := 300
  disableDoclint : Bool := false
  deriving DecidableEq, Repr, Inhabited

/-- Settings of the renderer of diagrams. -/
structure ImageSettings where
  /-- Archive of the local renderer, if there is one. -/
  jarPath : Option String := none
  serverUrl : String := "https://www.plantuml.com/plantuml"
  /-- Seconds that the local renderer may take. -/
  jarTimeout : Int := 60
  /-- Seconds that the server may take. -/
  httpTimeout : Binary64 := .ofInt 30
  deriving DecidableEq, Repr, Inhabited

/-- Settings of the web server. -/
structure HostSettings where
  host : String := "0.0.0.0"
  port : Int := 9010
  corsOrigins : List String := ["*"]
  deriving DecidableEq, Repr, Inhabited

/-- All settings. -/
structure Settings where
  diagrams : DiagramSettings := {}
  docs : DocsSettings := {}
  renderer : ImageSettings := {}
  server : HostSettings := {}
  deriving DecidableEq, Repr, Inhabited

end JavaAtlas.Config

import JavaAtlas.ApiDocs.ClassPath
import JavaAtlas.ApiDocs.Dependencies
import JavaAtlas.ApiDocs.Generate
import JavaAtlas.CommandLine.Invocation
import JavaAtlas.CommandLine.Options
import JavaAtlas.CommandLine.Run
import JavaAtlas.Config.Decode
import JavaAtlas.Config.Load
import JavaAtlas.Config.Override
import JavaAtlas.Config.Settings
import JavaAtlas.Deflate.Bits
import JavaAtlas.Deflate.Block
import JavaAtlas.Deflate.Code
import JavaAtlas.Deflate.Compress
import JavaAtlas.Deflate.Inflate
import JavaAtlas.Deflate.Lengths
import JavaAtlas.Deflate.Matching
import JavaAtlas.Deflate.Token
import JavaAtlas.Diagram.Document
import JavaAtlas.Diagram.Edge
import JavaAtlas.Diagram.PlantUml
import JavaAtlas.Diagram.Registry
import JavaAtlas.Diagram.Request
import JavaAtlas.Diagram.Resolution
import JavaAtlas.Image.Alphabet
import JavaAtlas.Image.Availability
import JavaAtlas.Image.Format
import JavaAtlas.Image.Layout
import JavaAtlas.Image.Render
import JavaAtlas.Java.Declaration
import JavaAtlas.Java.Extraction
import JavaAtlas.Java.FaultTree
import JavaAtlas.Java.Grammar
import JavaAtlas.Java.Lexing
import JavaAtlas.Java.Munch
import JavaAtlas.Java.Reading
import JavaAtlas.Java.Rule
import JavaAtlas.Java.Token
import JavaAtlas.Java.Tree
import JavaAtlas.Java.TypeText
import JavaAtlas.Main
import JavaAtlas.Number.Binary64
import JavaAtlas.Proofs.Deflate.Bits
import JavaAtlas.Proofs.Deflate.Blocks
import JavaAtlas.Proofs.Deflate.Bodies
import JavaAtlas.Proofs.Deflate.CodeLengths
import JavaAtlas.Proofs.Deflate.Codewords
import JavaAtlas.Proofs.Deflate.Descriptions
import JavaAtlas.Proofs.Deflate.Joins
import JavaAtlas.Proofs.Deflate.Lossless
import JavaAtlas.Proofs.Deflate.Reading
import JavaAtlas.Proofs.Deflate.Repetitions
import JavaAtlas.Proofs.Deflate.Tallies
import JavaAtlas.Proofs.Diagram.Agreement
import JavaAtlas.Proofs.Diagram.Confinement
import JavaAtlas.Proofs.Diagram.Extraction
import JavaAtlas.Proofs.Diagram.Influence
import JavaAtlas.Proofs.Diagram.Layout
import JavaAtlas.Proofs.Diagram.LineBudget
import JavaAtlas.Proofs.Image.Address
import JavaAtlas.Proofs.Java.Derivation
import JavaAtlas.Proofs.Java.Shape
import JavaAtlas.Proofs.Java.Spelling
import JavaAtlas.Proofs.Java.Unbroken
import JavaAtlas.Proofs.Source.Walk
import JavaAtlas.Proofs.Storage.Access
import JavaAtlas.Proofs.Storage.Outline
import JavaAtlas.Proofs.Storage.PathText
import JavaAtlas.Proofs.Text.Blank
import JavaAtlas.Proofs.Text.Lines
import JavaAtlas.Proofs.Text.Utf8
import JavaAtlas.Server.Exchange
import JavaAtlas.Server.Handler
import JavaAtlas.Service.Session
import JavaAtlas.Source.CompilationUnit
import JavaAtlas.Source.Language
import JavaAtlas.Source.Reader
import JavaAtlas.Source.Walk
import JavaAtlas.Storage.Change
import JavaAtlas.Storage.FileSystem
import JavaAtlas.Storage.Path
import JavaAtlas.Text.Blank
import JavaAtlas.Text.Digits
import JavaAtlas.Text.IdentifierChar
import JavaAtlas.Text.Lines
import JavaAtlas.Text.Pieces
import JavaAtlas.Text.Printable
import JavaAtlas.Text.Quoted
import JavaAtlas.Text.Substring
import JavaAtlas.Text.Utf8
import JavaAtlas.Tool.Program
import JavaAtlas.Tool.Run
import JavaAtlas.Tool.Script
import JavaAtlas.Tool.Trace
import JavaAtlas.Yaml.Cursor
import JavaAtlas.Yaml.Node
import JavaAtlas.Yaml.Scalar
import JavaAtlas.Yaml.Token
import JavaAtlas.Yaml.Value
import JavaAtlas.Proofs.Diagram.Answering
import JavaAtlas.Proofs.Source.Removal
import JavaAtlas.Proofs.Diagram.Isolation
import JavaAtlas.Proofs.Java.Brackets
import JavaAtlas.Proofs.Diagram.Arrays
import JavaAtlas.Proofs.Java.Alike
import JavaAtlas.Proofs.Java.Joints
import JavaAtlas.Proofs.Java.Spacing
import JavaAtlas.Proofs.Java.Correspondence
import JavaAtlas.Proofs.Source.Reformatting
import JavaAtlas.Proofs.Source.Growth
import JavaAtlas.Proofs.Diagram.Growth
import JavaAtlas.Proofs.Diagram.Placement
import JavaAtlas.Proofs.Image.Outcome
import JavaAtlas.Proofs.Diagram.Reading
import JavaAtlas.Proofs.Diagram.Faithfulness
import JavaAtlas.Proofs.Config.Keeping
import JavaAtlas.Proofs.Text.Streams
import JavaAtlas.Proofs.Config.Failing
import JavaAtlas.Proofs.ApiDocs.Outcome
import JavaAtlas.Proofs.Diagram.Survey
import JavaAtlas.Proofs.Diagram.Resolution
import JavaAtlas.Proofs.Diagram.Edges
import JavaAtlas.Proofs.Source.Positions
import JavaAtlas.Proofs.Java.CanonicalForm
import JavaAtlas.Proofs.Source.Attribution
import JavaAtlas.Proofs.Diagram.OwnNames
import JavaAtlas.Proofs.Config.Overriding
import JavaAtlas.Proofs.ApiDocs.Rereading
import JavaAtlas.Proofs.Source.ShownPaths
import JavaAtlas.Proofs.Diagram.Validation
import JavaAtlas.Proofs.ApiDocs.Outputs
import JavaAtlas.Proofs.Java.FirstFault
import JavaAtlas.Proofs.Source.LineEnds
import JavaAtlas.Proofs.Service.Remembering
import JavaAtlas.Proofs.Text.Substring
import JavaAtlas.Proofs.Image.LayoutRequest
import JavaAtlas.Proofs.Service.Piping

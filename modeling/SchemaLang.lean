import SchemaLang.Ast.Decode
import SchemaLang.Ast.Definition
import SchemaLang.Ast.Encode
import SchemaLang.Ast.Kind
import SchemaLang.Ast.Loc
import SchemaLang.Ast.MapLoc
import SchemaLang.Ast.Node
import SchemaLang.Ast.Parts
import SchemaLang.Ast.TypeRef
import SchemaLang.Ast.Value
import SchemaLang.Command.Arguments
import SchemaLang.Command.Check
import SchemaLang.Command.Format
import SchemaLang.Command.Loaded
import SchemaLang.Command.LogLevel
import SchemaLang.Command.Outcome
import SchemaLang.Command.Run
import SchemaLang.Diagnostic
import SchemaLang.Files.Discovery
import SchemaLang.Files.Path
import SchemaLang.Files.Tree
import SchemaLang.Json
import SchemaLang.Json.Binary
import SchemaLang.Json.Decimal
import SchemaLang.Json.Numeral
import SchemaLang.Json.Read
import SchemaLang.Main
import SchemaLang.Parser.Basic
import SchemaLang.Parser.Definition
import SchemaLang.Parser.Lexeme
import SchemaLang.Parser.TypeRef
import SchemaLang.Parser.Value
import SchemaLang.Printer.Assemble
import SchemaLang.Printer.Layout
import SchemaLang.Printer.Print
import SchemaLang.Printer.Render
import SchemaLang.Proofs.Arrows.Confined
import SchemaLang.Proofs.Arrows.Exact
import SchemaLang.Proofs.Arrows.Frames
import SchemaLang.Proofs.Arrows.Hop
import SchemaLang.Proofs.Arrows.Layout
import SchemaLang.Proofs.Arrows.Places
import SchemaLang.Proofs.Arrows.Standing
import SchemaLang.Proofs.Carets
import SchemaLang.Proofs.Codec.Agreement
import SchemaLang.Proofs.Codec.Changes
import SchemaLang.Proofs.Codec.Decode
import SchemaLang.Proofs.Codec.Edit
import SchemaLang.Proofs.Codec.Encode
import SchemaLang.Proofs.Codec.Joins
import SchemaLang.Proofs.Codec.Reading
import SchemaLang.Proofs.Codec.Tolerance
import SchemaLang.Proofs.Completeness.Basic
import SchemaLang.Proofs.Completeness.Definition
import SchemaLang.Proofs.Completeness.TypeRef
import SchemaLang.Proofs.Completeness.Value
import SchemaLang.Proofs.Concatenation
import SchemaLang.Proofs.Contract
import SchemaLang.Proofs.Covering
import SchemaLang.Proofs.Descriptions
import SchemaLang.Proofs.Documents
import SchemaLang.Proofs.Files.Discovery
import SchemaLang.Proofs.Files.Extensions
import SchemaLang.Proofs.Files.Tree
import SchemaLang.Proofs.Files.Walk
import SchemaLang.Proofs.Form
import SchemaLang.Proofs.Formatting.DescriptionLines
import SchemaLang.Proofs.Formatting.Descriptions
import SchemaLang.Proofs.Formatting.Run
import SchemaLang.Proofs.Formatting.Schema
import SchemaLang.Proofs.Formatting.Text
import SchemaLang.Proofs.Gathering
import SchemaLang.Proofs.Lexemes
import SchemaLang.Proofs.Lexing.Agreement
import SchemaLang.Proofs.Lexing.Boundaries
import SchemaLang.Proofs.Lexing.Bytes
import SchemaLang.Proofs.Lexing.Bytewise
import SchemaLang.Proofs.Lexing.Cases
import SchemaLang.Proofs.Lexing.CommentSearch
import SchemaLang.Proofs.Lexing.CommentSpans
import SchemaLang.Proofs.Lexing.Comments
import SchemaLang.Proofs.Lexing.Contract
import SchemaLang.Proofs.Lexing.Decoding
import SchemaLang.Proofs.Lexing.Displacement
import SchemaLang.Proofs.Lexing.Faults
import SchemaLang.Proofs.Lexing.Gaps
import SchemaLang.Proofs.Lexing.Lines
import SchemaLang.Proofs.Lexing.Locality
import SchemaLang.Proofs.Lexing.NumberAgreement
import SchemaLang.Proofs.Lexing.Numbers
import SchemaLang.Proofs.Lexing.Seams
import SchemaLang.Proofs.Lexing.Sites
import SchemaLang.Proofs.Lexing.Slices
import SchemaLang.Proofs.Lexing.StringAgreement
import SchemaLang.Proofs.Lexing.Tiling
import SchemaLang.Proofs.Locations.Attachment
import SchemaLang.Proofs.Locations.Conforms
import SchemaLang.Proofs.Locations.Extent
import SchemaLang.Proofs.Locations.Form
import SchemaLang.Proofs.Locations.Nesting
import SchemaLang.Proofs.Locations.Options
import SchemaLang.Proofs.Locations.Parse
import SchemaLang.Proofs.Locations.Render
import SchemaLang.Proofs.Locations.Tokens
import SchemaLang.Proofs.Nesting.Limit
import SchemaLang.Proofs.Nesting.Measure
import SchemaLang.Proofs.Number
import SchemaLang.Proofs.OneLine
import SchemaLang.Proofs.Parsing.Steps
import SchemaLang.Proofs.Prefixes.Basic
import SchemaLang.Proofs.Prefixes.Definition
import SchemaLang.Proofs.Prefixes.Type
import SchemaLang.Proofs.Preservation.Headings
import SchemaLang.Proofs.Preservation.Kept
import SchemaLang.Proofs.Preservation.Rigid
import SchemaLang.Proofs.Preservation.Tokens
import SchemaLang.Proofs.Printing.Ends
import SchemaLang.Proofs.Printing.Layout
import SchemaLang.Proofs.Printing.Lexes
import SchemaLang.Proofs.Printing.Refinement
import SchemaLang.Proofs.Printing.Spelling
import SchemaLang.Proofs.Printing.Stack
import SchemaLang.Proofs.Printing.Written
import SchemaLang.Proofs.RoundTrip
import SchemaLang.Proofs.Scanning
import SchemaLang.Proofs.Simulation.Basic
import SchemaLang.Proofs.Simulation.Definition
import SchemaLang.Proofs.Simulation.Tokens
import SchemaLang.Proofs.Simulation.Type
import SchemaLang.Proofs.Slices.Anchored
import SchemaLang.Proofs.Slices.Form
import SchemaLang.Proofs.Slices.Lexemes
import SchemaLang.Proofs.Slices.Order
import SchemaLang.Proofs.Slices.Parts
import SchemaLang.Proofs.Slices.Reparse
import SchemaLang.Proofs.Soundness.Basic
import SchemaLang.Proofs.Soundness.Definition
import SchemaLang.Proofs.Soundness.TypeRef
import SchemaLang.Proofs.Soundness.Value
import SchemaLang.Proofs.Spans
import SchemaLang.Proofs.Syntax
import SchemaLang.Proofs.Traversal.Admission
import SchemaLang.Proofs.Traversal.Calls
import SchemaLang.Proofs.Traversal.Conforms
import SchemaLang.Proofs.Traversal.Endings
import SchemaLang.Proofs.Traversal.Failure
import SchemaLang.Proofs.Traversal.Filling
import SchemaLang.Proofs.Traversal.Joins
import SchemaLang.Proofs.Traversal.Kept
import SchemaLang.Proofs.Traversal.Narrowing
import SchemaLang.Proofs.Traversal.Outline
import SchemaLang.Proofs.Traversal.Paths
import SchemaLang.Proofs.Traversal.Preorder
import SchemaLang.Proofs.Traversal.Protocol
import SchemaLang.Proofs.Traversal.Rebuild
import SchemaLang.Proofs.Traversal.Renaming
import SchemaLang.Proofs.Traversal.Rewrite
import SchemaLang.Proofs.Traversal.SourceOrder
import SchemaLang.Proofs.Traversal.Steps
import SchemaLang.Proofs.Traversal.Variables
import SchemaLang.Proofs.Traversal.Within
import SchemaLang.Proofs.Viability.Basic
import SchemaLang.Proofs.Viability.Causes
import SchemaLang.Proofs.Viability.Definition
import SchemaLang.Proofs.Viability.Leftmost
import SchemaLang.Proofs.Viability.Type
import SchemaLang.Proofs.Vocabulary
import SchemaLang.Source
import SchemaLang.SyntaxError
import SchemaLang.Text.Blank
import SchemaLang.Text.Bytes
import SchemaLang.Text.Hidden
import SchemaLang.Text.Lines
import SchemaLang.Text.Quoted
import SchemaLang.Text.Visible
import SchemaLang.Token
import SchemaLang.Token.Ignored
import SchemaLang.Token.Number
import SchemaLang.Token.Scan
import SchemaLang.Token.StringLiteral
import SchemaLang.Traversal.Height
import SchemaLang.Traversal.Key
import SchemaLang.Traversal.Slot
import SchemaLang.Traversal.Visitor
import SchemaLang.Traversal.Walk
import SchemaLang.Variables

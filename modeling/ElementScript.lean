import ElementScript.Text.Basic
import ElementScript.Text.Quoted
import ElementScript.Text.Reference
import ElementScript.Location
import ElementScript.Lookahead
import ElementScript.Literal
import ElementScript.Comment
import ElementScript.Directive
import ElementScript.PropertyName
import ElementScript.Token.Basic
import ElementScript.Scan.State
import ElementScript.Scan.Step
import ElementScript.Scan.Run
import ElementScript.Tree.Basic
import ElementScript.Tree.Fold
import ElementScript.Tree.Build
import ElementScript.Call.Layout
import ElementScript.Call.Write
import ElementScript.Json.Basic
import ElementScript.Json.Listing
import ElementScript.Options
import ElementScript.Compile
import ElementScript.Component
import ElementScript.CommandLine.Arguments
import ElementScript.CommandLine.FileSystem
import ElementScript.CommandLine.Surroundings
import ElementScript.CommandLine.Run
import ElementScript.Main
import ElementScript.Proofs.Tree.Rules
import ElementScript.Proofs.Tree.Grammar
import ElementScript.Proofs.Tree.Stage
import ElementScript.Proofs.Token.Protocol
import ElementScript.Proofs.Scan.Layout
import ElementScript.Proofs.Comment
import ElementScript.Proofs.Scan.Reading
import ElementScript.Proofs.Markup.Basic
import ElementScript.Proofs.Markup.Names
import ElementScript.Proofs.Markup.Scanning
import ElementScript.Proofs.Markup.Building
import ElementScript.Proofs.Markup.RoundTrip
import ElementScript.Proofs.Markup.Adoption
import ElementScript.Proofs.Tree.Failure
import ElementScript.Proofs.Call.Drafts
import ElementScript.Proofs.Scan.Rules
import ElementScript.Proofs.Scan.Slices
import ElementScript.Proofs.Scan.Tiling
import ElementScript.Proofs.Scan.KeptText
import ElementScript.Proofs.Comment.Closing
import ElementScript.Proofs.Tree.Contents
import ElementScript.Proofs.Text.Braces
import ElementScript.Proofs.Tree.Braces
import ElementScript.Proofs.Scan.Braces
import ElementScript.Proofs.Comment.Idempotence
import ElementScript.Proofs.Compile.PassThrough
import ElementScript.Proofs.Compile.Ceiling
import ElementScript.Proofs.Text.Brackets
import ElementScript.Proofs.Call.Brackets
import ElementScript.Proofs.Compile.CutOff
import ElementScript.Proofs.Directive
import ElementScript.Proofs.Compile.Fragment
import ElementScript.Proofs.Compile.BracedLiteral
import ElementScript.Proofs.Compile.EmptyElements
import ElementScript.Proofs.Markup.Blanks
import ElementScript.Proofs.Comment.Agreement
import ElementScript.Proofs.Comment.Positions
import ElementScript.Proofs.Scan.Literals
import ElementScript.Proofs.Scan.Offsets
import ElementScript.Proofs.Compile.Locations
import ElementScript.Proofs.Call.Spreads
import ElementScript.Proofs.Tree.Depths
import ElementScript.Proofs.Scan.Progress
import ElementScript.Proofs.Scan.Kinds
import ElementScript.Proofs.Scan.Standalone
import ElementScript.Proofs.Location
import ElementScript.Proofs.Text.Quoted
import ElementScript.Proofs.Text.Reference
import ElementScript.Proofs.Call.Trimming
import ElementScript.Proofs.Compile.QuotedValue
import ElementScript.Proofs.Lookahead
import ElementScript.Proofs.Scan.Marks
import ElementScript.Proofs.Compile.ClosingTags
import ElementScript.Proofs.CommandLine.FileSystem
import ElementScript.Proofs.CommandLine.Arguments
import ElementScript.Proofs.CommandLine.Run
import ElementScript.Proofs.Text.Pattern
import ElementScript.Proofs.Directive.Leftmost

import Fakery.Command.Arguments
import Fakery.Command.Help
import Fakery.Command.Invocation
import Fakery.Command.Report
import Fakery.Diff.Matching
import Fakery.Diff.Unified
import Fakery.Edit.Basic
import Fakery.Edit.Splice
import Fakery.Expansion
import Fakery.Fake.Default
import Fakery.Fake.Generator
import Fakery.Fake.Render
import Fakery.Files.Change
import Fakery.Files.Path
import Fakery.Files.Tree
import Fakery.Ignore.Glob
import Fakery.Ignore.Rule
import Fakery.Json.Parse
import Fakery.Json.Value
import Fakery.Log
import Fakery.Main
import Fakery.Number.Binary64
import Fakery.Number.Decimal
import Fakery.Number.Shortest
import Fakery.Run.Outcome
import Fakery.Run.Scan
import Fakery.Run.Workspace
import Fakery.Service
import Fakery.Settings.Basic
import Fakery.Settings.Format
import Fakery.Shape.Report
import Fakery.Shape.WrittenType
import Fakery.Source.Declaration
import Fakery.Source.File
import Fakery.Source.Lift
import Fakery.Source.Reader.Declarations
import Fakery.Source.Reader.Expressions
import Fakery.Source.Reader.Language
import Fakery.Source.Reader.Members
import Fakery.Source.Reader.Types
import Fakery.Source.Syntax
import Fakery.Source.Token
import Fakery.Source.Tree
import Fakery.Source.Walk
import Fakery.Text.Alphabet
import Fakery.Text.Blank
import Fakery.Text.Integer
import Fakery.Text.Lines
import Fakery.Text.Quoted
import Fakery.Text.Utf8
import Fakery.Yaml.Cursor
import Fakery.Yaml.Document
import Fakery.Yaml.Fault
import Fakery.Yaml.Mark
import Fakery.Yaml.Node
import Fakery.Yaml.Scalar
import Fakery.Yaml.Tag
import Fakery.Yaml.Token
import Fakery.Yaml.Value
import Fakery.Proofs.Diff.Apply
import Fakery.Proofs.Diff.Listing
import Fakery.Proofs.Diff.Matching
import Fakery.Proofs.Diff.Patch
import Fakery.Proofs.Diff.Script
import Fakery.Proofs.Edit.Cut
import Fakery.Proofs.Edit.Extent
import Fakery.Proofs.Edit.Insertion
import Fakery.Proofs.Edit.Patch
import Fakery.Proofs.Edit.Removal
import Fakery.Proofs.Edit.Simultaneous
import Fakery.Proofs.Edit.Substitution
import Fakery.Proofs.Expansion.Completeness
import Fakery.Proofs.Expansion.Declarations
import Fakery.Proofs.Expansion.Idempotence
import Fakery.Proofs.Expansion.Splicing
import Fakery.Proofs.Fake.Bracketing
import Fakery.Proofs.Fake.Implicit
import Fakery.Proofs.Fake.OwnDefault
import Fakery.Proofs.Fake.Signature
import Fakery.Proofs.Fake.Strategy
import Fakery.Proofs.Fake.Verbatim
import Fakery.Proofs.Files.Depositing
import Fakery.Proofs.Files.Erasing
import Fakery.Proofs.Files.Tree
import Fakery.Proofs.Files.Writing
import Fakery.Proofs.Ignore.Git
import Fakery.Proofs.Ignore.Wildcards
import Fakery.Proofs.Outline.Derivation
import Fakery.Proofs.Outline.Expansion
import Fakery.Proofs.Outline.Expressions
import Fakery.Proofs.Outline.Generated
import Fakery.Proofs.Outline.Lifting
import Fakery.Proofs.Outline.Pruning
import Fakery.Proofs.Outline.Report
import Fakery.Proofs.Outline.RoundTrip
import Fakery.Proofs.Outline.Spelling
import Fakery.Proofs.Outline.Syntax
import Fakery.Proofs.Outline.Truncation
import Fakery.Proofs.Run.Absence
import Fakery.Proofs.Run.Canonical
import Fakery.Proofs.Run.Copy
import Fakery.Proofs.Run.Deposits
import Fakery.Proofs.Run.Directory
import Fakery.Proofs.Run.Frame
import Fakery.Proofs.Run.Isolation
import Fakery.Proofs.Run.Listing
import Fakery.Proofs.Run.Plan
import Fakery.Proofs.Run.Recording
import Fakery.Proofs.Run.Stability
import Fakery.Proofs.Run.Step
import Fakery.Proofs.Settings.Loading
import Fakery.Proofs.Shape.Balanced
import Fakery.Proofs.Shape.Calls
import Fakery.Proofs.Shape.Terms
import Fakery.Proofs.Source.Faithful
import Fakery.Proofs.Source.Faults
import Fakery.Proofs.Source.Laminar
import Fakery.Proofs.Source.Lifted
import Fakery.Proofs.Source.Matching
import Fakery.Proofs.Source.Preorder
import Fakery.Proofs.Source.Regions
import Fakery.Proofs.Source.Stands
import Fakery.Proofs.Source.Types
import Fakery.Proofs.Source.Walk
import Fakery.Proofs.Text.Brackets
import Fakery.Proofs.Text.Lines
import Fakery.Proofs.Text.Offsets
import Fakery.Proofs.Text.Solid
import Fakery.Proofs.Text.Utf8
import Fakery.Proofs.Yaml.Building
import Fakery.Proofs.Yaml.Lookup
import Fakery.Proofs.Yaml.Parts

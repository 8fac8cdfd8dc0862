import WorkflowEngine.Ascending
import WorkflowEngine.Chat
import WorkflowEngine.CommandLine.Command
import WorkflowEngine.CommandLine.Grammar
import WorkflowEngine.CommandLine.Reply
import WorkflowEngine.Compilation
import WorkflowEngine.Context
import WorkflowEngine.Decoding.Content
import WorkflowEngine.Decoding.Fault
import WorkflowEngine.Decoding.Source
import WorkflowEngine.Decoding.Sources
import WorkflowEngine.Document
import WorkflowEngine.Duration
import WorkflowEngine.Engine
import WorkflowEngine.Error
import WorkflowEngine.Execution
import WorkflowEngine.File
import WorkflowEngine.Http
import WorkflowEngine.Http.Url
import WorkflowEngine.Json.Basic
import WorkflowEngine.Json.Number
import WorkflowEngine.Json.Syntax
import WorkflowEngine.Kind
import WorkflowEngine.Main
import WorkflowEngine.Metrics
import WorkflowEngine.Module
import WorkflowEngine.Number.Binary
import WorkflowEngine.Number.Reading
import WorkflowEngine.Number.Shortest
import WorkflowEngine.Payload
import WorkflowEngine.Proofs.Ascending
import WorkflowEngine.Proofs.Coercions
import WorkflowEngine.Proofs.Compilation.All
import WorkflowEngine.Proofs.Compilation.Cache
import WorkflowEngine.Proofs.Compilation.Checks
import WorkflowEngine.Proofs.Compilation.Dependencies
import WorkflowEngine.Proofs.Compilation.Depth
import WorkflowEngine.Proofs.Compilation.Endless
import WorkflowEngine.Proofs.Compilation.Extension
import WorkflowEngine.Proofs.Compilation.Histories
import WorkflowEngine.Proofs.Compilation.Kept
import WorkflowEngine.Proofs.Compilation.Main
import WorkflowEngine.Proofs.Compilation.Programs
import WorkflowEngine.Proofs.Compilation.Results
import WorkflowEngine.Proofs.Compilation.Scripts
import WorkflowEngine.Proofs.Compilation.Stability
import WorkflowEngine.Proofs.Compilation.Tables
import WorkflowEngine.Proofs.Compilation.Uncached
import WorkflowEngine.Proofs.Conversions
import WorkflowEngine.Proofs.Decoding.Accounts
import WorkflowEngine.Proofs.Decoding.Answers
import WorkflowEngine.Proofs.Decoding.Causes
import WorkflowEngine.Proofs.Decoding.Contents
import WorkflowEngine.Proofs.Decoding.Demands
import WorkflowEngine.Proofs.Decoding.Gathering
import WorkflowEngine.Proofs.Decoding.Insertions
import WorkflowEngine.Proofs.Decoding.Members
import WorkflowEngine.Proofs.Decoding.Messages
import WorkflowEngine.Proofs.Decoding.Modules
import WorkflowEngine.Proofs.Decoding.Nesting
import WorkflowEngine.Proofs.Decoding.Order
import WorkflowEngine.Proofs.Decoding.Outcomes
import WorkflowEngine.Proofs.Decoding.Presentation
import WorkflowEngine.Proofs.Decoding.Records
import WorkflowEngine.Proofs.Decoding.RoundTrip
import WorkflowEngine.Proofs.Decoding.Tolerance
import WorkflowEngine.Proofs.Decoding.Views
import WorkflowEngine.Proofs.Derivation
import WorkflowEngine.Proofs.Documents
import WorkflowEngine.Proofs.Drafts
import WorkflowEngine.Proofs.Except
import WorkflowEngine.Proofs.Inlining.Expansion
import WorkflowEngine.Proofs.Inlining.Transparency
import WorkflowEngine.Proofs.Json.Compact
import WorkflowEngine.Proofs.Json.Places
import WorkflowEngine.Proofs.Json.Words
import WorkflowEngine.Proofs.Paths
import WorkflowEngine.Proofs.Payloads
import WorkflowEngine.Proofs.References
import WorkflowEngine.Proofs.Registering
import WorkflowEngine.Proofs.Runs.Agreement
import WorkflowEngine.Proofs.Runs.Bindings
import WorkflowEngine.Proofs.Runs.Branches
import WorkflowEngine.Proofs.Runs.Counting
import WorkflowEngine.Proofs.Runs.Errors
import WorkflowEngine.Proofs.Runs.Extractions
import WorkflowEngine.Proofs.Runs.Failures
import WorkflowEngine.Proofs.Runs.FanOuts
import WorkflowEngine.Proofs.Runs.InTurn
import WorkflowEngine.Proofs.Runs.Inputs
import WorkflowEngine.Proofs.Runs.Invocations
import WorkflowEngine.Proofs.Runs.Joins
import WorkflowEngine.Proofs.Runs.Limits
import WorkflowEngine.Proofs.Runs.Measurements
import WorkflowEngine.Proofs.Runs.Outputs
import WorkflowEngine.Proofs.Runs.Relations
import WorkflowEngine.Proofs.Runs.Repetitions
import WorkflowEngine.Proofs.Runs.Requirements
import WorkflowEngine.Proofs.Runs.Resolution
import WorkflowEngine.Proofs.Runs.Retracing
import WorkflowEngine.Proofs.Runs.Schedules
import WorkflowEngine.Proofs.Runs.Selections
import WorkflowEngine.Proofs.Runs.Sequences
import WorkflowEngine.Proofs.Runs.Simulation
import WorkflowEngine.Proofs.Runs.Strictness
import WorkflowEngine.Proofs.Runs.Switches
import WorkflowEngine.Proofs.Runs.Timeouts
import WorkflowEngine.Proofs.Runs.Visits
import WorkflowEngine.Proofs.Runs.Ways
import WorkflowEngine.Proofs.Shapes
import WorkflowEngine.Proofs.Signatures
import WorkflowEngine.Proofs.Templates
import WorkflowEngine.Proofs.Text.ByteOrder
import WorkflowEngine.Proofs.Text.Integers
import WorkflowEngine.Proofs.Text.Numerals
import WorkflowEngine.Proofs.Validation.Checks
import WorkflowEngine.Proofs.Validation.Compilation
import WorkflowEngine.Proofs.Validation.Orders
import WorkflowEngine.Proofs.Validation.Registries
import WorkflowEngine.Proofs.Validation.Search
import WorkflowEngine.Proofs.Yaml.Trees
import WorkflowEngine.Registry
import WorkflowEngine.Run
import WorkflowEngine.Settings
import WorkflowEngine.Signature
import WorkflowEngine.Spec
import WorkflowEngine.Spec.Builder
import WorkflowEngine.Spec.Decoding
import WorkflowEngine.Spec.Encoding
import WorkflowEngine.Text.Blank
import WorkflowEngine.Text.Integer
import WorkflowEngine.Text.LetterCase
import WorkflowEngine.Text.LetterCase.Table
import WorkflowEngine.Toml.Document
import WorkflowEngine.Toml.Part
import WorkflowEngine.Toml.Quoted
import WorkflowEngine.Toml.Table
import WorkflowEngine.Toml.Word
import WorkflowEngine.Tool
import WorkflowEngine.Validation
import WorkflowEngine.Value
import WorkflowEngine.Yaml.Cursor
import WorkflowEngine.Yaml.Flaw
import WorkflowEngine.Yaml.Node
import WorkflowEngine.Yaml.Part
import WorkflowEngine.Yaml.Resolution
import WorkflowEngine.Yaml.Scalar
import WorkflowEngine.Yaml.Tag
import WorkflowEngine.Yaml.Token

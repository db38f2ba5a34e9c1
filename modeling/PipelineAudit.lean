import PipelineAudit.Analysis
import PipelineAudit.Assoc
import PipelineAudit.Calendar
import PipelineAudit.Calendar.Iso
import PipelineAudit.Cli.Arguments
import PipelineAudit.Cli.Command
import PipelineAudit.Cli.Run
import PipelineAudit.Config.Anchored
import PipelineAudit.Config.Basic
import PipelineAudit.Config.Store
import PipelineAudit.Config.Validate
import PipelineAudit.Context
import PipelineAudit.FileTree
import PipelineAudit.Files
import PipelineAudit.Finding.Basic
import PipelineAudit.Graph.Basic
import PipelineAudit.Graph.CriticalPath
import PipelineAudit.Graph.Cycle
import PipelineAudit.Graph.Edge
import PipelineAudit.Graph.Level
import PipelineAudit.Json
import PipelineAudit.Json.Reader
import PipelineAudit.KnownActions
import PipelineAudit.KnownActions.Load
import PipelineAudit.Main
import PipelineAudit.Notice
import PipelineAudit.Number.Arithmetic
import PipelineAudit.Number.Binary64
import PipelineAudit.Number.Literal
import PipelineAudit.Pattern.Credential
import PipelineAudit.Pattern.Intent
import PipelineAudit.Pattern.Regex
import PipelineAudit.Pattern.Script
import PipelineAudit.Pattern.Table
import PipelineAudit.Pattern.Untrusted
import PipelineAudit.Proofs.Finding.Distinct
import PipelineAudit.Proofs.Graph.CriticalPath
import PipelineAudit.Proofs.Graph.Cycle
import PipelineAudit.Proofs.Graph.Edge
import PipelineAudit.Proofs.Graph.Level
import PipelineAudit.Proofs.Reachability.Guard
import PipelineAudit.Proofs.Reachability.Needs
import PipelineAudit.Proofs.Report.Errors
import PipelineAudit.Proofs.Report.Ids
import PipelineAudit.Proofs.Report.Provenance
import PipelineAudit.Proofs.Rule.Engine
import PipelineAudit.Proofs.Rule.Heading
import PipelineAudit.Proofs.Workflow.Document
import PipelineAudit.Proofs.Workflow.Steps
import PipelineAudit.Reachability
import PipelineAudit.Release
import PipelineAudit.Report.Aggregate
import PipelineAudit.Report.Basic
import PipelineAudit.Report.Console
import PipelineAudit.Report.Encode
import PipelineAudit.Repository
import PipelineAudit.Rule.Basic
import PipelineAudit.Rule.Catalog
import PipelineAudit.Rule.Credentials
import PipelineAudit.Rule.Custom
import PipelineAudit.Rule.Dependency
import PipelineAudit.Rule.Engine
import PipelineAudit.Rule.Listing
import PipelineAudit.Rule.Performance
import PipelineAudit.Rule.Practice
import PipelineAudit.Rule.Security
import PipelineAudit.Rule.Structure
import PipelineAudit.Rule.Usage
import PipelineAudit.Session
import PipelineAudit.Source.Search
import PipelineAudit.Text.Alphanumeric
import PipelineAudit.Text.Blank
import PipelineAudit.Text.Case
import PipelineAudit.Text.Digit
import PipelineAudit.Text.Lines
import PipelineAudit.Text.Printable
import PipelineAudit.Text.Quoted
import PipelineAudit.Text.Ranges
import PipelineAudit.Text.Utf8
import PipelineAudit.Value.Anchored
import PipelineAudit.Value.Basic
import PipelineAudit.Value.Display
import PipelineAudit.Value.Equality
import PipelineAudit.Value.Tagged
import PipelineAudit.Workflow.ActionRef
import PipelineAudit.Workflow.Artifact
import PipelineAudit.Workflow.Basic
import PipelineAudit.Workflow.Encode
import PipelineAudit.Workflow.Error
import PipelineAudit.Workflow.Fields
import PipelineAudit.Workflow.Github
import PipelineAudit.Workflow.Gitlab
import PipelineAudit.Workflow.Parse
import PipelineAudit.Yaml.Error
import PipelineAudit.Yaml.Mark
import PipelineAudit.Yaml.Node
import PipelineAudit.Yaml.Node.Compose
import PipelineAudit.Yaml.Passage
import PipelineAudit.Yaml.Position
import PipelineAudit.Yaml.Printer
import PipelineAudit.Yaml.Scalar
import PipelineAudit.Yaml.Schema
import PipelineAudit.Yaml.Token
import PipelineAudit.Yaml.Token.Lexer
import PipelineAudit.Yaml.Token.Name
import PipelineAudit.Yaml.Token.Scalar
import PipelineAudit.Yaml.Tree
import PipelineAudit.Proofs.Report.Options
import PipelineAudit.Proofs.Rule.Independence
import PipelineAudit.Proofs.Report.Independence
import PipelineAudit.Proofs.Workflow.Lines
import PipelineAudit.Proofs.Rule.Owner
import PipelineAudit.Proofs.Rule.Failure
import PipelineAudit.Proofs.Session
import PipelineAudit.Proofs.Workflow.Writable
import PipelineAudit.Proofs.Report.Outcome
import PipelineAudit.Proofs.Rule.Site
import PipelineAudit.Proofs.Rule.Repeat
import PipelineAudit.Proofs.Yaml.Merging
import PipelineAudit.Proofs.Yaml.Filling
import PipelineAudit.Proofs.Yaml.Reading
import PipelineAudit.Proofs.Yaml.Transparency
import PipelineAudit.Proofs.Yaml.Duplicates
import PipelineAudit.Proofs.Value.CleanText
import PipelineAudit.Proofs.Workflow.Cleaning.Fields
import PipelineAudit.Proofs.Workflow.Cleaning.Github
import PipelineAudit.Proofs.Workflow.Cleaning.Gitlab
import PipelineAudit.Proofs.Workflow.Cleaning.Document
import PipelineAudit.Proofs.Report.Consistency
import PipelineAudit.Proofs.Rule.Missing
import PipelineAudit.Proofs.Graph.Order
import PipelineAudit.Proofs.Reachability.Order
import PipelineAudit.Proofs.Yaml.Acceptance
import PipelineAudit.Proofs.Graph.NamedCycle
import PipelineAudit.Proofs.Rule.Registry
import PipelineAudit.Proofs.Config.Load
import PipelineAudit.Proofs.Reachability.Nearest
import PipelineAudit.Proofs.Rule.Injection
import PipelineAudit.Proofs.Reachability.Secrets
import PipelineAudit.Proofs.Rule.Pinning
import PipelineAudit.Proofs.Reachability.Admission
import PipelineAudit.Proofs.Rule.Attribution
import PipelineAudit.Proofs.Rule.Transfer
import PipelineAudit.Proofs.Rule.Matrix
import PipelineAudit.Proofs.Text.Lines
import PipelineAudit.Proofs.Finding.Snippet
import PipelineAudit.Proofs.Report.Console
import PipelineAudit.Proofs.Value.Keys
import PipelineAudit.Proofs.Yaml.KeyLines
import PipelineAudit.Proofs.Yaml.Readers
import PipelineAudit.Proofs.Yaml.Scanning
import PipelineAudit.Proofs.Yaml.Placing
import PipelineAudit.Proofs.Yaml.WithinText
import PipelineAudit.Proofs.Workflow.Within
import PipelineAudit.Proofs.Rule.Within
import PipelineAudit.Proofs.Report.Evidence
import PipelineAudit.Proofs.Number.Binary64
import PipelineAudit.Proofs.Source.Steps
import PipelineAudit.Proofs.Assoc
import PipelineAudit.Proofs.FileTree
import PipelineAudit.Proofs.Value.Paths
import PipelineAudit.Proofs.Yaml.Keyed
import PipelineAudit.Proofs.Config.Overlay
import PipelineAudit.Proofs.Config.Stability
import PipelineAudit.Proofs.Config.Reloading
import PipelineAudit.Proofs.KnownActions.Lookup
import PipelineAudit.Proofs.KnownActions.Load

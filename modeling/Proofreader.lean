import Proofreader.CommandLine.Arguments
import Proofreader.CommandLine.Run
import Proofreader.CommandLine.Token
import Proofreader.Discovery
import Proofreader.Disk
import Proofreader.Document.Builder
import Proofreader.Document.Load
import Proofreader.Document.Node
import Proofreader.Document.Tree
import Proofreader.Document.Walk
import Proofreader.Engine
import Proofreader.Entity
import Proofreader.EnvironmentFile
import Proofreader.Fragment.Basic
import Proofreader.Fragment.CharacterReference
import Proofreader.Fragment.Exemption
import Proofreader.Fragment.Markup
import Proofreader.Fragment.Selector
import Proofreader.Fragment.Tag
import Proofreader.Issue
import Proofreader.Location
import Proofreader.Main
import Proofreader.Markdown.AttributeLine
import Proofreader.Markdown.Block.Context
import Proofreader.Markdown.Block.Definition
import Proofreader.Markdown.Block.Reader
import Proofreader.Markdown.Block.Start
import Proofreader.Markdown.Block.Table
import Proofreader.Markdown.Escape
import Proofreader.Markdown.Event
import Proofreader.Markdown.Inline.Autolink
import Proofreader.Markdown.Inline.Basic
import Proofreader.Markdown.Inline.CodeSpan
import Proofreader.Markdown.Inline.Emphasis
import Proofreader.Markdown.Inline.Reader
import Proofreader.Markdown.Line
import Proofreader.Markdown.Link
import Proofreader.Markdown.Punycode
import Proofreader.Markdown.RawHtml
import Proofreader.Markdown.Url
import Proofreader.Match
import Proofreader.Opening
import Proofreader.Path
import Proofreader.Proofs.CommandLine.Files
import Proofreader.Proofs.CommandLine.Service
import Proofreader.Proofs.CommandLine.Status
import Proofreader.Proofs.Discovery
import Proofreader.Proofs.Disk
import Proofreader.Proofs.Disk.Tree
import Proofreader.Proofs.Document.Arena
import Proofreader.Proofs.Document.Descent
import Proofreader.Proofs.Document.FirstLine
import Proofreader.Proofs.Document.Folding
import Proofreader.Proofs.Document.Growth
import Proofreader.Proofs.Document.Lines
import Proofreader.Proofs.Document.Outline
import Proofreader.Proofs.Document.ParagraphLines
import Proofreader.Proofs.Document.Parents
import Proofreader.Proofs.Document.Preorder
import Proofreader.Proofs.Document.Provenance
import Proofreader.Proofs.Document.Range
import Proofreader.Proofs.Document.Recursion
import Proofreader.Proofs.Document.Scope
import Proofreader.Proofs.Document.Shape
import Proofreader.Proofs.Engine.Catalogue
import Proofreader.Proofs.Engine.Disabling
import Proofreader.Proofs.Engine.Failing
import Proofreader.Proofs.Engine.Leniency
import Proofreader.Proofs.Engine.NamedRules
import Proofreader.Proofs.Engine.Repetition
import Proofreader.Proofs.Engine.SecondOpinion
import Proofreader.Proofs.Engine.Step
import Proofreader.Proofs.Fragment.Coverage
import Proofreader.Proofs.Fragment.Lines
import Proofreader.Proofs.Fragment.Locality
import Proofreader.Proofs.Fragment.Remainders
import Proofreader.Proofs.Fragment.Scanning
import Proofreader.Proofs.Fragment.Silence
import Proofreader.Proofs.Fragment.Unmarked
import Proofreader.Proofs.Highlighting
import Proofreader.Proofs.Location
import Proofreader.Proofs.Markdown.Addresses
import Proofreader.Proofs.Markdown.Blocks
import Proofreader.Proofs.Markdown.Cuts
import Proofreader.Proofs.Markdown.Drawn
import Proofreader.Proofs.Markdown.Kept
import Proofreader.Proofs.Markdown.Laid
import Proofreader.Proofs.Markdown.Links
import Proofreader.Proofs.Markdown.RawHtml
import Proofreader.Proofs.Markdown.Reading
import Proofreader.Proofs.Markdown.Rendering
import Proofreader.Proofs.Markdown.Returns
import Proofreader.Proofs.Markdown.Spelling
import Proofreader.Proofs.Outcome
import Proofreader.Proofs.Path
import Proofreader.Proofs.Report.Agreement
import Proofreader.Proofs.Report.Csv
import Proofreader.Proofs.Report.Filed
import Proofreader.Proofs.Report.Filing
import Proofreader.Proofs.Report.Printed
import Proofreader.Proofs.Report.Recovered
import Proofreader.Proofs.Report.Suggestions
import Proofreader.Proofs.Report.Table
import Proofreader.Proofs.Session.Exemption
import Proofreader.Proofs.Session.Failures
import Proofreader.Proofs.Session.Findings
import Proofreader.Proofs.Session.IgnoredWords
import Proofreader.Proofs.Session.Interruption
import Proofreader.Proofs.Session.Leniency
import Proofreader.Proofs.Session.Repetition
import Proofreader.Proofs.Session.RuleIds
import Proofreader.Proofs.Session.Service
import Proofreader.Proofs.Session.Stripping
import Proofreader.Proofs.Session.Suppression
import Proofreader.Proofs.Session.Veto
import Proofreader.Proofs.Sorting
import Proofreader.Proofs.Terms
import Proofreader.Proofs.Text.Breaks
import Proofreader.Proofs.Text.Joining
import Proofreader.Proofs.Text.Lines
import Proofreader.Proofs.Text.Order
import Proofreader.Proofs.Text.Splitting
import Proofreader.Proofs.Text.Squeeze
import Proofreader.Proofs.Text.Utf8
import Proofreader.Proofs.Text.Words
import Proofreader.Proofs.Tool.Service
import Proofreader.Reconcile
import Proofreader.Report.Basic
import Proofreader.Report.Filing
import Proofreader.Report.Markdown
import Proofreader.Session
import Proofreader.Settings
import Proofreader.Sorting
import Proofreader.Terms
import Proofreader.Text.Basic
import Proofreader.Text.CaseMap
import Proofreader.Text.CodeSet
import Proofreader.Text.Decimal
import Proofreader.Text.Letter
import Proofreader.Text.Lines
import Proofreader.Text.Numeral
import Proofreader.Text.Punctuation
import Proofreader.Text.Quoted
import Proofreader.Text.Utf8
import Proofreader.Tool.Basic
import Proofreader.Tool.Factory
import Proofreader.Value

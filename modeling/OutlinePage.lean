import OutlinePage.Element
import OutlinePage.File.Disk
import OutlinePage.File.Fault
import OutlinePage.File.Path
import OutlinePage.File.Pattern
import OutlinePage.Log
import OutlinePage.Main
import OutlinePage.Markdown.Block
import OutlinePage.Markdown.Convert
import OutlinePage.Markdown.Emphasis
import OutlinePage.Markdown.Fence
import OutlinePage.Markdown.Glyph
import OutlinePage.Markdown.Html
import OutlinePage.Markdown.Inline
import OutlinePage.Markdown.Link
import OutlinePage.Markdown.Node
import OutlinePage.Markdown.Piece
import OutlinePage.Markdown.PipeTable
import OutlinePage.Markdown.RawHtml
import OutlinePage.Options
import OutlinePage.Outline.Attributes
import OutlinePage.Outline.Indentation
import OutlinePage.Outline.Modifiers
import OutlinePage.Outline.Parser
import OutlinePage.Page.Assembly
import OutlinePage.Page.Compile
import OutlinePage.Page.Component
import OutlinePage.Page.Crawl
import OutlinePage.Page.Render
import OutlinePage.Prose
import OutlinePage.Route
import OutlinePage.Script.Bundler
import OutlinePage.Script.Service
import OutlinePage.Site.Arguments
import OutlinePage.Site.Build
import OutlinePage.Site.Config
import OutlinePage.Site.Program
import OutlinePage.Site.Watch
import OutlinePage.Table
import OutlinePage.Text.Basic
import OutlinePage.Text.Blank
import OutlinePage.Text.Decimal
import OutlinePage.Text.Dedent
import OutlinePage.Text.Quoted
import OutlinePage.Text.Utf8
import OutlinePage.Text.Word
import OutlinePage.Variables
import OutlinePage.Vocabulary
import OutlinePage.Yaml.Fault
import OutlinePage.Yaml.Node
import OutlinePage.Yaml.Token
import OutlinePage.Yaml.Token.Scalar
import OutlinePage.Yaml.Token.Scan
import OutlinePage.Yaml.Value
import OutlinePage.Proofs.FlatReading
import OutlinePage.Proofs.Modifiers
import OutlinePage.Proofs.IndentationTree
import OutlinePage.Proofs.PrintedTag
import OutlinePage.Proofs.Printing
import OutlinePage.Proofs.Crawling
import OutlinePage.Proofs.PageSteps
import OutlinePage.Proofs.Expansion
import OutlinePage.Proofs.PageShape
import OutlinePage.Proofs.Forest
import OutlinePage.Proofs.Settling
import OutlinePage.Proofs.Hoisting
import OutlinePage.Proofs.PageContent
import OutlinePage.Proofs.HoistedScope
import OutlinePage.Proofs.CheckedCrawl
import OutlinePage.Proofs.Reentrance
import OutlinePage.Proofs.ServiceRuns
import OutlinePage.Proofs.LoadedTool
import OutlinePage.Proofs.Pieces
import OutlinePage.Proofs.Routes
import OutlinePage.Proofs.RemappedLinks
import OutlinePage.Proofs.IndentationStyle
import OutlinePage.Proofs.PageScripts
import OutlinePage.Proofs.LeftScripts
import OutlinePage.Proofs.Independence
import OutlinePage.Proofs.DiskChanges
import OutlinePage.Proofs.BuildOutputs
import OutlinePage.Proofs.GreaterReach
import OutlinePage.Proofs.TrackedReads
import OutlinePage.Proofs.BuildTwice
import OutlinePage.Proofs.BuiltScripts
import OutlinePage.Proofs.ConfiguredPages
import OutlinePage.Proofs.Passages
import OutlinePage.Proofs.Concatenation
import OutlinePage.Proofs.OpaqueBlocks
import OutlinePage.Proofs.OffsetReading
import OutlinePage.Proofs.Progress
import OutlinePage.Proofs.WatchedBuilds
import OutlinePage.Proofs.CanonicalRoutes
import OutlinePage.Proofs.HoistingOrder
import OutlinePage.Proofs.SourcePositions
import OutlinePage.Proofs.QuotedValues
import OutlinePage.Proofs.DirectWriting
import OutlinePage.Proofs.WellNested
import OutlinePage.Proofs.LexicalScope
import OutlinePage.Proofs.ProseDepth
import OutlinePage.Proofs.ModifierCuts
import OutlinePage.Proofs.SinglePass

import GameText.Bytes.Base64
import GameText.Bytes.Utf8
import GameText.Classify.Choice
import GameText.Classify.Dialogue
import GameText.Classify.Garbage
import GameText.Classify.Shape
import GameText.Desktop.Disk
import GameText.Desktop.Documents
import GameText.Desktop.Interface
import GameText.Desktop.RemainingTime
import GameText.Desktop.Run
import GameText.Desktop.SettingsForm
import GameText.Desktop.Step
import GameText.Desktop.Style
import GameText.Desktop.Table
import GameText.Desktop.Window
import GameText.Document.Basic
import GameText.Document.Extraction
import GameText.Document.Store
import GameText.Error
import GameText.EventData.Extract
import GameText.EventData.Reinsert
import GameText.EventData.Shape
import GameText.Format
import GameText.Json.Basic
import GameText.Json.Display
import GameText.Json.Loose
import GameText.Json.Order
import GameText.Json.Problem
import GameText.Json.Reader
import GameText.Json.Token
import GameText.Json.Tree
import GameText.Json.Writer
import GameText.Localization.Client
import GameText.Localization.Engine
import GameText.Localization.Prompt
import GameText.Localization.Rehearsal
import GameText.Localization.Reply
import GameText.Localization.Work
import GameText.LooseAddress.Basic
import GameText.LooseAddress.Events
import GameText.LooseAddress.Lines
import GameText.Mapping
import GameText.Markup.ControlCode
import GameText.Markup.Placeholder
import GameText.Number.Basic
import GameText.Number.Binary64
import GameText.Number.Rounding
import GameText.Number.Shortest
import GameText.Script.Kag
import GameText.Script.KagLine
import GameText.Script.LineEdit
import GameText.Script.Renpy
import GameText.Script.Tyrano
import GameText.ScriptCall.Edit
import GameText.ScriptCall.Literal
import GameText.ScriptCall.LooseEdit
import GameText.ScriptCall.Unit
import GameText.Session.Basic
import GameText.Session.File
import GameText.Settings
import GameText.Text.Basic
import GameText.Text.Blank
import GameText.Text.Case
import GameText.Text.Keyword
import GameText.Text.Lines
import GameText.Text.Printable
import GameText.Text.Quoted
import GameText.Text.Scan
import GameText.Text.Script
import GameText.Text.TagRuns
import GameText.Text.Word
import GameText.Proofs.ScriptCall.Edits
import GameText.Proofs.Text.Lines
import GameText.Proofs.Text.Pieces
import GameText.Proofs.Text.Quoted
import GameText.Proofs.Script.LineEdit
import GameText.Proofs.Script.Renpy
import GameText.Proofs.Text.TagRuns
import GameText.Proofs.Text.Trim
import GameText.Proofs.Script.KagLine
import GameText.Proofs.Script.KagRebuild
import GameText.Proofs.Script.Kag
import GameText.Proofs.Json.NumberToken
import GameText.Proofs.Json.StringToken
import GameText.Proofs.Text.Decimal
import GameText.Proofs.Bytes.Base64
import GameText.Proofs.Bytes.Utf8
import GameText.Proofs.Json.Reading
import GameText.Proofs.Json.Entries
import GameText.Proofs.Json.Leaves
import GameText.Proofs.Json.Splice
import GameText.Proofs.EventData.Address
import GameText.Proofs.Json.SpliceValue
import GameText.Proofs.Json.Indented
import GameText.Proofs.Json.Bounded
import GameText.Proofs.EventData.Extraction
import GameText.Proofs.EventData.Sizes
import GameText.Proofs.EventData.Progress
import GameText.Proofs.EventData.Collect
import GameText.Proofs.EventData.Reinsertion
import GameText.Proofs.Script.RenpyRoundTrip
import GameText.Proofs.Json.Outline
import GameText.Proofs.EventData.Detached
import GameText.Proofs.EventData.Overlay
import GameText.Proofs.EventData.OtherDocument
import GameText.Proofs.Script.OtherScript
import GameText.Proofs.Script.Sizes
import GameText.Proofs.Mapping
import GameText.Proofs.OtherSource
import GameText.Proofs.SessionFile
import GameText.Proofs.Localization.Interleaving
import GameText.Proofs.Localization.PlanReports
import GameText.Proofs.Localization.PlanSteps
import GameText.Proofs.Localization.Workers
import GameText.Proofs.Localization.Tally
import GameText.Proofs.Localization.Accounting
import GameText.Proofs.Localization.Client
import GameText.Proofs.Localization.Rehearsal
import GameText.Proofs.Localization.Replies
import GameText.Proofs.EventData.Orderly
import GameText.Proofs.Upload
import GameText.Proofs.StoreHistory
import GameText.Proofs.Desktop.Frames
import GameText.Proofs.Script.KagRegions
import GameText.Proofs.Desktop.Desk
import GameText.Proofs.Desktop.LastWrite
import GameText.Proofs.Script.Terminators
import GameText.Proofs.Script.Tyrano
import GameText.Proofs.Documents
import GameText.Proofs.Desktop.TableActs
import GameText.Proofs.Desktop.Export
import GameText.Proofs.Desktop.Panes
import GameText.Proofs.Desktop.Alignment
import GameText.Proofs.Desktop.Loading
import GameText.Proofs.Number.Order
import GameText.Proofs.Json.Tokens
import GameText.Proofs.Desktop.Orphans
import GameText.Proofs.ScriptCall.Rendered
import GameText.Proofs.Script.KagReadBack
import GameText.Proofs.Script.KagQuotations
import GameText.Proofs.Script.RenpyComments
import GameText.Proofs.Text.ReplaceAll
import GameText.Proofs.Markup.Tokens
import GameText.Proofs.Markup.Protected
import GameText.Proofs.Markup.Restoring
import GameText.Proofs.Script.KagNames
import GameText.Proofs.Script.KagOrder
import GameText.Proofs.ScriptCall.PluginCalls
import GameText.Proofs.ScriptCall.Offers
import GameText.Proofs.ScriptCall.Excuses
import GameText.Proofs.Json.Retext
import GameText.Proofs.ScriptCall.BlockLiterals
import GameText.Proofs.ScriptCall.Arguments
import GameText.Proofs.ScriptCall.LiteralBodies
import GameText.Proofs.Classify.Japanese
import GameText.Proofs.Json.LongIntegers
import GameText.Proofs.Settings
import GameText.Proofs.Json.Surroundings
import GameText.Proofs.Json.FlatObject
import GameText.Proofs.Localization.EmbeddedObjects
import GameText.Proofs.Localization.BatchReplies

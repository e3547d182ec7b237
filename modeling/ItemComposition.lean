import ItemComposition.Cache.Recency
import ItemComposition.Main
import ItemComposition.Proofs.Cache.LinkedSlots
import ItemComposition.Proofs.Cache.SlotContents
import ItemComposition.Proofs.Cache.LruRecency
import ItemComposition.Proofs.Cache.IntactSlots
import ItemComposition.Proofs.Expr.Reading
import ItemComposition.Proofs.Expr.Grammar
import ItemComposition.Proofs.Expr.Soundness
import ItemComposition.Proofs.Expr.Completeness
import ItemComposition.Proofs.Composition.Contributions
import ItemComposition.Proofs.Composition.KeyByKey
import ItemComposition.Proofs.Instruction.Gates
import ItemComposition.Proofs.Cache.Events
import ItemComposition.Proofs.Cache.UpdateLock
import ItemComposition.Proofs.Engine.Streams
import ItemComposition.Proofs.Provider.Retries
import ItemComposition.Proofs.Cache.RecentKeys
import ItemComposition.Proofs.Cache.RefreshRuns
import ItemComposition.Proofs.Cache.Serving
import ItemComposition.Proofs.Storage.TemplateFiles
import ItemComposition.Proofs.Storage.Turns
import ItemComposition.Proofs.Storage.FullRefresh
import ItemComposition.Proofs.Cache.TimelineRuns
import ItemComposition.Proofs.Composition.Selection
import ItemComposition.Proofs.Composition.Isolation
import ItemComposition.Proofs.Cache.Outline
import ItemComposition.Proofs.Cache.Handles
import ItemComposition.Proofs.Cache.RunningLoops
import ItemComposition.Proofs.Cache.RunningFlag
import ItemComposition.Proofs.Cache.RefreshTraces
import ItemComposition.Proofs.Cache.RefreshWrites
import ItemComposition.Proofs.Storage.Contents
import ItemComposition.Proofs.Storage.Precedence
import ItemComposition.Proofs.Provider.Cancellation
import ItemComposition.Expr.Printer
import ItemComposition.Proofs.Expr.Numerals
import ItemComposition.Proofs.Expr.Spelling
import ItemComposition.Proofs.Expr.Printing
import ItemComposition.Proofs.Cache.Interference
import ItemComposition.Proofs.Storage.ChangeDetection
import ItemComposition.Proofs.Storage.Histories
import ItemComposition.Proofs.Storage.Edits
import ItemComposition.Proofs.Storage.RegularFiles
import ItemComposition.Proofs.Storage.FileFaults
import ItemComposition.Proofs.Storage.Fates
import ItemComposition.Proofs.Storage.FileByFile
import ItemComposition.Proofs.Storage.ConcurrentWrites
import ItemComposition.Proofs.Provider.Deadlines
import ItemComposition.Proofs.Provider.Calls
import ItemComposition.Proofs.Engine.Instructions
import ItemComposition.Proofs.Engine.Lifetimes
import ItemComposition.Proofs.Instruction.ProviderPaths
import ItemComposition.Proofs.Text.Placeholders
import ItemComposition.Proofs.Provider.Acceptance
import ItemComposition.Proofs.RelatedDictionaries
import ItemComposition.Proofs.Yaml.Forms
import ItemComposition.Proofs.Provider.EntryPoints
import ItemComposition.Proofs.Cache.Entries
import ItemComposition.Proofs.Cache.Happenings
import ItemComposition.Proofs.Cache.Retention
import ItemComposition.Proofs.Cache.Provenance
import ItemComposition.Proofs.Storage.Provenance
import ItemComposition.Proofs.Expr.Subterms
import ItemComposition.Proofs.Expr.Bindings
import ItemComposition.Proofs.Expr.Identifiers
import ItemComposition.Proofs.Expr.CallPaths
import ItemComposition.Proofs.Expr.Lexicon
import ItemComposition.Proofs.Expr.Spans
import ItemComposition.Proofs.Expr.Lookahead
import ItemComposition.Proofs.Expr.Blocked
import ItemComposition.Proofs.Expr.ErrorPositions
import ItemComposition.Proofs.Binary64.Values
import ItemComposition.Proofs.Binary64.Rounding
import ItemComposition.Proofs.Binary64.WholeNumbers
import ItemComposition.Proofs.Json.Equality
import ItemComposition.Proofs.Expr.Equality
import ItemComposition.Proofs.Binary64.Order
import ItemComposition.Proofs.Expr.Comparison
import ItemComposition.Proofs.Instruction.Acceptance
import ItemComposition.Provider.Attachment
import ItemComposition.Proofs.Provider.Schemas
import ItemComposition.Proofs.Provider.Attachments
import ItemComposition.Proofs.Provider.MethodLookups
import ItemComposition.Proofs.Time.DurationGrammar
import ItemComposition.Proofs.Provider.ErrorClasses
import ItemComposition.Proofs.Yaml.LegalValues
import ItemComposition.Proofs.Instruction.KeyOrder
import ItemComposition.Proofs.Composition.Visits
import ItemComposition.Proofs.Composition.MethodCalls
import ItemComposition.Proofs.Provider.ConcurrentRegistrations
import ItemComposition.Proofs.Binary64.Nearest
import ItemComposition.Proofs.Binary64.Rounded
import ItemComposition.Proofs.Binary64.Operations
import ItemComposition.Proofs.Binary64.DecimalNumerals
import ItemComposition.Proofs.Binary64.Remainders
import ItemComposition.Proofs.Binary64.Integers
import ItemComposition.Proofs.Time.Instants
import ItemComposition.Proofs.Time.DurationSums
import ItemComposition.Proofs.Expr.Arithmetic
import ItemComposition.Proofs.Text.Templates
import ItemComposition.Proofs.Provider.HeaderTemplates
import ItemComposition.Proofs.Config.SettingPaths
import ItemComposition.Proofs.Config.VariableTexts
import ItemComposition.Proofs.Config.TextSettings
import ItemComposition.Proofs.Binary64.Powers
import ItemComposition.Proofs.Provider.Backoff

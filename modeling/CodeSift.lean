import CodeSift.Address
import CodeSift.Agenda
import CodeSift.Analysis
import CodeSift.Classification.ByteMap
import CodeSift.Classification.Coverage
import CodeSift.Classification.Marks
import CodeSift.Classification.Runs
import CodeSift.CrossReference.Basic
import CodeSift.CrossReference.Index
import CodeSift.Csv
import CodeSift.Executable
import CodeSift.Image.Layout
import CodeSift.Image.Loaded
import CodeSift.Instruction.Basic
import CodeSift.Instruction.Decode
import CodeSift.Instruction.Encode
import CodeSift.Instruction.OpcodeTable
import CodeSift.Json.Printer
import CodeSift.Json.Reader
import CodeSift.Json.Value
import CodeSift.LittleEndian
import CodeSift.Names
import CodeSift.OrderedSet
import CodeSift.PortableExecutable.Directories
import CodeSift.PortableExecutable.File
import CodeSift.PortableExecutable.Header
import CodeSift.PortableExecutable.Layout
import CodeSift.PortableExecutable.RichHeader
import CodeSift.PortableExecutable.SectionName
import CodeSift.Report
import CodeSift.Review.CodeBlocks
import CodeSift.Review.Passes
import CodeSift.Review.PointerTables
import CodeSift.Review.Strings
import CodeSift.Settings.Basic
import CodeSift.Settings.Json
import CodeSift.StableSort
import CodeSift.Survey.Attempt
import CodeSift.Survey.Basic
import CodeSift.Survey.Recovery
import CodeSift.Survey.Run
import CodeSift.Text.Decimal
import CodeSift.Text.Hex
import CodeSift.Proofs.Address
import CodeSift.Proofs.Coverage
import CodeSift.Proofs.ByteMap
import CodeSift.Proofs.Runs
import CodeSift.Proofs.Agenda
import CodeSift.Proofs.CrossReferences
import CodeSift.Proofs.Sessions
import CodeSift.Proofs.IndexAsSet
import CodeSift.Proofs.AgendaAsMap
import CodeSift.Proofs.Decoding
import CodeSift.Proofs.PrefixFree
import CodeSift.Proofs.Encoding
import CodeSift.Proofs.Image
import CodeSift.Proofs.MapAsFunction
import CodeSift.Proofs.Tiling
import CodeSift.Proofs.Following
import CodeSift.Proofs.Attempts
import CodeSift.Proofs.Recovery
import CodeSift.Proofs.DataSearches
import CodeSift.Proofs.TableSearch
import CodeSift.Proofs.StringSearch
import CodeSift.Proofs.CodeReview
import CodeSift.Proofs.Steps
import CodeSift.Proofs.Reachability
import CodeSift.Proofs.Listing
import CodeSift.Proofs.Anchors
import CodeSift.Proofs.Rollback
import CodeSift.Proofs.Stopping
import CodeSift.Proofs.Termination
import CodeSift.Proofs.Upkeep
import CodeSift.Proofs.Noting
import CodeSift.Proofs.Warrants
import CodeSift.Proofs.Guesses
import CodeSift.Proofs.Labels
import CodeSift.Proofs.Confirmed
import CodeSift.Proofs.Orphans
import CodeSift.Proofs.Coherence
import CodeSift.Proofs.Idempotence
import CodeSift.Proofs.Agreement
import CodeSift.Proofs.CuttingShort
import CodeSift.Proofs.Rearranging
import CodeSift.Proofs.FileOffsets
import CodeSift.Proofs.Windows
import CodeSift.Proofs.Verdicts
import CodeSift.Proofs.Limits
import CodeSift.Proofs.ErasableSpans
import CodeSift.Proofs.Probing
import CodeSift.Proofs.MaximalRuns
import CodeSift.Proofs.NamedAddresses
import CodeSift.Proofs.StrongestNames
import CodeSift.Proofs.TableReports
import CodeSift.Proofs.JsonGrammar
import CodeSift.Proofs.JsonLexemes
import CodeSift.Proofs.JsonReading
import CodeSift.Proofs.SettingsTexts
import CodeSift.Proofs.DocumentReports

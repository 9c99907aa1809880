import HeapAtlas.Analysis
import HeapAtlas.Bisect
import HeapAtlas.BitSet.Dense
import HeapAtlas.BitSet.Shared
import HeapAtlas.BitSet.Versioned
import HeapAtlas.BitSet.Words
import HeapAtlas.Bytes
import HeapAtlas.Capped
import HeapAtlas.Categorize.Categorizer
import HeapAtlas.Categorize.Memo
import HeapAtlas.Categorize.Rules
import HeapAtlas.Category
import HeapAtlas.Digest.Blake3
import HeapAtlas.Dominance.Marking
import HeapAtlas.Dominance.Postorder
import HeapAtlas.Dominance.Retained
import HeapAtlas.Dominance.Tree
import HeapAtlas.Files.Path
import HeapAtlas.Files.Tree
import HeapAtlas.Graph.Access
import HeapAtlas.Graph.Basic
import HeapAtlas.Graph.Builder
import HeapAtlas.Graph.Columns
import HeapAtlas.Graph.Counts
import HeapAtlas.Graph.Error
import HeapAtlas.Graph.Ragged
import HeapAtlas.Ident
import HeapAtlas.Inspect
import HeapAtlas.Json.Codec
import HeapAtlas.Json.Lexer
import HeapAtlas.Json.Value
import HeapAtlas.Layout
import HeapAtlas.NameBuffer
import HeapAtlas.NameTable
import HeapAtlas.Paths
import HeapAtlas.Paths.Arena
import HeapAtlas.QueryError
import HeapAtlas.Ranking
import HeapAtlas.Record
import HeapAtlas.Report.Answers
import HeapAtlas.Report.Caches
import HeapAtlas.Report.Records
import HeapAtlas.Residency.Cache
import HeapAtlas.Residency.Gates
import HeapAtlas.Residency.Interleaving
import HeapAtlas.Residency.Shelf
import HeapAtlas.Residency.Source
import HeapAtlas.Sample.Generator
import HeapAtlas.Sample.Graphs
import HeapAtlas.Scan.Chunks
import HeapAtlas.Scan.Deadline
import HeapAtlas.Scan.Interleaving
import HeapAtlas.Scan.TopK
import HeapAtlas.Scan.Words
import HeapAtlas.Settings.Engine
import HeapAtlas.Settings.Store
import HeapAtlas.SlotIndex
import HeapAtlas.SlotIndex.Words
import HeapAtlas.Snapshot.Decode
import HeapAtlas.Snapshot.Encode
import HeapAtlas.Snapshot.Error
import HeapAtlas.Snapshot.Layout
import HeapAtlas.Snapshot.Row
import HeapAtlas.Text.Blank
import HeapAtlas.Text.Coded
import HeapAtlas.Text.Hex
import HeapAtlas.Text.Quoted
import HeapAtlas.Zstd.Frame
import HeapAtlas.Zstd.Header
import HeapAtlas.Zstd.Packing
import HeapAtlas.Proofs.BitSet.Marks
import HeapAtlas.Proofs.Graph.Faultless
import HeapAtlas.Proofs.Graph.Ragged
import HeapAtlas.Proofs.Graph.Aligned
import HeapAtlas.Proofs.Graph.Incoming
import HeapAtlas.Proofs.Snapshot.Columns
import HeapAtlas.Proofs.Graph.Made
import HeapAtlas.Proofs.Dominance.Absorb
import HeapAtlas.Proofs.Dominance.Retained
import HeapAtlas.Proofs.Graph.Resolved
import HeapAtlas.Proofs.Snapshot.Labels
import HeapAtlas.Proofs.BitSet.Stamps
import HeapAtlas.Proofs.Paths.Chain
import HeapAtlas.Proofs.Paths.Shortest
import HeapAtlas.Proofs.Paths.Traced
import HeapAtlas.Proofs.Paths.Arena
import HeapAtlas.Proofs.Residency.Runs
import HeapAtlas.Proofs.Ranking.Parts
import HeapAtlas.Proofs.Ranking.Totals
import HeapAtlas.Proofs.Ranking.Covers
import HeapAtlas.Proofs.Ranking.Scanned
import HeapAtlas.Proofs.Scan.Chunks
import HeapAtlas.Proofs.Scan.Team
import HeapAtlas.Proofs.Scan.Alone
import HeapAtlas.Proofs.Scan.Words
import HeapAtlas.Proofs.Scan.Outcomes
import HeapAtlas.Proofs.Scan.Records
import HeapAtlas.Proofs.Ranking.CutOff
import HeapAtlas.Proofs.Numerals
import HeapAtlas.Proofs.Files.Path
import HeapAtlas.Proofs.Files.Tree
import HeapAtlas.Proofs.Residency.Directory
import HeapAtlas.Proofs.Ranking.ByClass
import HeapAtlas.Proofs.Graph.Found
import HeapAtlas.Proofs.Graph.Records
import HeapAtlas.Proofs.Graph.Staged
import HeapAtlas.Proofs.Graph.Faults
import HeapAtlas.Proofs.Latest
import HeapAtlas.Proofs.Graph.ReadBack
import HeapAtlas.Proofs.Graph.Calls
import HeapAtlas.Proofs.Graph.Content
import HeapAtlas.Proofs.Graph.Placing
import HeapAtlas.Proofs.Graph.Mirror
import HeapAtlas.Proofs.NameBuffer
import HeapAtlas.Proofs.Graph.Sound
import HeapAtlas.Proofs.Graph.Reads
import HeapAtlas.Proofs.Paths.Within
import HeapAtlas.Proofs.Ranking.Timed
import HeapAtlas.Proofs.Graph.Enclosed
import HeapAtlas.Proofs.Snapshot.Frame
import HeapAtlas.Proofs.Snapshot.Regular
import HeapAtlas.Proofs.Snapshot.Grammar
import HeapAtlas.Proofs.Analysis.Kept
import HeapAtlas.Proofs.Categorize.Memo
import HeapAtlas.Proofs.Analysis.History
import HeapAtlas.Proofs.Residency.Gates
import HeapAtlas.Proofs.Residency.Moves
import HeapAtlas.Proofs.Residency.Stock
import HeapAtlas.Proofs.Residency.SingleFlight
import HeapAtlas.Proofs.BitSet.Shared
import HeapAtlas.Proofs.Dominance.Marking
import HeapAtlas.Proofs.Dominance.Accounts
import HeapAtlas.Proofs.Snapshot.Peek
import HeapAtlas.Proofs.Residency.EarlyCheck
import HeapAtlas.Proofs.Residency.Packed
import HeapAtlas.Proofs.Categorize.Generations
import HeapAtlas.Proofs.Residency.Tended
import HeapAtlas.Proofs.Sorting
import HeapAtlas.Proofs.Ranking.ByTotal
import HeapAtlas.Proofs.Inspect.Chain
import HeapAtlas.Proofs.Inspect.Matching
import HeapAtlas.Proofs.Inspect.Listing
import HeapAtlas.Proofs.Inspect.Types
import HeapAtlas.Proofs.Categorize.Rules
import HeapAtlas.Proofs.Scan.Dealt
import HeapAtlas.Proofs.Dominance.Sweeps
import HeapAtlas.Proofs.Json.Texts
import HeapAtlas.Proofs.Json.Numbers
import HeapAtlas.Proofs.Json.Grammar
import HeapAtlas.Proofs.Json.Reads
import HeapAtlas.Proofs.Json.Records
import HeapAtlas.Proofs.Settings.Stores
import HeapAtlas.Proofs.Settings.Kept
import HeapAtlas.Proofs.BitSet.Outlived
import HeapAtlas.Proofs.BitSet.Represented
import HeapAtlas.Proofs.SlotIndex

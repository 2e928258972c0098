import BenchLedger.Http.Site
import BenchLedger.Lock.Table
import BenchLedger.Main
import BenchLedger.Proofs.Ingest.AnyOrder
import BenchLedger.Proofs.Ingest.EntryPoints
import BenchLedger.Proofs.Ingest.Isolation
import BenchLedger.Proofs.Ingest.Repetition
import BenchLedger.Proofs.Ledger.Agreement
import BenchLedger.Proofs.Ledger.Coherence
import BenchLedger.Proofs.Ledger.Log
import BenchLedger.Proofs.Analysis.Verdicts
import BenchLedger.Proofs.Ingest.Alerts
import BenchLedger.Proofs.Ledger.ArrivalOrder
import BenchLedger.Proofs.Ingest.Reachable
import BenchLedger.Proofs.Ledger.Listing
import BenchLedger.Proofs.Dashboard.Export
import BenchLedger.Proofs.Decimal.Nearest
import BenchLedger.Proofs.Decimal.Shortest
import BenchLedger.Proofs.Decimal.Bits
import BenchLedger.Proofs.Decimal.Layouts
import BenchLedger.Proofs.Text.Ranges
import BenchLedger.Proofs.Dashboard.Restating
import BenchLedger.Proofs.Dashboard.RoundTrip
import BenchLedger.Proofs.Ingest.Rereading
import BenchLedger.Proofs.Dashboard.Script
import BenchLedger.Proofs.Dashboard.Commits
import BenchLedger.Proofs.Dashboard.Reimport
import BenchLedger.Proofs.Analysis.Windows
import BenchLedger.Proofs.Ingest.Judgements
import BenchLedger.Proofs.Ingest.Totals
import BenchLedger.Proofs.Ledger.KnownCommits
import BenchLedger.Proofs.Ledger.Receipts
import BenchLedger.Proofs.Analysis.Policies
import BenchLedger.Proofs.Decimal.Rounding
import BenchLedger.Proofs.Decimal.Positions
import BenchLedger.Proofs.Decimal.Accuracy
import BenchLedger.Proofs.Decimal.Arithmetic
import BenchLedger.Proofs.Decimal.Values
import BenchLedger.Proofs.Decimal.Extremes
import BenchLedger.Proofs.Decimal.Differences
import BenchLedger.Proofs.Decimal.Products
import BenchLedger.Proofs.Decimal.Ratios
import BenchLedger.Proofs.Analysis.Centers
import BenchLedger.Proofs.Analysis.Classes
import BenchLedger.Proofs.Analysis.Flags
import BenchLedger.Proofs.Ledger.Units
import BenchLedger.Proofs.Ledger.OneByOne
import BenchLedger.Proofs.Ledger.Repeated
import BenchLedger.Proofs.Dashboard.Rebuilt
import BenchLedger.Proofs.Text.RangeGrammar
import BenchLedger.Proofs.Lock.Exclusion
import BenchLedger.Proofs.CommandLine.Ingestion
import BenchLedger.Proofs.Text.UnitSpellings
import BenchLedger.Proofs.Lock.Contention
import BenchLedger.Proofs.RunFiles
import BenchLedger.Proofs.Markdown.Reading
import BenchLedger.Proofs.Markdown.Tables

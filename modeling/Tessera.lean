import Tessera.Compression.Selective
import Tessera.Compression.Window
import Tessera.Grammar.Collection
import Tessera.Grammar.Record
import Tessera.Main
import Tessera.Proofs.Grammar.ReferringBodies
import Tessera.Proofs.Grammar.ParenthesisedRules
import Tessera.Proofs.Tokenizer.RoundTrip
import Tessera.Proofs.Vocabulary.SpecialScan
import Tessera.Random.Scripted
import Tessera.Tokenizer.Record
import Tessera.Vocabulary.Search
import Tessera.Proofs.Tokenizer.Uncovered
import Tessera.Proofs.Tokenizer.StaysAhead
import Tessera.Proofs.Number.FloatOrder
import Tessera.Proofs.Compression.Monotonicity
import Tessera.Proofs.Grammar.CycleDetection
import Tessera.Proofs.Vocabulary.TrieLookup
import Tessera.Proofs.Tokenizer.ParallelWalks
import Tessera.Proofs.Compression.Results
import Tessera.Proofs.Tokenizer.StrictWalks
import Tessera.Proofs.Compression.WindowSearch
import Tessera.Proofs.Grammar.Compilation
import Tessera.Proofs.Grammar.ProductionLines
import Tessera.Proofs.Grammar.LookupGraph
import Tessera.Proofs.Grammar.UndefinedReferences
import Tessera.Proofs.Grammar.History
import Tessera.Proofs.Grammar.ResolutionStack
import Tessera.Proofs.Tokenizer.SpecialIds
import Tessera.Proofs.Compression.SpanLayouts
import Tessera.Proofs.Tokenizer.Losslessness
import Tessera.Proofs.Compression.FinestPieces
import Tessera.Proofs.Vocabulary.SavedVocabulary
import Tessera.Proofs.Grammar.Qualification
import Tessera.Proofs.Grammar.IssuedReferences
import Tessera.Proofs.Grammar.SharedFiles
import Tessera.Proofs.Inspection.SpecialFlags
import Tessera.Proofs.CommandLine.ExitCodes
import Tessera.Proofs.Vocabulary.SpecialSelection
import Tessera.Proofs.Vocabulary.SplitPartition
import Tessera.Proofs.Random.ProportionalChoice
import Tessera.Proofs.Tokenizer.CandidatesInPlay
import Tessera.Proofs.Tokenizer.BoundedLookahead
import Tessera.Proofs.Tokenizer.DrawAccounting
import Tessera.Proofs.Compression.PulledWalks
import Tessera.Proofs.Compression.LengthDistribution
import Tessera.Proofs.Vocabulary.SearchResults
import Tessera.Proofs.Grammar.BuilderCalls
import Tessera.Proofs.Grammar.ForeignTerms
import Tessera.Proofs.Grammar.UnknownLookups
import Tessera.Proofs.Grammar.EscapedLiterals
import Tessera.Proofs.Tokenizer.Progress

import Constituency.Main
import Constituency.Proofs.Chart.Agreement
import Constituency.Proofs.Chart.Beams
import Constituency.Proofs.Chart.ClosureRuns
import Constituency.Proofs.Chart.Completion
import Constituency.Proofs.Chart.CycleFreedom
import Constituency.Proofs.Chart.DoubleScores
import Constituency.Proofs.Chart.Endings
import Constituency.Proofs.Chart.Exactness
import Constituency.Proofs.Chart.FillInduction
import Constituency.Proofs.Chart.Fixpoints
import Constituency.Proofs.Chart.Limits
import Constituency.Proofs.Chart.Locality
import Constituency.Proofs.Chart.Offers
import Constituency.Proofs.Chart.Rows
import Constituency.Proofs.Chart.Slots
import Constituency.Proofs.Chart.Soundness
import Constituency.Proofs.Chart.Storing
import Constituency.Proofs.Chart.Tallies
import Constituency.Proofs.Chart.Termination
import Constituency.Proofs.Command.Conversations
import Constituency.Proofs.Command.Lines
import Constituency.Proofs.Decimal.Spelling
import Constituency.Proofs.Double.Bounds
import Constituency.Proofs.Double.Fields
import Constituency.Proofs.Double.NumberLine
import Constituency.Proofs.Double.Rounding
import Constituency.Proofs.Double.TotalOrder
import Constituency.Proofs.ExactWeights
import Constituency.Proofs.Grammar.Gains
import Constituency.Proofs.Grammar.Indexes
import Constituency.Proofs.Grammar.Lookups
import Constituency.Proofs.Grammar.Reordering
import Constituency.Proofs.GrammarFile.Acceptance
import Constituency.Proofs.GrammarFile.Format
import Constituency.Proofs.GrammarFile.Lexemes
import Constituency.Proofs.GrammarFile.Reloading
import Constituency.Proofs.GrammarFile.Rereading
import Constituency.Proofs.GrammarFile.RoundTrip
import Constituency.Proofs.GrammarFile.Spellings
import Constituency.Proofs.Language.Preservation
import Constituency.Proofs.Language.Trees
import Constituency.Proofs.Language.Yields
import Constituency.Proofs.NormalForm.DistinctFrames
import Constituency.Proofs.NormalForm.Grammars
import Constituency.Proofs.NormalForm.Names
import Constituency.Proofs.NormalForm.NormalRules
import Constituency.Proofs.NormalForm.Stations
import Constituency.Proofs.NormalForm.SyntheticLabels
import Constituency.Proofs.NormalForm.UnaryChains
import Constituency.Proofs.NormalForm.UnitHeads
import Constituency.Proofs.NormalForm.Units
import Constituency.Proofs.NormalForm.Weights
import Constituency.Proofs.Ruleset.Frames
import Constituency.Proofs.Ruleset.Merging
import Constituency.Proofs.Ruleset.Rescaling
import Constituency.Proofs.Scores
import Constituency.Proofs.Tree.BracketReading
import Constituency.Proofs.Tree.Licence
import Constituency.Proofs.Tree.OutlineLines
import Constituency.Proofs.Tree.Rounds
import Constituency.Proofs.Weighted.ChainProducts
import Constituency.Proofs.Weighted.Chains
import Constituency.Proofs.Weighted.Forests
import Constituency.Proofs.Weighted.Inside
import Constituency.Proofs.Weighted.Preservation
import Constituency.Proofs.Weighted.Routes
import Constituency.Proofs.Weighted.Series
import Constituency.Proofs.Weighted.Shares
import Constituency.Proofs.Weighted.Shortcuts
import Constituency.Proofs.Weighted.Solutions
import Constituency.Proofs.Weighted.Spreads
import Constituency.Proofs.Weighted.Totals
import Constituency.Proofs.Weighted.UnitSeries

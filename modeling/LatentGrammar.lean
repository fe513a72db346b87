import LatentGrammar.Main
import LatentGrammar.Proofs.Scoring.Shape
import LatentGrammar.Proofs.Scoring.Derivation
import LatentGrammar.Proofs.Scoring.Outside
import LatentGrammar.Proofs.Consistency.Run
import LatentGrammar.Proofs.Counting.Totals
import LatentGrammar.Proofs.InnerLoop.Acceptance
import LatentGrammar.Proofs.Splitting.Refinement
import LatentGrammar.Proofs.HeldOut.Inspection
import LatentGrammar.Proofs.Reestimation.Likelihood
import LatentGrammar.Proofs.Bracketing.Grammar
import LatentGrammar.Proofs.Bracketing.Printing
import LatentGrammar.Proofs.Saving.Checkpoints
import LatentGrammar.Proofs.Saving.Files
import LatentGrammar.Proofs.Bookkeeping.Sums
import LatentGrammar.Proofs.Bookkeeping.Balance
import LatentGrammar.Proofs.Bookkeeping.Lexicons
import LatentGrammar.Proofs.Counting.Evaluation
import LatentGrammar.Proofs.Schedule.Stages
import LatentGrammar.Proofs.Schedule.Slots
import LatentGrammar.Proofs.Seeds.Runs
import LatentGrammar.Proofs.Splitting.VisitingOrder
import LatentGrammar.Proofs.Merging.Selection
import LatentGrammar.Proofs.Merging.Lumping
import LatentGrammar.Proofs.Merging.Losses
import LatentGrammar.Proofs.Merging.Undoing
import LatentGrammar.Proofs.Merging.Untouched
import LatentGrammar.Proofs.Reestimation.Distribution
import LatentGrammar.Proofs.Reestimation.Frequencies
import LatentGrammar.Proofs.Scoring.WordShares
import LatentGrammar.Proofs.Binarization.Corpora
import LatentGrammar.Proofs.Binarization.Spines
import LatentGrammar.Proofs.Scoring.Divisors
import LatentGrammar.Proofs.Splitting.Signs
import LatentGrammar.Proofs.Layout.Building
import LatentGrammar.Proofs.Merging.Budgets
import LatentGrammar.Proofs.Reestimation.Siblings
import LatentGrammar.Proofs.Scoring.Forgetting
import LatentGrammar.Proofs.Scoring.InPlace
import LatentGrammar.Proofs.Bracketing.Pruning
import LatentGrammar.Proofs.Layout.Rewording
import LatentGrammar.Proofs.Counting.Positions
import LatentGrammar.Proofs.Bookkeeping.Tying
import LatentGrammar.Proofs.Saving.Vocabularies
import LatentGrammar.Proofs.Merging.Families
import LatentGrammar.Proofs.Merging.LossSums

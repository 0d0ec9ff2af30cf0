import Crosswalk.CommandLine.Outcome
import Crosswalk.Condition.Evaluation
import Crosswalk.Generator.PolicyLayout
import Crosswalk.Loading
import Crosswalk.Main
import Crosswalk.Mapping.Layout
import Crosswalk.Proofs.Atomicity
import Crosswalk.Proofs.ContinuedPaths
import Crosswalk.Proofs.ContinuedTokens
import Crosswalk.Proofs.DocumentOrder
import Crosswalk.Proofs.JoinsInRuns
import Crosswalk.Proofs.KeptValues
import Crosswalk.Proofs.LinkedBranches
import Crosswalk.Proofs.MergedDescriptions
import Crosswalk.Proofs.Parsing
import Crosswalk.Proofs.SharedIntermediates
import Crosswalk.Proofs.StructuralPath
import Crosswalk.Proofs.TypedResources
import Crosswalk.Proofs.ValidRuns
import Crosswalk.Rdf.Document
import Crosswalk.Run.Execute
import Crosswalk.Vocabulary.Reader
import Crosswalk.Proofs.ContinuedRanges
import Crosswalk.Proofs.RangesInRuns
import Crosswalk.Proofs.NamedGraphs
import Crosswalk.Proofs.LaterStates
import Crosswalk.Proofs.Variables
import Crosswalk.Proofs.SetOnce
import Crosswalk.Proofs.DistinctResources
import Crosswalk.Proofs.AssociatedOutput
import Crosswalk.Proofs.RememberedCalls
import Crosswalk.Proofs.Locators
import Crosswalk.Proofs.NormalConditions
import Crosswalk.Proofs.Accounts
import Crosswalk.Proofs.Origins
import Crosswalk.Proofs.LeftVariables
import Crosswalk.Proofs.AnnotatedDocuments
import Crosswalk.Proofs.ConverseTerms
import Crosswalk.Proofs.StoredBatches
import Crosswalk.Proofs.ReadBack
import Crosswalk.Proofs.AlternatingPaths
import Crosswalk.Proofs.DeclaredTerms
import Crosswalk.Proofs.MergedValues
import Crosswalk.Proofs.WritableRuns
import Crosswalk.Proofs.RetypedMappings
import Crosswalk.Proofs.Axes
import Crosswalk.Proofs.DescendantSteps
import Crosswalk.Proofs.Comparisons
import Crosswalk.Proofs.RoundedNumbers
import Crosswalk.Proofs.Coercions
import Crosswalk.Proofs.DistinctSubstitutions
import Crosswalk.Proofs.PlacedTemplates
import Crosswalk.Proofs.LiteralLanguages
import Crosswalk.Proofs.EquatedRelations
import Crosswalk.Proofs.CountedLabels
import Crosswalk.Proofs.ValueReaders
import Crosswalk.Proofs.WatchedRuns
import Crosswalk.Proofs.FollowedSteps
import Crosswalk.Proofs.LiveContexts

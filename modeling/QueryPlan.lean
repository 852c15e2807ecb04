import QueryPlan.Command.Folder
import QueryPlan.Main
import QueryPlan.Proofs.Nodes
import QueryPlan.Proofs.Outcome
import QueryPlan.Proofs.Accounts
import QueryPlan.Proofs.Schema
import QueryPlan.Proofs.Rewriting
import QueryPlan.Proofs.Search
import QueryPlan.Proofs.Conservation
import QueryPlan.Proofs.Availability
import QueryPlan.Proofs.Progress
import QueryPlan.Proofs.Acceptance
import QueryPlan.Proofs.FrontEnds
import QueryPlan.Proofs.Twins
import QueryPlan.Proofs.Lockstep
import QueryPlan.Proofs.Narrowing
import QueryPlan.Proofs.Bags
import QueryPlan.Proofs.Evaluation
import QueryPlan.Proofs.Meaning
import QueryPlan.Proofs.Equivalence
import QueryPlan.Proofs.Consistency
import QueryPlan.Proofs.Columns
import QueryPlan.Proofs.Queries
import QueryPlan.Proofs.Ambiguity
import QueryPlan.Proofs.Expense
import QueryPlan.Proofs.Shape
import QueryPlan.Proofs.StepLists
import QueryPlan.Proofs.Estimability
import QueryPlan.Proofs.JsonText
import QueryPlan.Proofs.PlanText
import QueryPlan.Catalogue.Definition
import QueryPlan.Proofs.CatalogueText
import QueryPlan.Catalogue.Register
import QueryPlan.Proofs.Registration
import QueryPlan.Proofs.Operands
import QueryPlan.Proofs.Pushdown
import QueryPlan.Proofs.Run
import QueryPlan.Proofs.Choice
import QueryPlan.Proofs.Components
import QueryPlan.Proofs.Sides
import QueryPlan.Proofs.Estimates
import QueryPlan.Proofs.Positions
import QueryPlan.Proofs.Safety
import QueryPlan.Proofs.Freshness
import QueryPlan.Proofs.Statistics
import QueryPlan.Proofs.Conjunctions
import QueryPlan.Proofs.SqlRules
import QueryPlan.Proofs.YamlRules
import QueryPlan.Text.Lines
import QueryPlan.Proofs.TextLines
import QueryPlan.Proofs.CatalogueLines
import QueryPlan.Proofs.Descriptions
import QueryPlan.Proofs.Listing
import QueryPlan.Proofs.References
import QueryPlan.Proofs.Partition

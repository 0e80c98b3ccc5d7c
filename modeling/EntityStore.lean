import EntityStore.Entities.Search
import EntityStore.Mutation.OfEntities
import EntityStore.Mutation.OfResources
import EntityStore.Query.Planning
import EntityStore.Proofs.Entities.Order
import EntityStore.Proofs.Entities.WellFormed
import EntityStore.Proofs.Filter.Printing
import EntityStore.Proofs.Lock.Tenancy
import EntityStore.Proofs.Mutation.Completion
import EntityStore.Proofs.Mutation.Serializable
import EntityStore.Proofs.Mutation.Tags
import EntityStore.Proofs.Query.Combination
import EntityStore.Proofs.Query.Compilation
import EntityStore.Proofs.Query.Navigation
import EntityStore.Proofs.Query.Operands
import EntityStore.Proofs.Resources.Subtree
import EntityStore.Proofs.Filter.Unclosed
import EntityStore.Proofs.Query.Pages
import EntityStore.Proofs.Query.Orderings
import EntityStore.Proofs.Numbers
import EntityStore.Proofs.Filter.QuotedText
import EntityStore.Proofs.Filter.InstantText
import EntityStore.Proofs.Filter.Comparison
import EntityStore.Proofs.Schema.SingleBudget
import EntityStore.Proofs.Filter.IntegerText
import EntityStore.Proofs.Double.Underflow
import EntityStore.Proofs.Filter.TinyNumber
import EntityStore.Proofs.Query.QueryString
import EntityStore.Proofs.Query.Limits
import EntityStore.Proofs.Query.PageNumbers
import EntityStore.Proofs.Schema.Learning
import EntityStore.Proofs.Resources.Listing
import EntityStore.Proofs.Lock.InOrder
import EntityStore.Proofs.Lock.Fencing
import EntityStore.Proofs.ETag
import EntityStore.Proofs.Filter.NumberText
import EntityStore.Proofs.Entities.Removal
import EntityStore.Proofs.Mutation.Unopposed
import EntityStore.Proofs.Mutation.TypeDeletion
import EntityStore.Proofs.Filter.Places
import EntityStore.Proofs.Schema.Defaults
import EntityStore.Proofs.Query.Keyword

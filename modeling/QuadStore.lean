import QuadStore.Binary
import QuadStore.Binary.Reading
import QuadStore.Binary.Shortest
import QuadStore.Binding
import QuadStore.Condition
import QuadStore.Console
import QuadStore.DateTime
import QuadStore.Like
import QuadStore.Main
import QuadStore.Pattern
import QuadStore.Proofs.CompoundAnswers
import QuadStore.Proofs.Digits
import QuadStore.Proofs.DistinctRows
import QuadStore.Proofs.FailedAccess
import QuadStore.Proofs.FirstRows
import QuadStore.Proofs.GraphStart
import QuadStore.Proofs.GroupAnswers
import QuadStore.Proofs.Isolation
import QuadStore.Proofs.IssuedStatements
import QuadStore.Proofs.EngineLimits
import QuadStore.Proofs.Joining
import QuadStore.Proofs.KeptFilters
import QuadStore.Proofs.KeyOrder
import QuadStore.Proofs.LimitedAnswers
import QuadStore.Proofs.LookupRows
import QuadStore.Proofs.Meaning
import QuadStore.Proofs.NamedGraphs
import QuadStore.Proofs.Narrowing
import QuadStore.Proofs.NumberFilter
import QuadStore.Proofs.Numeral
import QuadStore.Proofs.OptionalAnswers
import QuadStore.Proofs.OptionalRows
import QuadStore.Proofs.PatternScope
import QuadStore.Proofs.PayloadText
import QuadStore.Proofs.Placeholders
import QuadStore.Proofs.PlanAnswers
import QuadStore.Proofs.PlanShapes
import QuadStore.Proofs.Prefix
import QuadStore.Proofs.PrintedNumber
import QuadStore.Proofs.Provenance
import QuadStore.Proofs.QueryShape
import QuadStore.Proofs.Rounding
import QuadStore.Proofs.SameShape
import QuadStore.Proofs.Selection
import QuadStore.Proofs.ShortestDigits
import QuadStore.Proofs.SingleAnswers
import QuadStore.Proofs.Sorted
import QuadStore.Proofs.StatementShape
import QuadStore.Proofs.Step
import QuadStore.Proofs.StoreMap
import QuadStore.Proofs.StoredQuints
import QuadStore.Proofs.TermText
import QuadStore.Proofs.Transactions
import QuadStore.Proofs.DeferredChecks
import QuadStore.Query.Engine
import QuadStore.Query.GroupPlan
import QuadStore.Query.Lookup
import QuadStore.Query.Modifiers
import QuadStore.Query.Pushdown
import QuadStore.Query.Run
import QuadStore.Query.SinglePlan
import QuadStore.Query.Solutions
import QuadStore.Regex
import QuadStore.Regex.ByteSet
import QuadStore.Regex.Lead
import QuadStore.Regex.Reader
import QuadStore.Sparql.Algebra
import QuadStore.Sparql.Document
import QuadStore.Sparql.Error
import QuadStore.Sparql.Group
import QuadStore.Sparql.Reader
import QuadStore.Sparql.Request
import QuadStore.Sparql.Session
import QuadStore.Sparql.Stack
import QuadStore.Sparql.Token
import QuadStore.Sparql.Triples
import QuadStore.Sql.Backend
import QuadStore.Sql.Fragment
import QuadStore.Sql.Inventory
import QuadStore.Sql.Limits
import QuadStore.Sql.Script
import QuadStore.Sql.Statement
import QuadStore.Sql.Table
import QuadStore.Store
import QuadStore.Store.Attributes
import QuadStore.Store.Endpoint
import QuadStore.Store.Payload
import QuadStore.Store.Stream
import QuadStore.Term
import QuadStore.Term.Key
import QuadStore.Text
import QuadStore.Text.Utf8
import QuadStore.Proofs.NumberOrder
import QuadStore.Proofs.SessionReset
import QuadStore.Proofs.FilterScope
import QuadStore.Proofs.Spelling
import QuadStore.Proofs.WrittenDocument
import QuadStore.Proofs.LoadedDocument
import QuadStore.Proofs.ClearTerms
import QuadStore.Proofs.WholeDoubles
import QuadStore.Proofs.WholeKeys
import QuadStore.Proofs.Chronology
import QuadStore.Proofs.RawAlgebra
import QuadStore.Proofs.NestedGraphs
import QuadStore.Proofs.RawConditions
import QuadStore.Proofs.RawFilters
import QuadStore.Proofs.RawPlans
import QuadStore.Proofs.KeyBounds
import QuadStore.Proofs.FilteredLookup
import QuadStore.Proofs.WantedPart
import QuadStore.Proofs.FilterMeaning
import QuadStore.Proofs.AnchoredSearch
import QuadStore.Proofs.AttributeLookups
import QuadStore.Proofs.RegexTokens
import QuadStore.Proofs.RegexLead
import QuadStore.Proofs.LikeText
import QuadStore.Proofs.TextTests
import QuadStore.Proofs.TypeTests
import QuadStore.Proofs.PlainOrder
import QuadStore.Proofs.LikeOperands
import QuadStore.Proofs.OperatorPairs
import QuadStore.Proofs.WholeDigits
import QuadStore.Proofs.NumberEquality
import QuadStore.Proofs.Statistics
import QuadStore.Proofs.StreamPulls
import QuadStore.Proofs.SessionMemory
import QuadStore.Proofs.SolutionOrder
import QuadStore.Proofs.ExpressionText
import QuadStore.Proofs.PrintedExpression
import QuadStore.Proofs.WrittenTree
import QuadStore.Proofs.TreeRules
import QuadStore.Proofs.TreeReading
import QuadStore.Proofs.NamesApart
import QuadStore.Proofs.Utf8Text
import QuadStore.Proofs.ValidTokens
import QuadStore.Proofs.TreeTerms
import QuadStore.Proofs.ValidTerms
import QuadStore.Proofs.VisibleNames
import QuadStore.Proofs.PlanNames
import QuadStore.Proofs.StarTree
import QuadStore.Proofs.SelectedNames
import QuadStore.Proofs.Rounds
import QuadStore.Proofs.ReaderPace
import QuadStore.Proofs.PacedReaders
import QuadStore.Proofs.TokenScan
import QuadStore.Proofs.StackUse
import QuadStore.Proofs.ReadingEnds
import QuadStore.Proofs.FormOfText
import QuadStore.Proofs.SeparatorSwap

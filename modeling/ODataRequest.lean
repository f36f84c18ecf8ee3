import ODataRequest.Config.Reader
import ODataRequest.ContextUrl
import ODataRequest.Csdl.Reader
import ODataRequest.Directory.Schemas
import ODataRequest.Request.Validation
import ODataRequest.ServiceRoot
import ODataRequest.Proofs.Directory.Consistent
import ODataRequest.Proofs.Directory.Settled
import ODataRequest.Proofs.Directory.Names
import ODataRequest.Proofs.Directory.Inheritance
import ODataRequest.Proofs.Directory.Types
import ODataRequest.Proofs.Directory.Elements
import ODataRequest.Proofs.Directory.Overloads
import ODataRequest.Proofs.Directory.Schemas
import ODataRequest.Proofs.CallHistory
import ODataRequest.Proofs.Resolution
import ODataRequest.Proofs.Token.Reader
import ODataRequest.Proofs.Token.Lexeme
import ODataRequest.Proofs.Token.Spelling
import ODataRequest.Proofs.Text.Digits
import ODataRequest.Proofs.Text.Cut
import ODataRequest.Proofs.Text.Percent
import ODataRequest.Proofs.Calendar.Date
import ODataRequest.Proofs.Calendar.TimeOfDay
import ODataRequest.Proofs.Calendar.Duration
import ODataRequest.Proofs.Primitive.Literal
import ODataRequest.Proofs.Token.Literal
import ODataRequest.Proofs.Directory.Answers
import ODataRequest.Proofs.Path.Key
import ODataRequest.Proofs.Link
import ODataRequest.Proofs.Path.Shape
import ODataRequest.Proofs.Path.Segments
import ODataRequest.Proofs.Path.Resolved
import ODataRequest.Proofs.Expression.OperatorTree
import ODataRequest.Proofs.Expression.Formed
import ODataRequest.Proofs.Expression.Rules
import ODataRequest.Proofs.Expression.ReadBack
import ODataRequest.Proofs.Expression.Passes
import ODataRequest.Proofs.Expression.Accepted
import ODataRequest.Proofs.Expression.RoundTrip
import ODataRequest.Proofs.Lookup
import ODataRequest.Proofs.Query.Parts
import ODataRequest.Proofs.Request.Reader
import ODataRequest.Proofs.Request.Permitted
import ODataRequest.Proofs.Request.OptionOrder
import ODataRequest.Proofs.Directory.Steady
import ODataRequest.Proofs.Path.KeyOrder
import ODataRequest.Proofs.Text.TopLevel
import ODataRequest.Proofs.Token.Name
import ODataRequest.Proofs.Token.Portable
import ODataRequest.Proofs.Path.Group
import ODataRequest.Proofs.Path.KeyText
import ODataRequest.Proofs.Path.ArgumentText
import ODataRequest.Proofs.Directory.ActualNames
import ODataRequest.Proofs.Path.DeclaredKeys
import ODataRequest.Proofs.Path.Keyed
import ODataRequest.Proofs.Path.SegmentText
import ODataRequest.Proofs.Path.Printed
import ODataRequest.Proofs.Search.Grammar
import ODataRequest.Proofs.Search.Reader
import ODataRequest.Proofs.Search.RoundTrip
import ODataRequest.Proofs.Expression.MemberPath
import ODataRequest.Proofs.Expression.Induction
import ODataRequest.Proofs.Expression.WellTyped
import ODataRequest.Proofs.Expression.Variables
import ODataRequest.Proofs.Query.Expansion
import ODataRequest.Proofs.Request.Expressions
import ODataRequest.Proofs.Request.WellTyped
import ODataRequest.Proofs.Text.Enclosed
import ODataRequest.Proofs.Token.Balanced
import ODataRequest.Proofs.Expression.Balanced
import ODataRequest.Proofs.Query.OptionText
import ODataRequest.Proofs.Outcome
import ODataRequest.Proofs.Query.Nested
import ODataRequest.Proofs.Request.Variables
import ODataRequest.Proofs.Directory.BaseChains
import ODataRequest.Proofs.Directory.BaseTypes
import ODataRequest.Proofs.Directory.Lineage
import ODataRequest.Proofs.Directory.NearestOverload
import ODataRequest.Proofs.Directory.SameResult
import ODataRequest.Proofs.Directory.Unaliased
import ODataRequest.Proofs.Directory.UnaliasedTypes
import ODataRequest.Proofs.Directory.AliasElimination
import ODataRequest.Proofs.Directory.Subtypes
import ODataRequest.Proofs.Token.Extends
import ODataRequest.Proofs.Request.Limits
import ODataRequest.Proofs.Request.Accounting
import ODataRequest.Proofs.Text.Recoded
import ODataRequest.Proofs.Request.Recoded
import ODataRequest.Proofs.Path.PropertyPath
import ODataRequest.Proofs.Query.ExpandTree
import ODataRequest.Proofs.Expression.MemberShape
import ODataRequest.Proofs.Request.ExpandTree
import ODataRequest.Proofs.Request.MemberPaths
import ODataRequest.Proofs.Request.Operands
import ODataRequest.Proofs.Expression.MemberCasts
import ODataRequest.Proofs.Expression.MemberText
import ODataRequest.Proofs.Expression.OuterPaths
import ODataRequest.Proofs.Request.MemberTexts
import ODataRequest.Proofs.Query.SearchInExpand
import ODataRequest.Proofs.Query.SelectText
import ODataRequest.Proofs.Request.SelectTexts
import ODataRequest.Proofs.Path.CallForm
import ODataRequest.Proofs.Path.CallTokens
import ODataRequest.Proofs.Request.FunctionImports
import ODataRequest.Proofs.Directory.Blind
import ODataRequest.Proofs.Directory.Alike
import ODataRequest.Proofs.Path.ContainerFree
import ODataRequest.Proofs.Path.CallOrder
import ODataRequest.Proofs.Path.CalledWith
import ODataRequest.Proofs.Request.CallOrder
import ODataRequest.Proofs.Request.FunctionCalls
import ODataRequest.Proofs.Primitive.Forms
import ODataRequest.Proofs.Primitive.Inference
import ODataRequest.Proofs.Token.Canonical
import ODataRequest.Proofs.Query.OptionNames
import ODataRequest.Proofs.Request.OptionNames
import ODataRequest.Proofs.Directory.Hiding
import ODataRequest.Proofs.Path.AnsweredTypes
import ODataRequest.Proofs.Path.SegmentEnd
import ODataRequest.Proofs.Path.Narrowed
import ODataRequest.Proofs.Request.Casts
import ODataRequest.Proofs.Calendar.DurationSpelling
import ODataRequest.Proofs.Grouping
import ODataRequest.Proofs.Directory.SchemaElements
import ODataRequest.Proofs.Directory.WholeSchemas
import ODataRequest.Proofs.Directory.AnnotationGroups
import ODataRequest.Proofs.Token.Recognized
import ODataRequest.Proofs.Expression.Nodes
import ODataRequest.Proofs.Expression.Literals
import ODataRequest.Proofs.Request.Literals
import ODataRequest.Proofs.Text.Splitting
import ODataRequest.Proofs.Token.Bytes
import ODataRequest.Proofs.Token.Identifiers
import ODataRequest.Proofs.Token.Tiling
import ODataRequest.Proofs.Token.ByteScan
import ODataRequest.Proofs.Token.ByteLexer
import ODataRequest.Proofs.Expression.Height
import ODataRequest.Proofs.Request.Heights
import ODataRequest.Proofs.Text.PercentBytes
import ODataRequest.Proofs.Numbers

import Stencil.AccessPath
import Stencil.Code.Append
import Stencil.Code.Literal
import Stencil.Code.Statement
import Stencil.Command.Arguments
import Stencil.Command.Files
import Stencil.Command.PathName
import Stencil.Command.Run
import Stencil.Compile
import Stencil.Decimal.Binary64
import Stencil.Decimal.Shortest
import Stencil.Error
import Stencil.Factor.Chunk
import Stencil.Factor.Repeats
import Stencil.Factor.Template
import Stencil.Json.Number
import Stencil.Json.Reader
import Stencil.Json.Value
import Stencil.Lower.Argument
import Stencil.Lower.Finish
import Stencil.Lower.Partial
import Stencil.Lower.State
import Stencil.Lower.Statement
import Stencil.Main
import Stencil.Name
import Stencil.Options.Basic
import Stencil.Options.Reader
import Stencil.Ordered
import Stencil.Proofs.Code.Escaping
import Stencil.Proofs.Code.Grouping
import Stencil.Proofs.Code.Lines
import Stencil.Proofs.Code.Parts
import Stencil.Proofs.Collisions
import Stencil.Proofs.Command.Run
import Stencil.Proofs.Counter
import Stencil.Proofs.Factor.Content
import Stencil.Proofs.Factor.Faithful
import Stencil.Proofs.Factor.Greedy
import Stencil.Proofs.Factor.Reading
import Stencil.Proofs.Factor.Repeats
import Stencil.Proofs.Factor.Search
import Stencil.Proofs.Factor.Sharing
import Stencil.Proofs.Factor.Skeleton
import Stencil.Proofs.Factor.Thrift
import Stencil.Proofs.Factor.Tour
import Stencil.Proofs.Lookup
import Stencil.Proofs.Lower.Arity
import Stencil.Proofs.Lower.Calls
import Stencil.Proofs.Lower.Declarable
import Stencil.Proofs.Lower.Derivation
import Stencil.Proofs.Lower.Evolution
import Stencil.Proofs.Lower.FixedBytes
import Stencil.Proofs.Lower.IndexUses
import Stencil.Proofs.Lower.Justified
import Stencil.Proofs.Lower.LoopVariables
import Stencil.Proofs.Lower.Members
import Stencil.Proofs.Lower.Operands
import Stencil.Proofs.Lower.Order
import Stencil.Proofs.Lower.Plans
import Stencil.Proofs.Lower.Positions
import Stencil.Proofs.Lower.Principal
import Stencil.Proofs.Lower.Registry
import Stencil.Proofs.Lower.Rounds
import Stencil.Proofs.Lower.SelfNested
import Stencil.Proofs.Lower.Skeleton
import Stencil.Proofs.Lower.Spending
import Stencil.Proofs.Lower.Standing
import Stencil.Proofs.Lower.Termination
import Stencil.Proofs.Lower.Typing
import Stencil.Proofs.Lower.TypingComplete
import Stencil.Proofs.Lower.TypingSound
import Stencil.Proofs.Lower.Uses
import Stencil.Proofs.Lower.Written
import Stencil.Proofs.Meaning.Agreement
import Stencil.Proofs.Meaning.Execute
import Stencil.Proofs.Meaning.Interpret
import Stencil.Proofs.Meaning.Literal
import Stencil.Proofs.Meaning.Paths
import Stencil.Proofs.Meaning.Preservation
import Stencil.Proofs.Meaning.Simulation
import Stencil.Proofs.Meaning.Value
import Stencil.Proofs.Meaning.View
import Stencil.Proofs.Name
import Stencil.Proofs.Results
import Stencil.Proofs.Source.Braces
import Stencil.Proofs.Source.Completeness
import Stencil.Proofs.Source.Declarations
import Stencil.Proofs.Source.Functions
import Stencil.Proofs.Source.Indentation
import Stencil.Proofs.Source.Layout
import Stencil.Proofs.Source.MemberOrder
import Stencil.Proofs.Source.Modules
import Stencil.Proofs.Source.Parameters
import Stencil.Proofs.Source.Recursion
import Stencil.Proofs.Source.Structs
import Stencil.Proofs.Template.Tables
import Stencil.Proofs.Template.WrittenPath
import Stencil.Proofs.Tidy
import Stencil.Proofs.Types.Acyclic
import Stencil.Proofs.Types.Bound
import Stencil.Proofs.Types.Built
import Stencil.Proofs.Types.Capacity
import Stencil.Proofs.Types.Classes
import Stencil.Proofs.Types.Compatible
import Stencil.Proofs.Types.Demands
import Stencil.Proofs.Types.Forest
import Stencil.Proofs.Types.Frame
import Stencil.Proofs.Types.Growth
import Stencil.Proofs.Types.Identifiers
import Stencil.Proofs.Types.Inference
import Stencil.Proofs.Types.Instances
import Stencil.Proofs.Types.Join
import Stencil.Proofs.Types.Members
import Stencil.Proofs.Types.Naming
import Stencil.Proofs.Types.Reordered
import Stencil.Proofs.Types.Requests
import Stencil.Proofs.Types.Sessions
import Stencil.Proofs.Types.Shape
import Stencil.Proofs.Types.Sizes
import Stencil.Proofs.Types.Spelling
import Stencil.Proofs.Types.Unification
import Stencil.Proofs.Types.Visits
import Stencil.Proofs.Types.Within
import Stencil.Scope
import Stencil.Source.File
import Stencil.Source.Indent
import Stencil.Template.Assembly
import Stencil.Template.Cursor
import Stencil.Template.Grammar
import Stencil.Template.Markup
import Stencil.Template.Path
import Stencil.Template.Reader
import Stencil.Template.Span
import Stencil.Template.Statement
import Stencil.Template.Tree
import Stencil.Text.Blank
import Stencil.Text.CodeRange
import Stencil.Text.Quoted
import Stencil.Text.Unsigned
import Stencil.Text.Uppercase
import Stencil.Text.Word
import Stencil.Types.Compare
import Stencil.Types.Display
import Stencil.Types.Kind
import Stencil.Types.Naming
import Stencil.Types.Narrow
import Stencil.Types.Size
import Stencil.Types.Store
import Stencil.Types.Unify

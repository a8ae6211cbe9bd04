import Conform.Text.Blank
import Conform.Text.Word
import Conform.Text.Comment
import Conform.Text.Parens
import Conform.Source.FilePath
import Conform.Source.FileTable
import Conform.Fault
import Conform.Expr.Operators
import Conform.Expr.Members
import Conform.Expr.Record
import Conform.Validator.Primitive
import Conform.Expr.Shape
import Conform.Declaration.Alias
import Conform.Declaration.Interface
import Conform.Declaration.Import
import Conform.Json.Basic
import Conform.Outcome
import Conform.Validator.Basic
import Conform.Validator.Validate
import Conform.Validator.Render
import Conform.Decimal.Shortest
import Conform.Json.Cursor
import Conform.Json.Reader
import Conform.Json.Writer
import Conform.Resolver.Basic
import Conform.Resolver.Resolve
import Conform.Text.Visible
import Conform.Settings
import Conform.Filter.Basic
import Conform.Filter.Token
import Conform.Filter.Reader
import Conform.Filter.Value
import Conform.Filter.Eval
import Conform.Filter.Prelude
import Conform.Json.Pointer
import Conform.Source.Disk
import Conform.Glob.Pattern
import Conform.Glob.Search
import Conform.Command.Arguments
import Conform.Command.Documents
import Conform.Command.Report
import Conform.Command.Run
import Conform.Main
import Conform.Proofs.Resolver.Run
import Conform.Proofs.Resolver.Sources
import Conform.Proofs.Resolver.Form
import Conform.Proofs.Resolver.Completed
import Conform.Proofs.Resolver.Edges
import Conform.Proofs.Resolver.Order
import Conform.Proofs.Resolver.RecursiveAlias
import Conform.Proofs.Resolver.Rendered
import Conform.Proofs.Resolver.Ending
import Conform.Proofs.Resolver.Independence
import Conform.Proofs.Resolver.Operands
import Conform.Proofs.Resolver.Strictness
import Conform.Proofs.Resolver.Calls
import Conform.Proofs.Resolver.Alias
import Conform.Proofs.Validator.Truthful
import Conform.Proofs.Validator.Guarded
import Conform.Proofs.Validator.Twins
import Conform.Proofs.Validator.Intersection
import Conform.Proofs.Validator.Formula
import Conform.Proofs.Expr.Segments
import Conform.Proofs.Expr.Precedence
import Conform.Proofs.Resolver.Precedence
import Conform.Proofs.Text.Cleaned
import Conform.Proofs.Expr.Enclosed
import Conform.Proofs.Expr.Union
import Conform.Proofs.Expr.Literal
import Conform.Proofs.Expr.Members
import Conform.Proofs.Expr.Fields
import Conform.Proofs.Declaration.Header
import Conform.Proofs.Declaration.Sequence
import Conform.Proofs.Resolver.Described
import Conform.Proofs.Resolver.Spot
import Conform.Proofs.Resolver.Literal
import Conform.Proofs.Validator.Optional
import Conform.Proofs.Source.Lexical
import Conform.Proofs.Validator.Levels
import Conform.Proofs.Resolver.Undefined
import Conform.Proofs.Validator.Tolerance
import Conform.Proofs.Validator.Reordered
import Conform.Proofs.Resolver.Uniform
import Conform.Proofs.Expr.Joined
import Conform.Proofs.Declaration.Contained
import Conform.Proofs.Declaration.Imports
import Conform.Proofs.Command.Printed
import Conform.Proofs.Text.Stripped
import Conform.Proofs.Resolver.Stripped
import Conform.Proofs.Expr.Parenthesized
import Conform.Proofs.Resolver.Parenthesized
import Conform.Proofs.Declaration.Counters
import Conform.Proofs.Flattened
import Conform.Proofs.Resolver.Detached
import Conform.Proofs.Resolver.Histories

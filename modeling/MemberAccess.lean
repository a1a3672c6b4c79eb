import MemberAccess.Accessor.Basic
import MemberAccess.Accessor.Chain
import MemberAccess.Accessor.Compile
import MemberAccess.Accessor.Workspace
import MemberAccess.Binary64.Basic
import MemberAccess.Binary64.Digits
import MemberAccess.Binary64.Reading
import MemberAccess.Binary64.Shortest
import MemberAccess.Derive.Attribute
import MemberAccess.Derive.Code
import MemberAccess.Derive.Declaration
import MemberAccess.Derive.Error
import MemberAccess.Derive.Info
import MemberAccess.Derive.Item
import MemberAccess.Derive.Struct
import MemberAccess.Lambda.Expr
import MemberAccess.Lambda.Expr.OfTokens
import MemberAccess.Lambda.Expr.Render
import MemberAccess.Lambda.Literal
import MemberAccess.Lambda.OfText
import MemberAccess.Lambda.Parse
import MemberAccess.Lambda.Reader
import MemberAccess.Lambda.SyntaxError
import MemberAccess.Lambda.Token
import MemberAccess.Lambda.Token.Integer
import MemberAccess.Lambda.Token.Scan
import MemberAccess.Lambda.Watched
import MemberAccess.Manifest.Basic
import MemberAccess.Manifest.Cache
import MemberAccess.Manifest.CratePath
import MemberAccess.Manifest.Machine
import MemberAccess.Objects.Declaration
import MemberAccess.Objects.Describe
import MemberAccess.Objects.Obj
import MemberAccess.Objects.Ty
import MemberAccess.Path.InvalidPath
import MemberAccess.Path.Log
import MemberAccess.Path.Resolve
import MemberAccess.Path.Spec
import MemberAccess.Proofs.Accessor.Apart
import MemberAccess.Proofs.Accessor.Assigner
import MemberAccess.Proofs.Accessor.Borrow
import MemberAccess.Proofs.Accessor.Chains
import MemberAccess.Proofs.Accessor.Compilation
import MemberAccess.Proofs.Accessor.Composition
import MemberAccess.Proofs.Accessor.Failure
import MemberAccess.Proofs.Accessor.Focus
import MemberAccess.Proofs.Accessor.Lens
import MemberAccess.Proofs.Accessor.LookUp
import MemberAccess.Proofs.Accessor.Policy
import MemberAccess.Proofs.Accessor.Records
import MemberAccess.Proofs.Accessor.Refinement
import MemberAccess.Proofs.Accessor.Safety
import MemberAccess.Proofs.Accessor.Walk
import MemberAccess.Proofs.Accessor.Write
import MemberAccess.Proofs.Binary64.Layout
import MemberAccess.Proofs.Derive.Arrangement
import MemberAccess.Proofs.Derive.Attributes
import MemberAccess.Proofs.Derive.Evaluation
import MemberAccess.Proofs.Derive.FieldPaths
import MemberAccess.Proofs.Derive.Grammar
import MemberAccess.Proofs.Derive.Items
import MemberAccess.Proofs.Derive.Members
import MemberAccess.Proofs.Derive.Reachable
import MemberAccess.Proofs.Derive.Written
import MemberAccess.Proofs.Lambda.Bytes
import MemberAccess.Proofs.Lambda.Completeness
import MemberAccess.Proofs.Lambda.Ebnf
import MemberAccess.Proofs.Lambda.Grammar
import MemberAccess.Proofs.Lambda.IntegerConstants
import MemberAccess.Proofs.Lambda.Layout
import MemberAccess.Proofs.Lambda.Legible
import MemberAccess.Proofs.Lambda.Levels
import MemberAccess.Proofs.Lambda.Lexing
import MemberAccess.Proofs.Lambda.Lookahead
import MemberAccess.Proofs.Lambda.Parse
import MemberAccess.Proofs.Lambda.Printable
import MemberAccess.Proofs.Lambda.Prompt
import MemberAccess.Proofs.Lambda.PromptReaders
import MemberAccess.Proofs.Lambda.Published
import MemberAccess.Proofs.Lambda.Quotation
import MemberAccess.Proofs.Lambda.Reading
import MemberAccess.Proofs.Lambda.Rejection
import MemberAccess.Proofs.Lambda.Reprint
import MemberAccess.Proofs.Lambda.RoundTrip
import MemberAccess.Proofs.Lambda.Soundness
import MemberAccess.Proofs.Lambda.StringConstants
import MemberAccess.Proofs.Manifest.CratePath
import MemberAccess.Proofs.Manifest.Freshness
import MemberAccess.Proofs.Manifest.Relevance
import MemberAccess.Proofs.Manifest.Resolution
import MemberAccess.Proofs.Objects.Layout
import MemberAccess.Proofs.Objects.Registry
import MemberAccess.Proofs.Path.Outcome
import MemberAccess.Proofs.Path.Resolution
import MemberAccess.Proofs.Path.Spelling
import MemberAccess.Proofs.Path.Spine
import MemberAccess.Proofs.Path.Termination
import MemberAccess.Proofs.Registry.Crossing
import MemberAccess.Proofs.Registry.InfoCell
import MemberAccess.Proofs.Registry.Lawful
import MemberAccess.Proofs.Registry.Layout
import MemberAccess.Proofs.Source.Depth
import MemberAccess.Proofs.Source.Forward
import MemberAccess.Proofs.Source.Locality
import MemberAccess.Proofs.Source.Reading
import MemberAccess.Proofs.Source.StringLiteral
import MemberAccess.Proofs.Source.Words
import MemberAccess.Registry.Crossing
import MemberAccess.Registry.Handles
import MemberAccess.Registry.InfoCell
import MemberAccess.Registry.MemberTable
import MemberAccess.Registry.Summary
import MemberAccess.Registry.TypeInfo
import MemberAccess.Registry.Universe
import MemberAccess.Source.Expression
import MemberAccess.Source.Fault
import MemberAccess.Source.Path
import MemberAccess.Source.Reader
import MemberAccess.Source.Scan
import MemberAccess.Source.StringLiteral
import MemberAccess.Source.TokenTree
import MemberAccess.Source.Type
import MemberAccess.Text.Identifier
import MemberAccess.Text.Quoted
import MemberAccess.Text.Ranges
import MemberAccess.Text.Word

import Downlevel.Main
import Downlevel.Proofs.Grammar.Speculation
import Downlevel.Proofs.Grammar.Lossless
import Downlevel.Proofs.Grammar.Located
import Downlevel.Proofs.Grammar.Termination
import Downlevel.Proofs.Grammar.Discipline
import Downlevel.Proofs.Grammar.Contexts
import Downlevel.Proofs.Lower.StrayClass
import Downlevel.Proofs.Lower.Unchanged
import Downlevel.Proofs.Lower.Progress
import Downlevel.Proofs.Lower.Initializers
import Downlevel.Proofs.Grammar.Ahead.TypeRegion
import Downlevel.Proofs.Lower.Operand
import Downlevel.Proofs.Grammar.ModuleForm
import Downlevel.Proofs.Linkage.Bindings
import Downlevel.Proofs.Linkage.ExportForm
import Downlevel.Proofs.Linkage.Path
import Downlevel.Proofs.Lower.Load
import Downlevel.Proofs.Lower.Paths
import Downlevel.Proofs.Lower.Resolve
import Downlevel.Proofs.Lower.TypeExports
import Downlevel.Proofs.Lower.Loading
import Downlevel.Proofs.Lower.LoadOnce
import Downlevel.Proofs.Lower.Trace
import Downlevel.Proofs.Grammar.Invariant.Basic
import Downlevel.Proofs.Grammar.Invariant.Parts
import Downlevel.Proofs.Lexer.Kinds
import Downlevel.Proofs.Grammar.Invariant.Element
import Downlevel.Proofs.Grammar.Extensions
import Downlevel.Proofs.Markup.Tree
import Downlevel.Proofs.Token.Piece
import Downlevel.Proofs.Grammar.Yields
import Downlevel.Proofs.Markup.Pieces
import Downlevel.Proofs.Grammar.ElementTree
import Downlevel.Proofs.Lower.ElementTree
import Downlevel.Proofs.Grammar.TypeTokens
import Downlevel.Proofs.Grammar.Members
import Downlevel.Proofs.Lower.Passing
import Downlevel.Proofs.Lower.MemberScan
import Downlevel.Proofs.Lower.FieldRanges
import Downlevel.Proofs.Lower.Constructors
import Downlevel.Proofs.Lower.ComputedNames
import Downlevel.Proofs.Lower.ParameterProperties
import Downlevel.Proofs.Markup.References
import Downlevel.Proofs.Edit.Output
import Downlevel.Proofs.Lower.LineNumbers
import Downlevel.Proofs.Lower.GeneratedNames
import Downlevel.Proofs.Lower.DecodedNames
import Downlevel.Proofs.Lower.ImportedCalls
import Downlevel.Proofs.Lower.ErasedImports
import Downlevel.Proofs.Lower.MemberAccess

import InfixFormula.Descent
import InfixFormula.Document.Formula
import InfixFormula.Session
import InfixFormula.Text.Quoted
import InfixFormula.Tree.PostOrder
import InfixFormula.Proofs.Brackets
import InfixFormula.Proofs.StackReading
import InfixFormula.Proofs.Leaves
import InfixFormula.Proofs.Phrase
import InfixFormula.Proofs.Precedence
import InfixFormula.Proofs.Grammar
import InfixFormula.Proofs.InOrder
import InfixFormula.Proofs.LiteralValue
import InfixFormula.Proofs.SourceText
import InfixFormula.Proofs.Capitals
import InfixFormula.Proofs.Replacing
import InfixFormula.Proofs.Bindings
import InfixFormula.Proofs.Lookup
import InfixFormula.Proofs.Names
import InfixFormula.Proofs.HeldValues
import InfixFormula.Proofs.Spelling
import InfixFormula.Proofs.Renaming
import InfixFormula.Proofs.Mentions
import InfixFormula.Proofs.Tokens
import InfixFormula.Proofs.Calls
import InfixFormula.Proofs.Depth
import InfixFormula.Proofs.Partners
import InfixFormula.Proofs.FaultTexts
import InfixFormula.Proofs.Faults
import InfixFormula.Proofs.FaultPositions
import InfixFormula.Proofs.StrictValue
import InfixFormula.Proofs.Composition
import InfixFormula.Proofs.Effect
import InfixFormula.Proofs.BracketStyle
import InfixFormula.Proofs.Closed
import InfixFormula.Proofs.TokenLevels
import InfixFormula.Proofs.Limit
import InfixFormula.Proofs.EntryOrder
import InfixFormula.Proofs.Outlines
import InfixFormula.Proofs.Restored
import InfixFormula.Proofs.LoneName
import InfixFormula.Proofs.Growth
import InfixFormula.Proofs.DepthGuard
import InfixFormula.Proofs.Obstacles
import InfixFormula.Proofs.RunningTotals
import InfixFormula.Proofs.Enclosed
import InfixFormula.Proofs.Spacing
import InfixFormula.Proofs.SameTrees
import InfixFormula.Proofs.Rounding
import InfixFormula.Proofs.NearestDouble
import InfixFormula.Proofs.FloatText
import InfixFormula.Proofs.PrintedTree
import InfixFormula.Proofs.PartnerTable
import InfixFormula.Proofs.Groupings
import InfixFormula.Proofs.Offsets
import InfixFormula.Proofs.Progress
import InfixFormula.Proofs.Relocation
import InfixFormula.Proofs.Bytewise
import InfixFormula.Proofs.Unbroken

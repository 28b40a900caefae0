import ExprOpt.Node
import ExprOpt.Grammar.Report
import ExprOpt.Error
import ExprOpt.Store
import ExprOpt.Tree
import ExprOpt.Grammar.Rule
import ExprOpt.Grammar.Expression
import ExprOpt.Grammar.Parsing
import ExprOpt.Sweep
import ExprOpt.Folding
import ExprOpt.Peephole
import ExprOpt.Duplicate
import ExprOpt.Hoisting
import ExprOpt.Outline
import ExprOpt.Picture
import ExprOpt.Event
import ExprOpt.Compilation
import ExprOpt.Session
import ExprOpt.Text.Printable
import ExprOpt.Text.Quoted
import ExprOpt.CommandLine
import ExprOpt.Main
import ExprOpt.Proofs.Building
import ExprOpt.Proofs.Sweeping.Confinement
import ExprOpt.Proofs.Sweeping.Trees
import ExprOpt.Proofs.Evaluation
import ExprOpt.Proofs.FoldedTree
import ExprOpt.Proofs.SimplifiedTree
import ExprOpt.Proofs.Passes
import ExprOpt.Proofs.Grammar.Phrase
import ExprOpt.Proofs.Grammar.Soundness
import ExprOpt.Proofs.Grammar.Completeness
import ExprOpt.Proofs.Grammar.Acceptance
import ExprOpt.Proofs.HoistedTree
import ExprOpt.Proofs.CompiledMeaning
import ExprOpt.Proofs.Appending
import ExprOpt.Proofs.Grammar.Composition
import ExprOpt.Proofs.Cells
import ExprOpt.Proofs.Grammar.Planting
import ExprOpt.Proofs.Grammar.Outcomes
import ExprOpt.Proofs.Queries
import ExprOpt.Proofs.CompiledRoom
import ExprOpt.Proofs.Sweeping.Form
import ExprOpt.Proofs.HoistedNodes
import ExprOpt.Proofs.OrderlySessions
import ExprOpt.Proofs.Positions
import ExprOpt.Proofs.Repeats
import ExprOpt.Proofs.Substitution
import ExprOpt.Proofs.Sweeping.Cost
import ExprOpt.Proofs.Sweeping.Sharing
import ExprOpt.Proofs.CompiledCost
import ExprOpt.Proofs.CompiledRepeats
import ExprOpt.Proofs.Grammar.Scan
import ExprOpt.Proofs.Grammar.Pace
import ExprOpt.Proofs.Grammar.FirstError
import ExprOpt.Proofs.Sweeping.Rest
import ExprOpt.Proofs.NormalForms
import ExprOpt.Proofs.HoistedCost
import ExprOpt.Proofs.SmallerTrees
import ExprOpt.Proofs.Outlines
import ExprOpt.Proofs.RepeatedHoisting
import ExprOpt.Proofs.Grammar.Layout
import ExprOpt.Proofs.Picture.Drawing
import ExprOpt.Proofs.Picture.Offsets
import ExprOpt.Proofs.Likeness
import ExprOpt.Proofs.Grammar.Watching
import ExprOpt.Proofs.Grammar.Rereading

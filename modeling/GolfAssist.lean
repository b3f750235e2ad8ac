import GolfAssist.Document
import GolfAssist.Editor.Declaration
import GolfAssist.Editor.View
import GolfAssist.Fold
import GolfAssist.Main
import GolfAssist.Tree.Dump
import GolfAssist.Proofs.Reader.Rules
import GolfAssist.Proofs.Token.Place
import GolfAssist.Proofs.Tree.Preorder
import GolfAssist.Proofs.Tree.Entries
import GolfAssist.Proofs.Reader.Draft
import GolfAssist.Proofs.Lossless
import GolfAssist.Proofs.Layout
import GolfAssist.Proofs.Recovery
import GolfAssist.Proofs.Grammar
import GolfAssist.Proofs.Reader.Outline
import GolfAssist.Proofs.Grammar.Demand
import GolfAssist.Proofs.Acceptance
import GolfAssist.Proofs.Token.Cover
import GolfAssist.Proofs.Token.Munch
import GolfAssist.Proofs.Leaves
import GolfAssist.Proofs.Reader.Alike
import GolfAssist.Proofs.Completion.Reference
import GolfAssist.Proofs.Completion.Variables
import GolfAssist.Proofs.Completion.Accept
import GolfAssist.Proofs.Tree.Building
import GolfAssist.Proofs.Spacing
import GolfAssist.Proofs.Reader.Behind
import GolfAssist.Proofs.Token.Break
import GolfAssist.Proofs.Composition
import GolfAssist.Proofs.Editor.Completion
import GolfAssist.Proofs.Diagnostics
import GolfAssist.Proofs.Editor.Ranges
import GolfAssist.Proofs.Tree.Shape
import GolfAssist.Proofs.Shapes
import GolfAssist.Proofs.Token.Rule
import GolfAssist.Proofs.Rendering
import GolfAssist.Proofs.Tree.Listing
import GolfAssist.Proofs.Token.Reach
import GolfAssist.Proofs.Tree.Innermost
import GolfAssist.Proofs.Editor.Offsets
import GolfAssist.Proofs.Unclosed
import GolfAssist.Proofs.Completion.Lookbehind
import GolfAssist.Proofs.Folding
import GolfAssist.Proofs.Text.Encoding
import GolfAssist.Proofs.Text.Positions
import GolfAssist.Proofs.Annotations
import GolfAssist.Proofs.Completion.Settings
import GolfAssist.Proofs.Report
import GolfAssist.Proofs.Reader.Descent
import GolfAssist.Proofs.Reader.Agenda
import GolfAssist.Proofs.Progress
import GolfAssist.Proofs.Completion.Triggers
import GolfAssist.Proofs.Token.Bytewise
import GolfAssist.Proofs.Tree.Arena
import GolfAssist.Proofs.Tree.Walks

import LayoutRule.Files.Directory
import LayoutRule.Main
import LayoutRule.Sample
import LayoutRule.Settings.Document
import LayoutRule.Source.Replay
import LayoutRule.Stream.Iteration
import LayoutRule.Proofs.Source.Drain
import LayoutRule.Proofs.Scanner.Lines
import LayoutRule.Proofs.Tracker.Effect
import LayoutRule.Proofs.Tracker.Equations
import LayoutRule.Proofs.Tracker.Run
import LayoutRule.Proofs.Tracker.Batch
import LayoutRule.Proofs.Tracker.Origin
import LayoutRule.Proofs.Tracker.Balance
import LayoutRule.Proofs.Tracker.Agreement
import LayoutRule.Proofs.Tracker.Demand
import LayoutRule.Proofs.Tracker.History
import LayoutRule.Proofs.Tracker.Strict
import LayoutRule.Proofs.Lexing.Errors
import LayoutRule.Proofs.Tracker.Rows
import LayoutRule.Proofs.Tracker.Columns
import LayoutRule.Proofs.Tracker.Moments
import LayoutRule.Proofs.Tree.Walk
import LayoutRule.Proofs.Tree.Marks
import LayoutRule.Proofs.Tree.Acceptance
import LayoutRule.Proofs.Tree.Offside
import LayoutRule.Proofs.Tree.Depth
import LayoutRule.Proofs.Tree.Grammar
import LayoutRule.Proofs.Tree.Recognition
import LayoutRule.Proofs.Tree.Refusal
import LayoutRule.Proofs.Scanner.Longest
import LayoutRule.Proofs.Scanner.Account
import LayoutRule.Proofs.Tracker.Failures
import LayoutRule.Proofs.Source.Horizon
import LayoutRule.Proofs.Stream.Cursor
import LayoutRule.Proofs.Tracker.Relabelling
import LayoutRule.Proofs.Scanner.WholeLines
import LayoutRule.Proofs.Tree.Kinds
import LayoutRule.Proofs.Lexing.BlankLines
import LayoutRule.Proofs.Tracker.Rounds
import LayoutRule.Proofs.Tracker.Stack
import LayoutRule.Proofs.Tracker.Laziness
import LayoutRule.Proofs.Tracker.Refusals
import LayoutRule.Proofs.Tree.Bodies
import LayoutRule.Proofs.Scanner.Samples
import LayoutRule.Proofs.Tree.Shapes
import LayoutRule.Proofs.Tree.Layout
import LayoutRule.Proofs.Tracker.Ending
import LayoutRule.Proofs.Scanner.Joined
import LayoutRule.Proofs.Scanner.LineEndings
import LayoutRule.Proofs.Lexing.LineEndings
import LayoutRule.Proofs.Tree.View
import LayoutRule.Proofs.Format.Dump
import LayoutRule.Proofs.Format.Document
import LayoutRule.Proofs.Tree.Labels
import LayoutRule.Proofs.Lexing.Trace
import LayoutRule.Proofs.Stream.Draining
import LayoutRule.Proofs.Lexing.AfterEnd
import LayoutRule.Proofs.Settings.Override

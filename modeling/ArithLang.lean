import ArithLang.CommandLine.Directory
import ArithLang.Expression
import ArithLang.Grammar.Expression
import ArithLang.Grammar.Prediction
import ArithLang.Lexer.Stream
import ArithLang.Main
import ArithLang.Proofs.Lookahead
import ArithLang.Proofs.Queue
import ArithLang.Proofs.Phrase
import ArithLang.Proofs.Parser
import ArithLang.Proofs.Grammar.Derivation
import ArithLang.Proofs.Grammar.Expression
import ArithLang.Proofs.Grammar.Table
import ArithLang.Proofs.Grammar.Analysis
import ArithLang.Proofs.Grammar.Prediction
import ArithLang.Proofs.Grammar.Ambiguity
import ArithLang.Proofs.Grammar.Totality
import ArithLang.Proofs.Grammar.Conflict
import ArithLang.Proofs.Grammar.Building
import ArithLang.Proofs.Grammar.Exactness
import ArithLang.Proofs.Grammar.LeftRecursion
import ArithLang.Proofs.Grammar.Termination
import ArithLang.Proofs.Power
import ArithLang.Proofs.Evaluation
import ArithLang.Proofs.Lexer.Stream
import ArithLang.Proofs.Scanner
import ArithLang.Proofs.Expression
import ArithLang.Proofs.Rejection
import ArithLang.Proofs.CommandLine.Run
import ArithLang.Proofs.Lexer.Interleaving
import ArithLang.Proofs.Lexer.Cutting
import ArithLang.Proofs.Segmentation
import ArithLang.Proofs.Agreement
import ArithLang.Proofs.Boundary
import ArithLang.Proofs.Composition
import ArithLang.Proofs.Acceptance
import ArithLang.Proofs.LongestPhrase
import ArithLang.Proofs.Parentheses
import ArithLang.Proofs.Translation.Arithmetic
import ArithLang.Proofs.Translation.FixedPoint
import ArithLang.Proofs.DirectReading
import ArithLang.Proofs.Tree.Inorder
import ArithLang.Proofs.Tree.Dump
import ArithLang.Proofs.Translation.Conservation
import ArithLang.Proofs.SourceFailure
import ArithLang.Proofs.Demand
import ArithLang.Proofs.Rounding
import ArithLang.Proofs.Tree.Inspect
import ArithLang.Proofs.Lexer.Termination
import ArithLang.Proofs.CommandLine.Output

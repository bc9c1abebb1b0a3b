import Lisp.Environment
import Lisp.Interpreter
import Lisp.TokenCursor
import Lisp.Proofs.Leaves
import Lisp.Proofs.Printing
import Lisp.Proofs.Number.Exact
import Lisp.Proofs.Number.Nearest
import Lisp.Proofs.Number.Arithmetic
import Lisp.Proofs.RoundTrip
import Lisp.Proofs.Results
import Lisp.Proofs.Fuel
import Lisp.Proofs.Invariants
import Lisp.Proofs.Direct
import Lisp.Proofs.Refinement
import Lisp.Proofs.FrameEffects
import Lisp.Proofs.Sessions
import Lisp.Proofs.FrozenFrames
import Lisp.Proofs.ReadingInside
import Lisp.Proofs.WrappedText
import Lisp.Proofs.Calls
import Lisp.Proofs.LoadFile
import Lisp.Proofs.MalformedFiles
import Lisp.Proofs.AtomGrammar
import Lisp.Proofs.Spelling
import Lisp.Proofs.ReaderGrammar
import Lisp.Proofs.Continuation
import Lisp.Proofs.LexicalGrammar
import Lisp.Proofs.Pattern
import Lisp.Proofs.Scanning
import Lisp.Proofs.LiteralItems
import Lisp.Proofs.SpacedTokens
import Lisp.Proofs.CursorPositions
import Lisp.Proofs.Number.PrintedNumbers
import Lisp.Proofs.Lines
import Lisp.Proofs.PrintedLines
import Lisp.Proofs.OrdinaryValues
import Lisp.Proofs.Renaming
import Lisp.Proofs.OtherOperations
import Lisp.Proofs.WorldsAlike
import Lisp.Proofs.SideBySide
import Lisp.Proofs.EvaluationsAlike
import Lisp.Proofs.HostsAlike
import Lisp.Proofs.OrdinarySessions
import Lisp.Proofs.ReadableFiles
import Lisp.Proofs.DepthLimit
import Lisp.Proofs.FileNameFaults
import Lisp.Proofs.SessionFailures
import Lisp.Proofs.TailCalls
import Lisp.Proofs.SeveralInterpreters
import Lisp.Proofs.Comparisons
import Lisp.Proofs.Equality
import Lisp.Proofs.ClosureIdentities
import Lisp.Proofs.EqualTexts
import Lisp.Proofs.Chains
import Lisp.Proofs.Environments

import Lox.Number.Magnitude
import Lox.Number.Decimal
import Lox.Number.Text
import Lox.Token
import Lox.Token.Data
import Lox.Fault
import Lox.Region
import Lox.Scan
import Lox.Scan.Bytes
import Lox.Syntax
import Lox.Syntax.Written
import Lox.Syntax.Renumbered
import Lox.Grammar.Cursor
import Lox.Grammar.Expression
import Lox.Grammar.Statement
import Lox.Grammar.Program
import Lox.Grammar.Word
import Lox.Table
import Lox.Scoping
import Lox.Value
import Lox.Store
import Lox.Sink
import Lox.Machine
import Lox.Evaluation
import Lox.Session
import Lox.Text.Blank
import Lox.Text.Hidden
import Lox.Text.Quoted
import Lox.Text.Utf8
import Lox.Command.Invocation
import Lox.Command.Files
import Lox.Command.Log
import Lox.Command.Prompt
import Lox.Command.Outcome
import Lox.Main
import Lox.Proofs.Stateful
import Lox.Proofs.Stores
import Lox.Proofs.StaticScopes
import Lox.Proofs.Steps
import Lox.Proofs.ReadChunks
import Lox.Proofs.ScopeWalk
import Lox.Proofs.ScopeInvariant
import Lox.Proofs.ScopeSafety
import Lox.Proofs.SafeSteps
import Lox.Proofs.LikeStates
import Lox.Proofs.Blame
import Lox.Proofs.LikeOperations
import Lox.Proofs.LikeRuns
import Lox.Proofs.ScopeRecords
import Lox.Proofs.ChunkStages
import Lox.Proofs.SoundSessions
import Lox.Proofs.LikeMoved
import Lox.Proofs.ResolvedRuns
import Lox.Proofs.LikeFrames
import Lox.Proofs.LikeWalks
import Lox.Proofs.NewNames
import Lox.Proofs.MaximalMunch
import Lox.Proofs.StaticRules
import Lox.Proofs.RejectedPrograms
import Lox.Proofs.Derivations
import Lox.Proofs.SoundReading
import Lox.Proofs.CompleteReading
import Lox.Proofs.LocalNames
import Lox.Proofs.ReadMoved
import Lox.Proofs.SessionsBeside
import Lox.Proofs.RejectedChunks
import Lox.Proofs.JoinedTexts
import Lox.Proofs.ReadJoined
import Lox.Proofs.Lives
import Lox.Proofs.DistinctIds
import Lox.Proofs.JoinedWalks
import Lox.Proofs.JoinedChunks
import Lox.Proofs.SpacedTokens
import Lox.Proofs.Unwinding
import Lox.Proofs.Deeds
import Lox.Proofs.RunOrder
import Lox.Proofs.Effects
import Lox.Proofs.LifeOrder
import Lox.Proofs.Positions
import Lox.Proofs.Lineage
import Lox.Proofs.Origins
import Lox.Proofs.Receivers
import Lox.Proofs.Initializers
import Lox.Proofs.Uses
import Lox.Proofs.LexicalDistances
import Lox.Proofs.NumberTexts
import Lox.Proofs.ScannedTrees
import Lox.Proofs.Pieces
import Lox.Proofs.WrittenTrees
import Lox.Proofs.Binders
import Lox.Proofs.Activations
import Lox.Proofs.CallFrames
import Lox.Proofs.SuperCalls
import Lox.Proofs.NameAccess
import Lox.Proofs.ScopeNames
import Lox.Proofs.ActivationNames
import Lox.Proofs.ChainNames
import Lox.Proofs.SearchedNames
import Lox.Proofs.BalancedScopes
import Lox.Proofs.PredictiveReaders
import Lox.Proofs.PredictiveGrammar
import Lox.Proofs.PredictiveStatements
import Lox.Proofs.EarliestErrors
import Lox.Proofs.RecoveringReader
import Lox.Proofs.SeparateStatements
import Lox.Proofs.ItemLines
import Lox.Proofs.EncodedTexts
import Lox.Proofs.ByteScanning
import Lox.ForLoop
import Lox.Proofs.MoreFuel
import Lox.Proofs.Operations
import Lox.Proofs.AlignedTrees
import Lox.Proofs.AlignedStates
import Lox.Proofs.AlignedOperations
import Lox.Proofs.AlignedRuns
import Lox.Proofs.AlignedWalks
import Lox.Proofs.LoopRounds
import Lox.Proofs.LoopWalks
import Lox.Proofs.LoopScopes
import Lox.Proofs.ForLoops
import Lox.Proofs.ExitStatus
import Lox.Proofs.FullSinks
import Lox.Proofs.CutRuns
import Lox.Proofs.FailedNodes
import Lox.Proofs.Histories
import Lox.Proofs.PropertyLookups
import Lox.Proofs.Lookahead
import Lox.Proofs.EndOfTokens
import Lox.Proofs.ScopeForests
import Lox.Proofs.QuietExpressions
import Lox.Proofs.PrintedExpressions

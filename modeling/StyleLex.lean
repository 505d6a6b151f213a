import StyleLex.Text
import StyleLex.CharClass
import StyleLex.Quoted
import StyleLex.Checkpoint
import StyleLex.Cursor
import StyleLex.CursorOperation
import StyleLex.ByteCursor
import StyleLex.NumberUnit
import StyleLex.Kind
import StyleLex.Token
import StyleLex.Mode
import StyleLex.ModeStackOperation
import StyleLex.Config
import StyleLex.LexError
import StyleLex.Script
import StyleLex.RuleShape
import StyleLex.ByteRuleShape
import StyleLex.LiteralScripts
import StyleLex.ValueScripts
import StyleLex.SelectorScripts
import StyleLex.StatementScripts
import StyleLex.Machine
import StyleLex.MachineBudget
import StyleLex.BatchRun
import StyleLex.PullRun
import StyleLex.StreamRun
import StyleLex.Session
import StyleLex.Proofs.LongestRuns
import StyleLex.Proofs.LiteralForms
import StyleLex.Proofs.ValueForms
import StyleLex.Proofs.SelectorForms
import StyleLex.Proofs.StatementForms
import StyleLex.Proofs.KindClasses
import StyleLex.Proofs.OpenModes
import StyleLex.Proofs.TokenGrammar
import StyleLex.Proofs.SheetCompletion
import StyleLex.Proofs.ScriptConformance
import StyleLex.Proofs.RunSteps
import StyleLex.Proofs.GrammarSoundness
import StyleLex.Proofs.CursorPosition
import StyleLex.Proofs.Utf8Text
import StyleLex.Proofs.CursorSoundness
import StyleLex.Proofs.Layout
import StyleLex.Proofs.ScriptReading
import StyleLex.Proofs.TokenPlaces
import StyleLex.Proofs.DiscardedText
import StyleLex.Proofs.LosslessCoverage
import StyleLex.Proofs.ConsumerAgreement
import StyleLex.Proofs.FaultCauses
import StyleLex.Proofs.ErrorExactness
import StyleLex.Handoff
import StyleLex.Proofs.StopOffsets
import StyleLex.Proofs.StreamAnswers
import StyleLex.Proofs.HandoffAnswers
import StyleLex.Proofs.StreamCancellation
import StyleLex.ThreadedSession
import StyleLex.Proofs.KeptHandles
import StyleLex.Proofs.ThreadedRuns
import StyleLex.Proofs.SettledReplies
import StyleLex.Proofs.SessionIsolation
import StyleLex.Proofs.LocalScripts
import StyleLex.Proofs.DetachedCompounds
import StyleLex.Proofs.LocalStates
import StyleLex.Proofs.DeclarationShapes
import StyleLex.Proofs.ShapesInBytes
import StyleLex.Proofs.ShapeGrammar
import StyleLex.Proofs.ReachedMachines
import StyleLex.Proofs.DeclaredValues
import StyleLex.Proofs.EmbeddedMachines
import StyleLex.Proofs.ShiftedRuns
import StyleLex.Proofs.StatementSeams
import StyleLex.Proofs.StatementConcatenation
import StyleLex.Proofs.ScriptOutcomes
import StyleLex.Proofs.EmbeddedValues
import StyleLex.Proofs.EmbeddedSelectors
import StyleLex.Proofs.PrintedSheets
import StyleLex.Proofs.BlockValues
import StyleLex.Proofs.UnpartedHashes
import StyleLex.Proofs.LoosePlaces
import StyleLex.Proofs.SpacedText
import StyleLex.Proofs.SpacedScripts
import StyleLex.Proofs.SpacedStates
import StyleLex.Proofs.SpacedRuns
import StyleLex.Proofs.WrittenText
import StyleLex.Proofs.PlainRuns
import StyleLex.Proofs.WrittenSelectors
import StyleLex.Proofs.SelectorCompleteness
import StyleLex.Proofs.WrittenValues
import StyleLex.Proofs.ValueCompleteness
import StyleLex.Proofs.TokenTrails
import StyleLex.Proofs.TrailScripts
import StyleLex.Proofs.TrailRuns
import StyleLex.Proofs.CombinatorPlacement
import StyleLex.Proofs.ClosedInterpolations
import StyleLex.Proofs.InterruptedSelectors
import StyleLex.Proofs.CountedSteps
import StyleLex.Proofs.ScanProgress
import StyleLex.Proofs.ModeStackShapes
import StyleLex.Proofs.Reconfigured
import StyleLex.Proofs.LenientRuns
import StyleLex.Proofs.InterpolationBodies
import StyleLex.Proofs.SkippedBodies
import StyleLex.Proofs.TakenLexemes
import StyleLex.Proofs.ExactScans
import StyleLex.Proofs.PlaceBounds
import StyleLex.Proofs.UnreadHistories
import StyleLex.Proofs.StepHandovers
import StyleLex.Proofs.MinimalPulls
import StyleLex.Proofs.LexedScripts
import StyleLex.Proofs.NumberLiterals
import StyleLex.Proofs.TokenTexts

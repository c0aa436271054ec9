import StyleValue.Evaluate
import StyleValue.Expr.Dump
import StyleValue.Setup
import StyleValue.Proofs.PassEquations
import StyleValue.Proofs.StepEquations
import StyleValue.Proofs.StandardLibrary
import StyleValue.Proofs.DepthBounds
import StyleValue.Proofs.SpanMaps
import StyleValue.Proofs.Expansion
import StyleValue.Proofs.ExposedNodes
import StyleValue.Proofs.SubstitutionAgreement
import StyleValue.Proofs.StrictMathRewrite
import StyleValue.Proofs.ReferenceCycles
import StyleValue.Proofs.NestedCalls
import StyleValue.Proofs.StepValues
import StyleValue.Proofs.NormalForms
import StyleValue.Proofs.StrictPassthrough
import StyleValue.Proofs.FiniteQuotients
import StyleValue.Proofs.FiniteAnswers
import StyleValue.Proofs.FiniteValues
import StyleValue.Proofs.InfixGrouping
import StyleValue.Proofs.ArgumentEvaluation
import StyleValue.Proofs.RenderedText
import StyleValue.Proofs.CallByValue
import StyleValue.Proofs.OccurringNodes
import StyleValue.Proofs.StepFaults
import StyleValue.Proofs.SpanOrigins
import StyleValue.Proofs.ReachableBindings
import StyleValue.Proofs.SpanErasure
import StyleValue.Proofs.HostScripts
import StyleValue.Proofs.ScriptedFunctions
import StyleValue.Proofs.AskedEvaluations
import StyleValue.Proofs.PendingVariables
import StyleValue.Proofs.SimultaneousSubstitution
import StyleValue.Proofs.CommutingPasses
import StyleValue.Proofs.Compression
import StyleValue.Proofs.DeferredForm
import StyleValue.Proofs.ReplacedReferences
import StyleValue.Proofs.HexNotation
import StyleValue.Proofs.HexColors
import StyleValue.Proofs.DecimalNumerals
import StyleValue.Proofs.PrintedNumbers
import StyleValue.Proofs.FloatOrder
import StyleValue.Proofs.NumberChoice
import StyleValue.Proofs.ArgumentChecks
import StyleValue.Proofs.MatchedSteps
import StyleValue.Proofs.OutputBuffers
import StyleValue.Proofs.ScopeHistory
import StyleValue.Proofs.RegisteredNames
import StyleValue.Proofs.VisitedSlots
import StyleValue.Proofs.LeafPasses
import StyleValue.Proofs.CompressedText

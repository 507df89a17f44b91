import IpsecTransform.Main
import IpsecTransform.Number.Numeral
import IpsecTransform.Session
import IpsecTransform.Version
import IpsecTransform.Proofs.TextScalars
import IpsecTransform.Proofs.Utf8Strictness
import IpsecTransform.Proofs.Utf8Spelling
import IpsecTransform.Proofs.ByteStrings
import IpsecTransform.Proofs.NumberIntegers
import IpsecTransform.Proofs.NumberWords
import IpsecTransform.Proofs.RecordGrammar
import IpsecTransform.Proofs.RecordInverse
import IpsecTransform.Proofs.DescriptorCreation
import IpsecTransform.Proofs.RecordRelay
import IpsecTransform.Proofs.HexDigits
import IpsecTransform.Proofs.RecordDiscrimination
import IpsecTransform.Proofs.MemoryWindows
import IpsecTransform.Proofs.StepEffects
import IpsecTransform.Proofs.KeyOwnership
import IpsecTransform.Proofs.RecordSlices
import IpsecTransform.Proofs.StepOutcomes
import IpsecTransform.Proofs.RunPositions
import IpsecTransform.Proofs.DescriptorValidity
import IpsecTransform.Proofs.MemoryMirrors
import IpsecTransform.Proofs.SessionMirrors
import IpsecTransform.Proofs.StepLabels
import IpsecTransform.Proofs.ClientIsolation
import IpsecTransform.Proofs.KeyIndependence
import IpsecTransform.Proofs.DescriptorEquality
import IpsecTransform.Proofs.RecordStreams
import IpsecTransform.Proofs.HexGrammar
import IpsecTransform.Proofs.RecordTexts
import IpsecTransform.Proofs.WindowOrigins
import IpsecTransform.Proofs.WindowFamilies
import IpsecTransform.Proofs.QuietSteps
import IpsecTransform.Proofs.ValidationTable
import IpsecTransform.Proofs.RecordReadings
import IpsecTransform.Proofs.NumberTexts
import IpsecTransform.Proofs.DiagnosticTexts
import IpsecTransform.Proofs.DescriptorRebuilding
import IpsecTransform.Proofs.HexOutcomes
import IpsecTransform.Proofs.TextNormalization
import IpsecTransform.Proofs.SettingsDecision
import IpsecTransform.Proofs.ByteConcatenation
import IpsecTransform.Proofs.ByteComparison
import IpsecTransform.Proofs.ReportVerdicts

import SpeechFrame.History
import SpeechFrame.LoneChannel
import SpeechFrame.Proofs.Constants
import SpeechFrame.Proofs.ConversionAgreement
import SpeechFrame.Proofs.FailedFrame
import SpeechFrame.Proofs.FilterViews
import SpeechFrame.Proofs.FinerScale
import SpeechFrame.Proofs.FloatRoundTrip
import SpeechFrame.Proofs.FormatRounding
import SpeechFrame.Proofs.FrameCount
import SpeechFrame.Proofs.FrameLength
import SpeechFrame.Proofs.GainRollback
import SpeechFrame.Proofs.Integrity
import SpeechFrame.Proofs.LeftoverRecords
import SpeechFrame.Proofs.LiveExtents
import SpeechFrame.Proofs.LoneChannels
import SpeechFrame.Proofs.LowFreqWords
import SpeechFrame.Proofs.OperationFaults
import SpeechFrame.Proofs.Patterns
import SpeechFrame.Proofs.PredictorHalves
import SpeechFrame.Proofs.Protocol
import SpeechFrame.Proofs.Reconfiguration
import SpeechFrame.Proofs.RecordAccess
import SpeechFrame.Proofs.Requantize
import SpeechFrame.Proofs.RescaleTwice
import SpeechFrame.Proofs.Steps
import SpeechFrame.Proofs.SynthesisProjection
import SpeechFrame.Proofs.Validation
import SpeechFrame.Proofs.Visibility
import SpeechFrame.Record.Field
import SpeechFrame.Record.Subframe
import SpeechFrame.Record.Write
import SpeechFrame.Run
import SpeechFrame.Scale

import Fswtch.Lib.StepRun
import Fswtch.Lib.ByteReader
import Fswtch.Lib.Slices
import Fswtch.Seat.TtsWsCodec
import Fswtch.Seat.TtsWsFrame
import Fswtch.Seat.TtsWsRoundTrip
import Fswtch.Seat.TtsWsAccepted
import Fswtch.Seat.SpeechSegments
import Fswtch.Seat.TurnTaking
import Fswtch.Seat.Playback
import Fswtch.Lib.CharBytes
import Fswtch.Seat.SentenceSplit
import Fswtch.Seat.SentenceRule
import Fswtch.Seat.ReplyText
import Fswtch.Seat.TtsSession
import Fswtch.Seat.TurnCompletion
import Fswtch.Seat.LateAudio
import Fswtch.Seat.CallSystem
import Fswtch.Seat.CallSystemSteps
import Fswtch.Seat.BargeInOrder
import Fswtch.Seat.TtsRequests
import Fswtch.Seat.CallSystemSound
import Fswtch.Seat.TurnPending
import Fswtch.Seat.FlagsSettle
import Fswtch.Seat.CancelScope
import Fswtch.Seat.CallRegistry
import Fswtch.Seat.OrphanActors
import Fswtch.Seat.RegistryAgreement
import Fswtch.Seat.History
import Fswtch.Seat.OneConnection
import Fswtch.Seat.SessionProtocol
import Fswtch.Seat.WireOrder
import Fswtch.Lib.ChunkedText
import Fswtch.Seat.DoubaoStream
import Fswtch.Seat.SpeakText
import Fswtch.Lib.JsonText
import Fswtch.Seat.SpeakDecoded
import Fswtch.Seat.SpokenOnce
import Fswtch.Seat.MimoTts
import Fswtch.Seat.MimoOrder
import Fswtch.Seat.MimoCancel
import Fswtch.Unicast.Media
import Fswtch.Unicast.Staging
import Fswtch.Unicast.Wire
import Fswtch.Brain.TtsFrames
import Fswtch.Seat.InitOnce
import Fswtch.Seat.LazyInit
import Fswtch.Seat.LosslessPlayback
import Fswtch.Lib.PythonText
import Fswtch.Lib.PercentText
import Fswtch.Lib.SocketReader
import Fswtch.Lib.Base64
import Fswtch.Brain.Esl
import Fswtch.Brain.EslFrames
import Fswtch.Brain.EventPlain
import Fswtch.Brain.CallHandler
import Fswtch.Brain.EslDelivery
import Fswtch.Brain.BargeIn
import Fswtch.Brain.CallsApart
import Fswtch.Brain.CallHistory
import Fswtch.Brain.HistoryRelease
import Fswtch.Seat.SentenceCuts
import Fswtch.Lib.Chunks
import Fswtch.Audio.SampleRate
import Fswtch.Audio.Resample
import Fswtch.Audio.Earshot
import Fswtch.Audio.Transitions
import Fswtch.Audio.CoarseSegments
import Fswtch.Audio.SnapSegments
import Fswtch.Seat.HistoryBound
import Fswtch.Brain.TtsAudioLoop
import Fswtch.Seat.MimoPcm
import Fswtch.Audio.Denoise
import Fswtch.Audio.GainControl
import Fswtch.Switch.Buffer
import Fswtch.Switch.Regex
import Fswtch.Lib.CursorReader
import Fswtch.Seat.Wav
import Fswtch.Seat.Durations
import Fswtch.Lib.SuffixFeed
import Fswtch.Seat.PartialText
import Fswtch.Apm.CaptureDelay
import Fswtch.Apm.TransferQueue
import Fswtch.Apm.Canceller
import Fswtch.Apm.SampleFlow
import Fswtch.Apm.CancellerRuns
import Fswtch.Apm.RenderDelay
import Fswtch.Apm.RenderAlignment
import Fswtch.Unicast.EndToEnd
import Fswtch.Unicast.CallLife
import Fswtch.Seat.TurnMarks
import Fswtch.Apm.BlockProcessor
import Fswtch.Apm.MatchedFilter
import Fswtch.Apm.LagSearch
import Fswtch.Apm.LagAggregator
import Fswtch.Apm.LagCounts
import Fswtch.Apm.DelayController
import Fswtch.Apm.DelayRuns
import Fswtch.Apm.CancellerBlocks
import Fswtch.Seat.BargeInStops

import Aloof.Framework.Decoder
import Aloof.Framework.Octets
import Aloof.Framework.Binary
import Aloof.Framework.Varint
import Aloof.Framework.Transition
import Aloof.Framework.Register
import Aloof.Framework.Stuffing
import Aloof.Framework.Receivers
import Aloof.Framework.Feedback
import Aloof.Framework.Serial
import Aloof.Framework.Tape
import Aloof.Framework.Condition
import Aloof.Framework.CriticalSection
import Aloof.Framework.Interrupted
import Aloof.Framework.Lines
import Aloof.Wire.Datum
import Aloof.Wire.Slip
import Aloof.C.Stream
import Aloof.C.StreamProof
import Aloof.C.StreamTape
import Aloof.C.StreamRules
import Aloof.C.Oer
import Aloof.C.OerProof
import Aloof.C.RoundTrip
import Aloof.C.SignedVarint
import Aloof.C.SignedRoundTrip
import Aloof.C.Data
import Aloof.C.DataProof
import Aloof.C.StringChunks
import Aloof.C.Server
import Aloof.C.ServerProof
import Aloof.C.ServerEffects
import Aloof.C.ServerRuns
import Aloof.C.ServerComplete
import Aloof.C.ServerRequest
import Aloof.C.TestServer
import Aloof.C.TestServerStore
import Aloof.C.TestServerRuns
import Aloof.C.Alert
import Aloof.C.Slip
import Aloof.C.SlipProof
import Aloof.C.SlipFrames
import Aloof.C.Crc
import Aloof.C.CrcProof
import Aloof.C.CrcDetection
import Aloof.C.Crc32
import Aloof.Ruby.Codec
import Aloof.Ruby.Message
import Aloof.Ruby.CodecProof
import Aloof.Ruby.SignedVarint
import Aloof.Ruby.MessageProof
import Aloof.Ruby.Dispatch
import Aloof.Ruby.Encode
import Aloof.Ruby.Text
import Aloof.Ruby.TerminalType
import Aloof.Ruby.ObjectTable
import Aloof.Ruby.CommandLine
import Aloof.Ruby.Listen
import Aloof.Ruby.Client
import Aloof.Ruby.ClientProof
import Aloof.Ruby.ClientInvariant
import Aloof.Ruby.ClientCustody
import Aloof.Ruby.ClientRuns
import Aloof.Ruby.ClientCalls
import Aloof.Ruby.ClientOrigin
import Aloof.Ruby.ClientAlerts
import Aloof.Ruby.Slip
import Aloof.Ruby.SlipProof
import Aloof.Ruby.SlipThreads
import Aloof.Ruby.Tcp
import Aloof.Ruby.TcpProof
import Aloof.Ruby.TimeoutQueue
import Aloof.Ruby.TimeoutQueueProof
import Aloof.Ruby.TimeoutQueueCustody
import Aloof.Ruby.TimeoutQueueWakeup
import Aloof.Agreement.Value
import Aloof.Agreement.Command
import Aloof.Agreement.Alert
import Aloof.Agreement.AlertRuns
import Aloof.Agreement.Echo
import Aloof.Agreement.Response
import Aloof.Agreement.Whole
import Aloof.Agreement.Verdict
import Aloof.Agreement.RoundTrip
import Aloof.Agreement.Hello
import Aloof.Agreement.Framing
import Aloof.Agreement.SlipThreads
import Aloof.Agreement.DataRuns
import Aloof.Agreement.NoHandler
import Aloof.Agreement.Varint
import Aloof.Agreement.SignedVarint
import Aloof.Agreement.Text
import Aloof.Agreement.Integer
import Aloof.Agreement.Connection
import Aloof.Agreement.Remote
import Aloof.Agreement.RemoteRuns
import Aloof.Agreement.CommandLine

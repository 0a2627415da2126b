import GreatEvent.Lib.Runs
import GreatEvent.Lib.Callback
import GreatEvent.Lib.Bytes
import GreatEvent.Lib.Framing
import GreatEvent.Lib.Traces
import GreatEvent.Lib.Transmission
import GreatEvent.Lib.Stamps
import GreatEvent.Net.NetProtocol
import GreatEvent.Net.LookupSafety
import GreatEvent.Server.EventCall
import GreatEvent.Server.Turns
import GreatEvent.Server.Reading
import GreatEvent.Server.PlaybackStream
import GreatEvent.Server.SessionStart
import GreatEvent.Server.SessionHandover
import GreatEvent.Server.Login
import GreatEvent.Server.Transfer
import GreatEvent.Server.WriteEvent
import GreatEvent.Server.SendErrors
import GreatEvent.Server.LoopSafety
import GreatEvent.Server.ConnectionLimit
import GreatEvent.Server.KeyFrames
import GreatEvent.Server.LoginMemory
import GreatEvent.Client.FrameReading
import GreatEvent.Client.ControlCodec
import GreatEvent.Client.SeekReply
import GreatEvent.Client.Resume
import GreatEvent.Client.TcpClient
import GreatEvent.Client.InnerLengths
import GreatEvent.Client.BlockQueue
import GreatEvent.Client.ExtraData
import GreatEvent.Nal.LeadingZeros
import GreatEvent.Udt.FrameSize
import GreatEvent.Video.Push
import GreatEvent.Video.SendAll
import GreatEvent.Net.MessageRoom
import GreatEvent.Server.LargeFiles
import GreatEvent.Server.SlowPeer
import GreatEvent.Server.TransferEnd
import GreatEvent.Server.HeartQueue
import GreatEvent.Server.SessionTable
import GreatEvent.Server.CircleQueue
import GreatEvent.Server.BufferTerminator
import GreatEvent.Net.EventRuns
import GreatEvent.Net.EventView
import GreatEvent.Udt.LossReport
import GreatEvent.Udt.Arrival

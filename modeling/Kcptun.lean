import Kcptun.Lib.BinaryHeap
import Kcptun.Lib.Fifo
import Kcptun.Lib.Interleaving
import Kcptun.Lib.Io
import Kcptun.Lib.Linked
import Kcptun.Lib.LittleEndian
import Kcptun.Lib.RoundRobin
import Kcptun.Lib.RowOps
import Kcptun.Lib.Run
import Kcptun.Lib.Serial
import Kcptun.Arq.AckPath
import Kcptun.Arq.BackPressure
import Kcptun.Arq.Delivery
import Kcptun.Arq.Flush
import Kcptun.Arq.Inbound
import Kcptun.Arq.Input
import Kcptun.Arq.Outbound
import Kcptun.Arq.PacketSize
import Kcptun.Arq.Grammar
import Kcptun.Arq.FlushCalls
import Kcptun.Arq.WireTrip
import Kcptun.Lib.FixedWidth
import Kcptun.Arq.RoundTripTime
import Kcptun.Arq.Advertise
import Kcptun.Arq.Packets
import Kcptun.Arq.Queues
import Kcptun.Arq.ReceiveWindow
import Kcptun.Arq.ScanBound
import Kcptun.Arq.ScanSkip
import Kcptun.Arq.ScanView
import Kcptun.Arq.Segment
import Kcptun.Arq.SegmentHeap
import Kcptun.Arq.SendWindow
import Kcptun.Arq.State
import Kcptun.Rs.Codec
import Kcptun.Rs.Erasure
import Kcptun.Rs.MatrixInRange
import Kcptun.Rs.CodecInRange
import Kcptun.Rs.Galois
import Kcptun.Rs.Matrix
import Kcptun.Fec.Alignment
import Kcptun.Fec.AutoTune
import Kcptun.Fec.Convergence
import Kcptun.Fec.Decoder
import Kcptun.Fec.DecoderInRange
import Kcptun.Fec.Encoder
import Kcptun.Fec.EndToEnd
import Kcptun.Fec.Gosort
import Kcptun.Fec.GosortTotal
import Kcptun.Fec.HostileInput
import Kcptun.Fec.PeriodFound
import Kcptun.Fec.PeriodSound
import Kcptun.Fec.Recovery
import Kcptun.Fec.Retune
import Kcptun.Fec.ShardSets
import Kcptun.Fec.Stream
import Kcptun.Session.Close
import Kcptun.Session.Crypt
import Kcptun.Session.Endpoint
import Kcptun.Session.Reader
import Kcptun.Session.RoundTrip
import Kcptun.Session.SizeBound
import Kcptun.Smux.Bucket
import Kcptun.Smux.Closing
import Kcptun.Smux.Config
import Kcptun.Smux.EndOfStream
import Kcptun.Smux.Opening
import Kcptun.Smux.Frames
import Kcptun.Smux.RecvLoop
import Kcptun.Smux.Sending
import Kcptun.Smux.Multiplex
import Kcptun.Smux.StreamDelivery
import Kcptun.Smux.OverKcp
import Kcptun.Session.Wakeups
import Kcptun.Smux.RrList
import Kcptun.Smux.ShaperHeap
import Kcptun.Smux.ShaperOrder
import Kcptun.Smux.ShaperQueue
import Kcptun.Smux.ShaperTurns
import Kcptun.Smux.StreamBuf
import Kcptun.Smux.Window
import Kcptun.Lib.StreamCipher
import Kcptun.Qpp.Stream
import Kcptun.Lib.Splice
import Kcptun.Lib.Tally
import Kcptun.Lib.Varint
import Kcptun.Rs.SimdExact
import Kcptun.Session.Listener
import Kcptun.Smux.Teardown
import Kcptun.Snappy.RoundTrip
import Kcptun.Session.WriteExact
import Kcptun.Session.ReadExact
import Kcptun.Tcpraw.Rules
import Kcptun.Tcpraw.Moves
import Kcptun.Tcpraw.Balance
import Kcptun.Tcpraw.Checksum
import Kcptun.Tcpraw.TcpSegment
import Kcptun.Tcpraw.Flow
import Kcptun.Tcpraw.Reset
import Kcptun.Pipe.CopyExact
import Kcptun.Pipe.StallRule
import Kcptun.Crypt.Cfb
import Kcptun.Arq.RingRuns
import Kcptun.Fec.GosortSorted
import Kcptun.Smux.WriteWindow
import Kcptun.Smux.UpdateOrder
import Kcptun.Smux.ReadFull
import Kcptun.Session.Demux
import Kcptun.Snappy.AnyStream
import Kcptun.Snappy.CutOff
import Kcptun.Qpp.Core
import Kcptun.Rs.Inversion
import Kcptun.Lib.BigEndian
import Kcptun.Crypt.Des
import Kcptun.Setup.Multiport
import Kcptun.Setup.HostPort
import Kcptun.Setup.GoJson
import Kcptun.Setup.GoQuote
import Kcptun.Setup.JsonParser
import Kcptun.Setup.JsonGrammar
import Kcptun.Setup.JsonExact
import Kcptun.Setup.JsonPrefix
import Kcptun.Setup.ConfigFile
import Kcptun.Setup.GoInt
import Kcptun.Setup.TimeLayout
import Kcptun.Setup.TimeFormat
import Kcptun.Session.Rate
import Kcptun.Fec.AnyOrder
import Kcptun.Session.Carriage
import Kcptun.Session.Party
import Kcptun.Session.Tunnel
import Kcptun.Arq.Acknowledged

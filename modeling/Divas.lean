import Divas.Lib.Bytes
import Divas.Capi.Types
import Divas.Capi.MsgQueue
import Divas.Capi.MsgQueueFifo
import Divas.Capi.Window
import Divas.Capi.WindowBound
import Divas.Capi.WindowBuffers
import Divas.Capi.Mixer
import Divas.Lib.Closure
import Divas.Capi.MixerAgree
import Divas.Capi.MixerClosure
import Divas.Capi.Request
import Divas.Capi.RequestOrder
import Divas.Capi.Ncci
import Divas.Capi.NcciMapping
import Divas.Capi.LiRing
import Divas.Capi.LiRingOrder
import Divas.Lib.Blocks
import Divas.Queue.MsgQueue
import Divas.Queue.MsgQueueFifo
import Divas.Queue.DataQueue
import Divas.Capi.Sendf
import Divas.Capi.SendfParse
import Divas.Capi.LiTable
import Divas.Capi.LiTableRegions
import Divas.Lib.Bits
import Divas.Lib.Crc
import Divas.Lib.Stuffing
import Divas.Tty.Hdlc
import Divas.Tty.HdlcTurn
import Divas.Tty.HdlcLoop
import Divas.Tty.HdlcFeed
import Divas.Tty.HdlcFrames
import Divas.Tty.HdlcReturned
import Divas.Capi.BProtocol
import Divas.Capi.Connect
import Divas.Capi.ConnectAtomic
import Divas.Capi.Incoming
import Divas.Capi.IncomingArbitration
import Divas.Cfg.Vle
import Divas.Cfg.Storage
import Divas.Cfg.Tree
import Divas.Cfg.Compare
import Divas.Cfg.CompareContent
import Divas.Cfg.Xdi
import Divas.Cfg.XdiContent
import Divas.Cfg.XdiImage
import Divas.Capi.Receive
import Divas.Capi.ReceiveBuffers
import Divas.Capi.Disconnect
import Divas.Capi.DisconnectAccount
import Divas.Capi.ApiSave
import Divas.Capi.AdjustB
import Divas.Capi.Established
import Divas.Capi.AdjustBRollback
import Divas.Lib.BitStream
import Divas.Tty.Piafs
import Divas.Tty.PiafsDetect
import Divas.Tty.V110
import Divas.Tty.V110Deframe
import Divas.Capi.NcciOverflow
import Divas.Capi.ParseBounds
import Divas.Idi.Ind
import Divas.Lib.Segments
import Divas.Idi.IndReassembly
import Divas.Idi.Adapter
import Divas.Idi.AdapterTables
import Divas.Idi.AdapterBlocks
import Divas.Idi.AdapterQueue
import Divas.Idi.AdapterChain
import Divas.Idi.AdapterAssign
import Divas.Um.Proxy
import Divas.Um.ProxyAccount
import Divas.Cfg.VleCoding
import Divas.Lib.BitTable
import Divas.Capi.GroupOptimization
import Divas.Capi.AddInfo
import Divas.Capi.FlowControl
import Divas.Capi.DtmfIndication
import Divas.Capi.ChiChannel
import Divas.Capi.InternalCommand
import Divas.Capi.SavedParms
import Divas.Capi.IndParse
import Divas.Capi.IndPasses
import Divas.Queue.TraceRing
import Divas.Lib.Cuts
import Divas.Capi.DtmfReceive
import Divas.Lib.Escapes
import Divas.Tty.Ppp
import Divas.Tty.PppFrames
import Divas.Queue.MsgQueueSpace
import Divas.Capi.TransmitBuffers
import Divas.Cfg.Response
import Divas.Cfg.SectionBounds
import Divas.Capi.SendMessage
import Divas.Capi.SendData
import Divas.Capi.Xconnect
import Divas.Lib.Batches
import Divas.Capi.XconnectTransfer
import Divas.Capi.MixerRequest
import Divas.Capi.MixerResult
import Divas.Capi.B23Octets
import Divas.Capi.B23Layer2
import Divas.Capi.B23Bounds
import Divas.Capi.GoertzelPower
import Divas.Um.CombiInd
import Divas.Um.ChainedInd
import Divas.Um.CreateEntity
import Divas.Um.UserQueue
import Divas.Queue.Segment
import Divas.Um.IndOrder
import Divas.Lib.Turns
import Divas.Tty.PiafsTurn
import Divas.Tty.PiafsChunks
import Divas.Lib.Checks
import Divas.Tty.PppTrack
import Divas.Tty.PppTrackSafe
import Divas.Tty.Btx
import Divas.Tty.BtxBlocks
import Divas.Tty.BtxTransfer
import Divas.Dsp.DspFile
import Divas.Dsp.Layout
import Divas.Dsp.Bounds
import Divas.Dsp.Passes
import Divas.Cfg.TextSyntax
import Divas.Lib.Markup
import Divas.Lib.Print
import Divas.Cfg.UpdateResult
import Divas.Cfg.UpdateResultPrint
import Divas.Cfg.UpdateResultDocument
import Divas.Cfg.ManagementIfc
import Divas.Cfg.ManagementRead
import Divas.Cfg.ManagementWrite

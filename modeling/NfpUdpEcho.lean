import NfpUdpEcho.Framework.System
import NfpUdpEcho.Framework.Circular
import NfpUdpEcho.Framework.ByteMem
import NfpUdpEcho.Errno
import NfpUdpEcho.Server.AreaTable
import NfpUdpEcho.Ring.RingBuffer
import NfpUdpEcho.Ring.Config
import NfpUdpEcho.Host.UdpWorker
import NfpUdpEcho.Pipeline.Model
import NfpUdpEcho.Pipeline.Safety
import NfpUdpEcho.MultiCtx.Engine
import NfpUdpEcho.MultiCtx.Publish
import NfpUdpEcho.MultiCtx.RxRing
import NfpUdpEcho.MultiCtx.TxRing
import NfpUdpEcho.Framework.Loop
import NfpUdpEcho.Framework.Tiling
import NfpUdpEcho.Server.Transfer
import NfpUdpEcho.Server.TransferSplit
import NfpUdpEcho.Transport.Area
import NfpUdpEcho.Server.BarLocks
import NfpUdpEcho.Server.BarWindows
import NfpUdpEcho.Framework.Duplex
import NfpUdpEcho.Framework.LittleEndian
import NfpUdpEcho.Framework.Service
import NfpUdpEcho.Shim.Wire
import NfpUdpEcho.Shim.Interpose
import NfpUdpEcho.Server.Commands
import NfpUdpEcho.Shim.Framing
import NfpUdpEcho.Framework.Compact
import NfpUdpEcho.Framework.WordMem
import NfpUdpEcho.MultiCtx.Startup
import NfpUdpEcho.Packet.DmaSplit
import NfpUdpEcho.Packet.EchoRewrite
import NfpUdpEcho.Server.ConnTable
import NfpUdpEcho.Shim.FdTable
import NfpUdpEcho.Framework.Exchange
import NfpUdpEcho.Server.ReadExact
import NfpUdpEcho.Server.WriteExact
import NfpUdpEcho.Shim.Refinement
import NfpUdpEcho.Framework.Socket
import NfpUdpEcho.Shim.Contain
import NfpUdpEcho.Framework.Stream
import NfpUdpEcho.Framework.Serve
import NfpUdpEcho.Server.SysCalls
import NfpUdpEcho.Server.TransferEnds
import NfpUdpEcho.Server.Requests
import NfpUdpEcho.Shim.SysCalls
import NfpUdpEcho.Shim.PeerGone
import NfpUdpEcho.Framework.Numerals
import NfpUdpEcho.Framework.Align
import NfpUdpEcho.Host.MemZone
import NfpUdpEcho.Host.ZoneReserve
import NfpUdpEcho.Host.ZoneFrames
import NfpUdpEcho.Host.ZoneSlots
import NfpUdpEcho.Ring.Queue
import NfpUdpEcho.Server.AreaSearch
import NfpUdpEcho.Host.PciAddr
import NfpUdpEcho.Host.PciNames
import NfpUdpEcho.Shim.Init
import NfpUdpEcho.Server.BarSetup
import NfpUdpEcho.Framework.Twin
import NfpUdpEcho.Server.TransferTwin
import NfpUdpEcho.Server.Leftover
import NfpUdpEcho.Framework.Access
import NfpUdpEcho.Framework.Lock
import NfpUdpEcho.Framework.Crc
import NfpUdpEcho.Framework.LinkedList
import NfpUdpEcho.Framework.BitField
import NfpUdpEcho.NfpCore.CppAccess
import NfpUdpEcho.NfpCore.Mutex
import NfpUdpEcho.NfpCore.MutexClient
import NfpUdpEcho.NfpCore.MutexSafety
import NfpUdpEcho.NfpCore.Crc
import NfpUdpEcho.NfpCore.MutexCache
import NfpUdpEcho.NfpCore.Resource
import NfpUdpEcho.NfpCore.ResourceClient
import NfpUdpEcho.NfpCore.ResourceSafety
import NfpUdpEcho.Transport.AddrFormat
import NfpUdpEcho.Framework.Strings
import NfpUdpEcho.NfpCore.Fields
import NfpUdpEcho.NfpCore.Hwinfo
import NfpUdpEcho.NfpCore.Nffw
import NfpUdpEcho.NfpCore.Nsp
import NfpUdpEcho.NfpCore.NspDevice
import NfpUdpEcho.NfpCore.NspRuns
import NfpUdpEcho.NfpCore.NspProtocol
import NfpUdpEcho.NfpCore.EthTable
import NfpUdpEcho.NfpCore.EthConfig
import NfpUdpEcho.NfpCore.Rtsym

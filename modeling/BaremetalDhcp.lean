import BaremetalDhcp.Lib.Machine
import BaremetalDhcp.Lib.Cyclic
import BaremetalDhcp.Lib.Window
import BaremetalDhcp.Lib.RingBuffer
import BaremetalDhcp.Message
import BaremetalDhcp.Options
import BaremetalDhcp.Wire
import BaremetalDhcp.Server
import BaremetalDhcp.HashTable
import BaremetalDhcp.HashTableRefinement
import BaremetalDhcp.LeaseTable
import BaremetalDhcp.ArrayPool
import BaremetalDhcp.HashPool
import BaremetalDhcp.LeaseOwnership
import BaremetalDhcp.LeaseEquivalence
import BaremetalDhcp.Bitmap
import BaremetalDhcp.BitmapVartime
import BaremetalDhcp.BitmapUnitime
import BaremetalDhcp.Nprc
import BaremetalDhcp.CircularQueue
import BaremetalDhcp.SpscQueue
import BaremetalDhcp.Clock
import BaremetalDhcp.HashPoolTables
import BaremetalDhcp.InitHistory
import BaremetalDhcp.UnitimeTimers
import BaremetalDhcp.VartimeLease
import BaremetalDhcp.Lib.LittleEndian
import BaremetalDhcp.Frame
import BaremetalDhcp.BenchFrame
import BaremetalDhcp.FrameExchange
import BaremetalDhcp.OptionBounds
import BaremetalDhcp.ArrayPoolSlots
import BaremetalDhcp.RoundRobin
import BaremetalDhcp.BitmapOffers
import BaremetalDhcp.NprcRefusal
import BaremetalDhcp.DeclaredPayload
import BaremetalDhcp.OptionLookup
import BaremetalDhcp.RuntDatagrams
import BaremetalDhcp.ReceivedBytes
import BaremetalDhcp.BenchMailbox
import BaremetalDhcp.FrameValidators
import BaremetalDhcp.ReplyOptions
import BaremetalDhcp.BitmapSlots
import BaremetalDhcp.Lib.Projection
import BaremetalDhcp.Lib.Termination
import BaremetalDhcp.ClientRun
import BaremetalDhcp.KernelRun
import BaremetalDhcp.Network
import BaremetalDhcp.Handshake
import BaremetalDhcp.ClientQueue
import BaremetalDhcp.XidTable
import BaremetalDhcp.Workers
import BaremetalDhcp.Benchmark
import BaremetalDhcp.WorkersEnd
import BaremetalDhcp.SyncClient
import BaremetalDhcp.PromptWorker
import BaremetalDhcp.EndToEnd
import BaremetalDhcp.AckedOnce
import BaremetalDhcp.NprcNetwork
import BaremetalDhcp.BitmapNetwork

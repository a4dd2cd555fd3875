import SistemasOperativos.Library.Machine
import SistemasOperativos.Library.Tally
import SistemasOperativos.Library.Clock
import SistemasOperativos.Library.ClockAccess
import SistemasOperativos.System.Places
import SistemasOperativos.Proofs.History
import SistemasOperativos.Proofs.Conservation
import SistemasOperativos.Proofs.Mutex
import SistemasOperativos.Proofs.CpuToken
import SistemasOperativos.Proofs.CpuContract
import SistemasOperativos.Proofs.Dispatch
import SistemasOperativos.Proofs.Interrupts
import SistemasOperativos.Proofs.Answerable
import SistemasOperativos.Proofs.ReadyOrder
import SistemasOperativos.Proofs.OnePlace
import SistemasOperativos.Proofs.Programs
import SistemasOperativos.Proofs.ExitRequests
import SistemasOperativos.Proofs.Permits
import SistemasOperativos.Proofs.WakeUps
import SistemasOperativos.Proofs.ExitHandshake
import SistemasOperativos.Memory.Handlers
import SistemasOperativos.Proofs.FrameOwnership
import SistemasOperativos.Proofs.PageContents
import SistemasOperativos.Proofs.ClockTurns
import SistemasOperativos.Proofs.Evictions
import SistemasOperativos.Proofs.SwapFiles
import SistemasOperativos.Proofs.Mapping
import SistemasOperativos.Proofs.TlbLookups
import SistemasOperativos.Proofs.TlbRecency
import SistemasOperativos.Proofs.TlbMutex
import SistemasOperativos.Proofs.Isolation
import SistemasOperativos.Proofs.MessageDecoding
import SistemasOperativos.Proofs.Suspensions
import SistemasOperativos.Proofs.TableHandshake
import SistemasOperativos.Proofs.RoundTrip
import SistemasOperativos.Proofs.Decoding
import SistemasOperativos.Proofs.Framing
import SistemasOperativos.Proofs.SharedSocket
import SistemasOperativos.Proofs.AddressSplit
import SistemasOperativos.Proofs.Alignment
import SistemasOperativos.Proofs.Attended
import SistemasOperativos.Proofs.FramesKept
import SistemasOperativos.Proofs.Admission
import SistemasOperativos.Proofs.FaultFrames
import SistemasOperativos.Proofs.SwapSlots
import SistemasOperativos.Proofs.SuspendReleases
import SistemasOperativos.Proofs.ClockHands
import SistemasOperativos.Proofs.ByteArray
import SistemasOperativos.Proofs.SwapRoundTrip
import SistemasOperativos.Proofs.CopyInstruction
import SistemasOperativos.Proofs.BufferGrowth
import SistemasOperativos.Proofs.ProgramText
import SistemasOperativos.Proofs.BurstSplit
import SistemasOperativos.Proofs.QueueCount
import SistemasOperativos.Proofs.PidsAssigned
import SistemasOperativos.Proofs.OwnTables
import SistemasOperativos.Proofs.DispatchTimes
import SistemasOperativos.Proofs.BurstEstimates
import SistemasOperativos.Proofs.MalformedLines
import SistemasOperativos.Proofs.RunLength
import SistemasOperativos.Proofs.Progress
import SistemasOperativos.Library.Diagram
import SistemasOperativos.System.Lifecycle
import SistemasOperativos.Proofs.Lifecycle
import SistemasOperativos.System.Requests
import SistemasOperativos.Proofs.Sessions
import SistemasOperativos.Proofs.Allotments
import SistemasOperativos.Proofs.Capacity
import SistemasOperativos.Proofs.Storage
import SistemasOperativos.System.Service
import SistemasOperativos.Proofs.QueueOrder
import SistemasOperativos.Proofs.FirstCome
import SistemasOperativos.Proofs.ExitOrder
import SistemasOperativos.Proofs.Submitted
import SistemasOperativos.Console.Main
import SistemasOperativos.System.Terminals
import SistemasOperativos.Proofs.ConsolePackets
import SistemasOperativos.Proofs.Deliveries
import SistemasOperativos.Proofs.Executions

import ColonyPico.Checksum.Crc32EthernetFast
import ColonyPico.Foundations.ByteStore
import ColonyPico.Foundations.OrbitSearch
import ColonyPico.Foundations.RingOrder
import ColonyPico.Persistent.Media
import ColonyPico.Persistent.CrcChunk
import ColonyPico.Persistent.MirroredChunk
import ColonyPico.Persistent.SlowMedia
import ColonyPico.Persistent.TornFrame
import ColonyPico.Persistent.PowerFail
import ColonyPico.Persistent.IndexedEntryRecord
import ColonyPico.Persistent.CrashRecovery
import ColonyPico.Persistent.EntryTraversal
import ColonyPico.Dm.ModelPoint
import ColonyPico.System.ElapsedTime
import ColonyPico.Storm.Config
import ColonyPico.Storm.OperatingMode
import ColonyPico.Storm.IdtSelection
import ColonyPico.Foundations.DeltaList
import ColonyPico.System.TimerManager
import ColonyPico.System.TimerRuns
import ColonyPico.Storm.ForcedOff
import ColonyPico.Storm.PublishedConfig
import ColonyPico.Foundations.IntrusiveLists
import ColonyPico.Foundations.LinkedSegments
import ColonyPico.Dm.ChangeNotification
import ColonyPico.Dm.NoLostUpdate
import ColonyPico.Storm.DutyCycle
import ColonyPico.Storm.StageFsm
import ColonyPico.Storm.StageRuns
import ColonyPico.Storm.EquipmentControl
import ColonyPico.Storm.StageLadder
import ColonyPico.Storm.ThermostatPass
import ColonyPico.Storm.FirstStage
import ColonyPico.Storm.ShortCycle
import ColonyPico.Dm.LockState
import ColonyPico.Dm.LockRule
import ColonyPico.Foundations.CircularSlots
import ColonyPico.Container.RingBuffer
import ColonyPico.Container.RingBufferMP
import ColonyPico.Container.LinkedLists
import ColonyPico.Container.ListRefinement
import ColonyPico.Container.ListRuns
import ColonyPico.Container.Dictionary
import ColonyPico.Driver.GangedStorage
import ColonyPico.Foundations.ByteMemory
import ColonyPico.Dm.PersistentRecord
import ColonyPico.Dm.SettlingTime
import ColonyPico.Persistent.SchemaUpgrade
import ColonyPico.Foundations.BalancedTrees
import ColonyPico.Container.AvlTrees
import ColonyPico.Container.AvlLinks
import ColonyPico.Container.AvlBalance
import ColonyPico.Container.AvlUpdates
import ColonyPico.Container.AvlRemoval
import ColonyPico.Container.AvlTraversal
import ColonyPico.Container.MapRuns
import ColonyPico.System.RealTime
import ColonyPico.System.PeriodicScheduler
import ColonyPico.Dm.SubscriberSteps
import ColonyPico.Persistent.IndexedEntryServer
import ColonyPico.Foundations.ChunkedInput
import ColonyPico.Text.FrameCodec
import ColonyPico.Foundations.TerminatedText
import ColonyPico.Text.StringEdits
import ColonyPico.Text.StringRefinement
import ColonyPico.Text.TextBlock
import ColonyPico.Io.StreamTransmit
import ColonyPico.Io.StreamReceive
import ColonyPico.Io.UartFifos
import ColonyPico.Io.RamPipe
import ColonyPico.System.MailboxServers
import ColonyPico.Dm.PointCopy
import ColonyPico.Logging.Logger
import ColonyPico.MApp.ManagerRequests
import ColonyPico.Storm.EventMonitor
import ColonyPico.System.SimTick
import ColonyPico.TShell.CommandProcessor
import ColonyPico.Persistent.StoredLengths
import ColonyPico.Persistent.EntryFailures
import ColonyPico.Persistent.EntryOffsets
import ColonyPico.Persistent.ClientPayloads
import ColonyPico.Foundations.ShiftRegister
import ColonyPico.Foundations.PolynomialDivision
import ColonyPico.Checksum.Crc16CcittFast
import ColonyPico.Checksum.PolynomialCrcs
import ColonyPico.Checksum.Fletcher16
import ColonyPico.Persistent.WriteFailures
import ColonyPico.Persistent.Erasure
import ColonyPico.Foundations.StoreRegions
import ColonyPico.Persistent.RegionAdapters
import ColonyPico.Persistent.FileRegions
import ColonyPico.Driver.PagedEeprom
import ColonyPico.Dm.SubscriberLinks
import ColonyPico.Dm.RecordLifecycle
import ColonyPico.Dm.Reattachment
import ColonyPico.Dm.ExportImport
import ColonyPico.Dm.ArrayElements
import ColonyPico.Json.Variant
import ColonyPico.Dm.NumericArrayJson
import ColonyPico.Dm.StringWrites
import ColonyPico.Dm.DatabaseJson
import ColonyPico.Foundations.OrderedInsertion
import ColonyPico.Foundations.TextOrder
import ColonyPico.Dm.ModelDatabase
import ColonyPico.Dm.NameEnumeration
import ColonyPico.Dm.ReferenceCounts
import ColonyPico.Container.Keys
import ColonyPico.Container.MapLookup
import ColonyPico.System.StartupTimers
import ColonyPico.System.PrecisionTime
import ColonyPico.Text.LineDecoder
import ColonyPico.Text.BlockEncoder
import ColonyPico.Text.TextBlockBuffer
import ColonyPico.Text.BasicTokenizer
import ColonyPico.Foundations.SequentialOutput
import ColonyPico.Text.Base64
import ColonyPico.Foundations.PositionalDigits
import ColonyPico.Text.StringAppend
import ColonyPico.Text.AsciiHex
import ColonyPico.Text.AsciiBinary
import ColonyPico.Text.AsciiToNumber
import ColonyPico.Text.AsciiToInteger
import ColonyPico.Text.NumberToAscii
import ColonyPico.Text.Timestamps
import ColonyPico.Dm.RecordPoints
import ColonyPico.Storm.VirtualOutputSetters
import ColonyPico.Storm.ComfortConfigPoint
import ColonyPico.Storm.JsonTimes
import ColonyPico.Storm.AutoChangeover
import ColonyPico.Storm.RelayTimes
import ColonyPico.Storm.AirFilterMonitor
import ColonyPico.Storm.IntervalBoundaries
import ColonyPico.Storm.ModeToOff
import ColonyPico.Storm.CycleTimes
import ColonyPico.Storm.SystemConfigPoint
import ColonyPico.Storm.PiController
import ColonyPico.Storm.SetpointRules
import ColonyPico.Storm.LogicalButtons
import ColonyPico.Io.EndOfStream
import ColonyPico.Foundations.SeparatedText
import ColonyPico.Io.LineReader
import ColonyPico.Io.PacketBuffers
import ColonyPico.Io.TcpStream
import ColonyPico.Io.TcpReceive
import ColonyPico.Io.TcpLifeCycle
import ColonyPico.Foundations.OperatorPrecedence
import ColonyPico.Math.IntegerExpressionParser
import ColonyPico.Math.ExpressionGrammar
import ColonyPico.Math.ExpressionSteps
import ColonyPico.Math.ExpressionReadings
import ColonyPico.Math.ExpressionEvaluation
import ColonyPico.Container.InsertionPaths
import ColonyPico.Memory.LeanHeap
import ColonyPico.Memory.PoolAllocator
import ColonyPico.Driver.PasswordHash
import ColonyPico.Foundations.ResourceLedger
import ColonyPico.Io.TcpConnections
import ColonyPico.Driver.TPipe
import ColonyPico.Json.ObjectDetector
import ColonyPico.Foundations.BlockChaining
import ColonyPico.Checksum.Md5Aladdin
import ColonyPico.Foundations.BracketedText
import ColonyPico.Storm.Interlock
import ColonyPico.Storm.ClosedLoop
import ColonyPico.Foundations.RingWindow
import ColonyPico.Persistent.BoundedLog
import ColonyPico.Logging.PersistentLog
import ColonyPico.Logging.LogCommand

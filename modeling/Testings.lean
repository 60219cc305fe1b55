import Testings.StepSystem
import Testings.CircularWindow
import Testings.SpiSlaveRing
import Testings.SpiSlaveCompletePackets
import Testings.SpiSlaveDriver
import Testings.SpiSlaveRepresentation
import Testings.DropOldestQueue
import Testings.SpiSlaveFifo
import Testings.SpiSlaveAccounting
import Testings.SpiSlaveIdleReset
import Testings.AsyncSerial
import Testings.BitbangUart
import Testings.SpiSlaveWakeup
import Testings.BitbangDevice
import Testings.BitbangTransmit
import Testings.BitbangReceive
import Testings.BitbangWriters
import Testings.BitbangLoopback
import Testings.BitbangLoopbackDelivery
import Testings.BitbangOpenClose
import Testings.MpegTsScan
import Testings.MpegTsAnalyzer
import Testings.MpegTsExtract
import Testings.MpegTsTotal
import Testings.XorProxyClients
import Testings.XorProxyReplies
import Testings.XorProxyLifetime
import Testings.IniStreamConfig
import Testings.IniStore
import Testings.IniRoundTrip
import Testings.ErrExit
import Testings.NetnsMulti
import Testings.NetnsSubnets
import Testings.KeysManager
import Testings.KeysMultiTap
import Testings.KeysSessions
import Testings.GpioTtyReceivers
import Testings.GpioTtyDecode
import Testings.OverwrittenSlot
import Testings.SoftuartLoopback
import Testings.AtomicCounter
import Testings.KfifoOpenRelease
import Testings.NetnsTeardown
import Testings.BitbangProbe
import Testings.SpiSlaveProbe
import Testings.GreedyFraming
import Testings.StoredBytes
import Testings.SpiSlaveTransfer
import Testings.SpiSlaveFraming
import Testings.BitbangBlocking
import Testings.BitbangMachines
import Testings.BitbangPeriod
import Testings.MpegTsPackets
import Testings.HistoryLog
import Testings.MpegTsHeaders
import Testings.MpegTsContinuity
import Testings.DeletionGaps
import Testings.MpegTsCheckersAgree
import Testings.BitFields
import Testings.MpegTsTimestamps
import Testings.MpegTsTables
import Testings.MpegTsUnits
import Testings.MpegTsFrameLimit
import Testings.MpegTsSizes
import Testings.NalStartCodes
import Testings.NalUnits
import Testings.NalAlignment
import Testings.NalIdrPatch
import Testings.MpegTsElementary
import Testings.LinkedCells
import Testings.XorProxyTable
import Testings.CStrings
import Testings.XorProxyHostPort
import Testings.XorProxySingle
import Testings.GpioTtyBaud
import Testings.GpioTtyTiming
import Testings.BoundedFifo
import Testings.GpioTxRing
import Testings.KeysReleases
import Testings.KfifoTransmit
import Testings.KeysInRange
import Testings.IncValidator
import Testings.MpegTsFields
import Testings.SerialTestPackets
import Testings.SimpleCdev
import Testings.GpioDebounce
import Testings.IntegerMacros
import Testings.WordMacros
import Testings.WaitQueue
import Testings.QueueLedger
import Testings.KfifoCalls
import Testings.KfifoOverwrite
import Testings.KfifoRxTx
import Testings.KfifoStall
import Testings.KfifoDelivery
import Testings.PollQueue
import Testings.KfifoPoll
import Testings.KfifoLifetime
import Testings.GpioTtyLifetime
import Testings.SampleTiming
import Testings.BitbangLink
import Testings.BitbangLinkDelivery
import Testings.BitbangLinkTolerance
import Testings.SpiSlaveStatus
import Testings.CyclicWords
import Testings.XorProxyTunnel
import Testings.SpiSlaveStream
import Testings.BitbangSleepers
import Testings.BitbangWedge
import Testings.PolledQueue
import Testings.XorProxyPolls
import Testings.NetnsVeth
import Testings.NetnsLeaks

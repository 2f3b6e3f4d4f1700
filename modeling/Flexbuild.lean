import Flexbuild.Words
import Flexbuild.Chains
import Flexbuild.Intervals
import Flexbuild.BootMemory
import Flexbuild.BootLayout
import Flexbuild.SlobModel
import Flexbuild.SlobLists
import Flexbuild.SlobRefinement
import Flexbuild.SlobConservation
import Flexbuild.SlobGeometry
import Flexbuild.SlobTiling
import Flexbuild.SlobFailure
import Flexbuild.Rings
import Flexbuild.Ledgers
import Flexbuild.VirtualPools
import Flexbuild.Shbp
import Flexbuild.ShbpOwnership
import Flexbuild.SlabBoot
import Flexbuild.SlabDistribution
import Flexbuild.SlabEntries
import Flexbuild.SlabModel
import Flexbuild.SlabBooks
import Flexbuild.SlabSections
import Flexbuild.Cores
import Flexbuild.SlabAccounting
import Flexbuild.SlabHandles
import Flexbuild.QbmanEnqueue
import Flexbuild.QbmanDequeue
import Flexbuild.Placements
import Flexbuild.DceModel
import Flexbuild.DceSteps
import Flexbuild.DceSemaphore
import Flexbuild.DceQueue
import Flexbuild.DceRecycle
import Flexbuild.DceCompletion
import Flexbuild.FirstFit
import Flexbuild.DmaRegion
import Flexbuild.DmaSoundness
import Flexbuild.Numerals
import Flexbuild.BitStrings
import Flexbuild.PbiModel
import Flexbuild.PbiRoundTrip
import Flexbuild.RcwModel
import Flexbuild.RcwRoundTrip
import Flexbuild.Opcodes
import Flexbuild.SoftParserModel
import Flexbuild.SoftParserCoding
import Flexbuild.SoftParserAddresses
import Flexbuild.SoftParserLayout
import Flexbuild.SoftParserRoundTrip
import Flexbuild.Probing
import Flexbuild.CmdifServer
import Flexbuild.CmdifSessions
import Flexbuild.CmdifCores
import Flexbuild.Marks
import Flexbuild.IprTable
import Flexbuild.IprTableKept
import Flexbuild.IprTableRuns
import Flexbuild.Traces
import Flexbuild.Results
import Flexbuild.SoftIr
import Flexbuild.SoftIrReplaced
import Flexbuild.SoftIrRevise
import Flexbuild.SoftIrLowering
import Flexbuild.SoftIrRevised
import Flexbuild.SoftIrCreate
import Flexbuild.SoftIrFlow
import Flexbuild.SoftIrSwitchRuns
import Flexbuild.SoftIrCreatedRuns
import Flexbuild.SoftIrCreated
import Flexbuild.SoftIrCreatedNames
import Flexbuild.SoftIrFrontEnd
import Flexbuild.Links
import Flexbuild.Tilings
import Flexbuild.IprFragments
import Flexbuild.IprFragmentLists
import Flexbuild.IprInsertions
import Flexbuild.IprArrivals
import Flexbuild.IprClosing
import Flexbuild.IprReassembly
import Flexbuild.IprHoldings
import Flexbuild.IprOwnership
import Flexbuild.IprCoverage
import Flexbuild.IprProgress
import Flexbuild.IprTraffic
import Flexbuild.IprAnyOrder
import Flexbuild.PriorityOrders
import Flexbuild.EventManager
import Flexbuild.EventLists
import Flexbuild.EventRegistry
import Flexbuild.EventRuns
import Flexbuild.RcuModel
import Flexbuild.RcuQueue
import Flexbuild.RcuGrace
import Flexbuild.ByteMemory
import Flexbuild.SecureObjects
import Flexbuild.SecurePacking
import Flexbuild.SecureUnpacking
import Flexbuild.SecureCrossing
import Flexbuild.SecureTrust
import Flexbuild.SecureMatching
import Flexbuild.SecureReading
import Flexbuild.Fields
import Flexbuild.GsoModel
import Flexbuild.GsoHeaders
import Flexbuild.GsoSegments
import Flexbuild.GsoRuns
import Flexbuild.Checksums
import Flexbuild.GroModel
import Flexbuild.GroFrames
import Flexbuild.GroSteps
import Flexbuild.GroRuns
import Flexbuild.GroLossless
import Flexbuild.GroTimers
import Flexbuild.GroLimits
import Flexbuild.ObjectSearch
import Flexbuild.ObjectSearchRuns
import Flexbuild.PbiCopyRuns
import Flexbuild.FirstMinimum
import Flexbuild.SlabBestFit
import Flexbuild.ShbpLayout
import Flexbuild.SlobRelease
import Flexbuild.GuardedSteps
import Flexbuild.FuseProvision
import Flexbuild.RtaErrors
import Flexbuild.RtaProgram
import Flexbuild.RingHistories
import Flexbuild.JobRing
import Flexbuild.JobRingAccounts
import Flexbuild.BigEndian
import Flexbuild.HashDrbg
import Flexbuild.HashDrbgRefinement
import Flexbuild.SelfDelimiting
import Flexbuild.BitFields
import Flexbuild.RtaLoads
import Flexbuild.RtaFifos
import Flexbuild.RtaWalker
import Flexbuild.RtaFraming
import Flexbuild.RtaLoadWords
import Flexbuild.RtaFifoWords
import Flexbuild.IdPool
import Flexbuild.OnesComplement
import Flexbuild.QbmanBatch
import Flexbuild.QbmanPush
import Flexbuild.DceAtomic
import Flexbuild.TwoLaps
import Flexbuild.CircFifo
import Flexbuild.Remainders
import Flexbuild.RcwCrc
import Flexbuild.RcwOverlap
import Flexbuild.PbiTraditional
import Flexbuild.DceFlight
import Flexbuild.CmdifResponse
import Flexbuild.HeaderSegment
import Flexbuild.HeaderL4
import Flexbuild.HeaderIp
import Flexbuild.HeaderNat
import Flexbuild.HeaderEdits
import Flexbuild.HeaderNatEdits
import Flexbuild.HeaderWriteBack
import Flexbuild.TokenObjects
import Flexbuild.TokenTemplates
import Flexbuild.TokenLoading
import Flexbuild.AttributeReading
import Flexbuild.Signing
import Flexbuild.SigningProtocol
import Flexbuild.PbiCreation
import Flexbuild.PbiScanned
import Flexbuild.PbiRewriting
import Flexbuild.PbiKept
import Flexbuild.SoftCode
import Flexbuild.SoftCodeRuns
import Flexbuild.SoftChecksum
import Flexbuild.SoftWindow
import Flexbuild.SoftStatements
import Flexbuild.SoftReading
import Flexbuild.SoftWindowKept
import Flexbuild.SoftSums
import Flexbuild.DdrClocks
import Flexbuild.ParityChecks
import Flexbuild.FuseCodeWords
import Flexbuild.BitExpansion
import Flexbuild.ScratchBuffers
import Flexbuild.HashDrbgScratch
import Flexbuild.DdrAddresses
import Flexbuild.DdrMap
import Flexbuild.DdrRuns
import Flexbuild.Accessors
import Flexbuild.DceAccessors
import Flexbuild.DceFields
import Flexbuild.DceDescriptors
import Flexbuild.RtaImmediates
import Flexbuild.RtaPatches
import Flexbuild.SecureSearch
import Flexbuild.SecureStore
import Flexbuild.CstLines
import Flexbuild.IprRejected

import VeloxHash.FinNumerals
import VeloxHash.TransitionSystem
import VeloxHash.StutteringSimulation
import VeloxHash.Splice
import VeloxHash.CodeBuffer
import VeloxHash.Nonce
import VeloxHash.NonceReservation
import VeloxHash.Algorithm
import VeloxHash.Job
import VeloxHash.WorkerJob
import VeloxHash.CpuWorker
import VeloxHash.TicketBook
import VeloxHash.LaneNonce
import VeloxHash.JobChange
import VeloxHash.NonceTickets
import VeloxHash.NonceUniqueness
import VeloxHash.SharePairing
import VeloxHash.WorkComparison
import VeloxHash.RxQueuePublication
import VeloxHash.RxBasicStorage
import VeloxHash.RxDatasetSource
import VeloxHash.VmPool
import VeloxHash.RandomxProgram
import VeloxHash.BytecodeMachine
import VeloxHash.JitCompilerX86
import VeloxHash.JitLayout
import VeloxHash.JitBranchTarget
import VeloxHash.JitRounding
import VeloxHash.JitExecution
import VeloxHash.JitSimulation
import VeloxHash.MinerPause
import VeloxHash.ClientRequests
import VeloxHash.ShareAccounting
import VeloxHash.ClientDisconnect
import VeloxHash.ClientIsolation
import VeloxHash.DnsUvBackend
import VeloxHash.AutoClient
import VeloxHash.SelfSelectClient
import VeloxHash.DaemonClient
import VeloxHash.LineReader
import VeloxHash.LineOverflow
import VeloxHash.TreeHash
import VeloxHash.MerkleTree
import VeloxHash.ZmqStream
import VeloxHash.ZmqSocket
import VeloxHash.ReaderProgram
import VeloxHash.Varint
import VeloxHash.BlobReader
import VeloxHash.Hex
import VeloxHash.BlockTemplate
import VeloxHash.TemplateBounds
import VeloxHash.TemplateProgress
import VeloxHash.TemplateMembers
import VeloxHash.TemplateHistory
import VeloxHash.DaemonJob
import VeloxHash.DaemonReplies
import VeloxHash.SubmitBlock
import VeloxHash.Radix
import VeloxHash.Keccak
import VeloxHash.WalletAddress
import VeloxHash.WalletEncoding
import VeloxHash.WalletCanonical
import VeloxHash.FailoverStrategy
import VeloxHash.ShareRouting
import VeloxHash.DonateStrategy
import VeloxHash.WideNonce
import VeloxHash.EthStratumClient
import VeloxHash.EthFaults
import VeloxHash.EthExtraNonce
import VeloxHash.BytecodeExecution
import VeloxHash.BytecodeTermination
import VeloxHash.RxNUMAStorage
import VeloxHash.Benchmark
import VeloxHash.BenchmarkLedger
import VeloxHash.BenchmarkSum
import VeloxHash.RxMsr
import VeloxHash.PoolConfig
import VeloxHash.PopulationCount
import VeloxHash.KPHash
import VeloxHash.KawPowSource
import VeloxHash.DataSizes
import VeloxHash.Demanding
import VeloxHash.KPCache
import VeloxHash.KawPowHeight
import VeloxHash.CounterLedger
import VeloxHash.OclWorker
import VeloxHash.OclNonces
import VeloxHash.HttpApiRequest
import VeloxHash.ApiAnswers
import VeloxHash.Httpd
import VeloxHash.HttpContext
import VeloxHash.HttpPieces
import VeloxHash.HttpClient
import VeloxHash.Socks5
import VeloxHash.FallibleRun
import VeloxHash.ReplyHandlers
import VeloxHash.HostileReplies
import VeloxHash.CpuThreads
import VeloxHash.ThreadProfiles
import VeloxHash.ThreadRoundTrip
import VeloxHash.ConfigReader
import VeloxHash.ConfigReload
import VeloxHash.ReaderRuns
import VeloxHash.WalletReading
import VeloxHash.WalletTags
import VeloxHash.WalletSequence
import VeloxHash.WalletScan
import VeloxHash.WalletBounds
import VeloxHash.WalletStored
import VeloxHash.WordArithmetic
import VeloxHash.EncodedMachine
import VeloxHash.X86Machine
import VeloxHash.Reciprocal
import VeloxHash.Superscalar
import VeloxHash.SuperscalarCode
import VeloxHash.SuperscalarEncoding
import VeloxHash.SuperscalarExecution
import VeloxHash.SuperscalarRun
import VeloxHash.Cvt
import VeloxHash.StratumJob
import VeloxHash.RxDatasetSplit
import VeloxHash.Checked
import VeloxHash.V4RandomMath
import VeloxHash.V4RandomMathInit
import VeloxHash.CryptonightRTemplate
import VeloxHash.CryptonightRGen
import VeloxHash.HashedStream
import VeloxHash.Retrying
import VeloxHash.SuperscalarInstructions
import VeloxHash.SuperscalarGenerator
import VeloxHash.SuperscalarFormed
import VeloxHash.SuperscalarSound
import VeloxHash.A64Machine
import VeloxHash.JitCompilerA64
import VeloxHash.A64SuperscalarWords
import VeloxHash.A64SuperscalarRun
import VeloxHash.A64SuperscalarHash
import VeloxHash.ForkJoin
import VeloxHash.GhostRider
import VeloxHash.GhostRiderThreads
import VeloxHash.GhostRiderLanes
import VeloxHash.GhostRiderOcta
import VeloxHash.ReciprocalWords
import VeloxHash.FastMod
import VeloxHash.TopList
import VeloxHash.NetworkState
import VeloxHash.TextSubstitution
import VeloxHash.EnvExpand
import VeloxHash.PiecewiseLinear
import VeloxHash.HashrateInterpolator
import VeloxHash.RingBuffer
import VeloxHash.Hashrate
import VeloxHash.CNumeral
import VeloxHash.MsrItemText
import VeloxHash.RxConfigFile
import VeloxHash.CpuConfigRead
import VeloxHash.RoundRobin
import VeloxHash.HwlocTopology
import VeloxHash.HwlocCpuInfo
import VeloxHash.BumpWriter
import VeloxHash.Rv64VectorHash
import VeloxHash.JsonText
import VeloxHash.ClientFraming
import VeloxHash.LiteralPool
import VeloxHash.RiscVMachine
import VeloxHash.Rv64Encoding
import VeloxHash.Rv64Immediate
import VeloxHash.RiscVSuperscalar
import VeloxHash.Rv64Superscalar
import VeloxHash.Rv64SuperscalarCode
import VeloxHash.Rv64SuperscalarRun
import VeloxHash.Rv64SuperscalarHash
import VeloxHash.Rv64VectorCode
import VeloxHash.Rv64VectorEmission
import VeloxHash.Rv64VectorRun
import VeloxHash.Rv64SuperscalarExact
import VeloxHash.WideMultiplication
import VeloxHash.HashingBlob
import VeloxHash.BufferProgram
import VeloxHash.DmiTools
import VeloxHash.DmiStrings
import VeloxHash.DmiDecoders
import VeloxHash.DmiReader
import VeloxHash.Region
import VeloxHash.MemPool
import VeloxHash.MemoryPool
import VeloxHash.NUMAMemoryPool
import VeloxHash.DmiEntryPoint
import VeloxHash.Rijndael
import VeloxHash.SoftAes
import VeloxHash.StridedLoop
import VeloxHash.RandomxAes
import VeloxHash.Confinement
import VeloxHash.BytecodeConfinement
import VeloxHash.InterpretedVm
import VeloxHash.RandomxHash

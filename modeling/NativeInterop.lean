import NativeInterop.Machine
import NativeInterop.Loop
import NativeInterop.Evolution
import NativeInterop.BoundedChannel
import NativeInterop.LittleEndian
import NativeInterop.Json
import NativeInterop.AeadFrameCipher
import NativeInterop.FrameConnection
import NativeInterop.Envelope
import NativeInterop.ProtoWire
import NativeInterop.EnvelopeWire
import NativeInterop.Hkdf
import NativeInterop.HkdfExpansion
import NativeInterop.PqSecureChannel
import NativeInterop.ChannelIntegrity
import NativeInterop.NonceUniqueness
import NativeInterop.HandshakeAgreement
import NativeInterop.TranscriptIntegrity
import NativeInterop.PbFrameServer
import NativeInterop.PbServerInvariant
import NativeInterop.PbServerRuns
import NativeInterop.PbPosture
import NativeInterop.HandleClient
import NativeInterop.InferenceSession
import NativeInterop.RagClients
import NativeInterop.FfiSessions
import NativeInterop.LlamaHost
import NativeInterop.LlamaHandles
import NativeInterop.LlamaContext
import NativeInterop.LlamaShim
import NativeInterop.SessionStream
import NativeInterop.LlamaLanguageModel
import NativeInterop.FfiLedger
import NativeInterop.FfiRegistry
import NativeInterop.FfiDelivery
import NativeInterop.FfiHosts
import NativeInterop.AgentStatus
import NativeInterop.JniCallbacks
import NativeInterop.KotlinFlows
import NativeInterop.KotlinListeners
import NativeInterop.ForemanAgent
import NativeInterop.ForemanLanguageModel
import NativeInterop.EventStream
import NativeInterop.RawHttp
import NativeInterop.SqliteBroker
import NativeInterop.TokenBoundaries
import NativeInterop.Utf8Decoding
import NativeInterop.LlamaPieces
import NativeInterop.ConversationMemory
import NativeInterop.FrameReaders
import NativeInterop.FrameStreams
import NativeInterop.PbTransport
import NativeInterop.TurnScreens
import NativeInterop.ForemanViewModel
import NativeInterop.AgentViewModel
import NativeInterop.RagViewModels
import NativeInterop.HttpClients
import NativeInterop.Utf16
import NativeInterop.JniStrings
import NativeInterop.JsonDocument
import NativeInterop.Gbnf
import NativeInterop.ForemanTools
import NativeInterop.GbnfGrammar
import NativeInterop.ToolCallParsing
import NativeInterop.RouterBrain
import NativeInterop.JsonEndings
import NativeInterop.RouterProse
import NativeInterop.DropOldestRing
import NativeInterop.EngineTrace
import NativeInterop.TraceViewModel
import NativeInterop.LanguageFeatures
import NativeInterop.FeatureSqlite
import NativeInterop.BrokerLoops
import NativeInterop.BrokerFaults
import NativeInterop.SqliteClient
import NativeInterop.BrokerRequeue
import NativeInterop.Unicode
import NativeInterop.SignedDecimal
import NativeInterop.GgufDownloader
import NativeInterop.GgufResume
import NativeInterop.DownloadProgress
import NativeInterop.AssetExtractor
import NativeInterop.WordPiece
import NativeInterop.WordPieceTokenizer
import NativeInterop.WordPieceScalars
import NativeInterop.WordPieceSegments
import NativeInterop.WordPieceSpec
import NativeInterop.PercentEncoding
import NativeInterop.RagQuery
import NativeInterop.RequestHead
import NativeInterop.TextLines
import NativeInterop.Frontmatter
import NativeInterop.DniChatClient
import NativeInterop.KotlinStreams
import NativeInterop.Base64
import NativeInterop.RasterPayload
import NativeInterop.VisualFeature
import NativeInterop.JsonTree
import NativeInterop.MarkdownChunker
import NativeInterop.EdgeIndex
import NativeInterop.Ranking
import NativeInterop.EdgeSearch
import NativeInterop.Threads
import NativeInterop.EdgeSearchEngine
import NativeInterop.Benchmarks
import NativeInterop.DelimitedFields
import NativeInterop.ShowcaseCommand
import NativeInterop.Renderers
import NativeInterop.FeatureTransports
import NativeInterop.GcLab
import NativeInterop.ManualsCorpus
import NativeInterop.KotlinPbTransport
import NativeInterop.KotlinPbRequests
import NativeInterop.TrustReport
import NativeInterop.TrustViewModel

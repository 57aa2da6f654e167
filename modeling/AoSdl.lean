import AoSdl.Lib.Arena
import AoSdl.Lib.Arrivals
import AoSdl.Lib.Bindings
import AoSdl.Lib.Decay
import AoSdl.Lib.Decimal
import AoSdl.Lib.Entries
import AoSdl.Lib.Escape
import AoSdl.Lib.Fields
import AoSdl.Lib.Framing
import AoSdl.Lib.FrameMachine
import AoSdl.Lib.Journal
import AoSdl.Lib.LineSetting
import AoSdl.Lib.LetterRuns
import AoSdl.Lib.Ownership
import AoSdl.Lib.Pairing
import AoSdl.Lib.Places
import AoSdl.Lib.Replica
import AoSdl.Lib.RingBuffer
import AoSdl.Lib.Runs
import AoSdl.Lib.Search
import AoSdl.Lib.Segments
import AoSdl.Lib.Shelves
import AoSdl.Lib.SparseArray
import AoSdl.Lib.Tally
import AoSdl.Lib.TokenBucket
import AoSdl.Lib.Window
import AoSdl.Lib.Verdicts
import AoSdl.Lib.WordSizes
import AoSdl.Text
import AoSdl.BanManager
import AoSdl.BanPersistence
import AoSdl.PersistentTrie
import AoSdl.PersistentMap
import AoSdl.PersistentHeap
import AoSdl.PersistentHeapSimulation
import AoSdl.PersistentVersions
import AoSdl.AreaState
import AoSdl.AssetCache
import AoSdl.AssetCacheAccounts
import AoSdl.AssetLibrary
import AoSdl.AssetLookups
import AoSdl.AssetTypes
import AoSdl.AudioStream
import AoSdl.AudioStreamTiming
import AoSdl.RawReclaim
import AoSdl.GameRoom
import AoSdl.CharacterOwnership
import AoSdl.AoPacket
import AoSdl.AoWire
import AoSdl.AoServer
import AoSdl.ServerPacketBehavior
import AoSdl.ServerPacketFrames
import AoSdl.ServerBroadcasts
import AoSdl.AoFraming
import AoSdl.GlyphCache
import AoSdl.HandshakeGate
import AoSdl.PacketInjection
import AoSdl.IcRelay
import AoSdl.WebSocketFrame
import AoSdl.WebSocketServer
import AoSdl.WebSocketLengths
import AoSdl.WebSocketHandshake
import AoSdl.RateLimiter
import AoSdl.RateReload
import AoSdl.DispatchLock
import AoSdl.ImageAsset
import AoSdl.InetAddress
import AoSdl.TrustedProxyList
import AoSdl.Lib.BitPrefix
import AoSdl.TrustedRanges
import AoSdl.SendQueue
import AoSdl.WebSocketClient
import AoSdl.WebSocketCodec
import AoSdl.WebSocketClientHandshake
import AoSdl.ProxyProtocol
import AoSdl.Lib.Scanning
import AoSdl.ProxyLines
import AoSdl.WebSocketPoll
import AoSdl.ConnectionCallbacks
import AoSdl.ProxyBackends
import AoSdl.WsWorkerPool
import AoSdl.FirewallManager
import AoSdl.BanFirewall
import AoSdl.ASNReputation
import AoSdl.ModerationHeat
import AoSdl.HeatObservation
import AoSdl.MountDownloads
import AoSdl.MountHttp
import AoSdl.MountLookups
import AoSdl.MountStreaming
import AoSdl.MountManager
import AoSdl.MutePersistence
import AoSdl.SlurEvasion
import AoSdl.SlurFilter
import AoSdl.SlurText
import AoSdl.SpamDetector
import AoSdl.SpamRings
import AoSdl.AuthTokens
import AoSdl.ModeratorCommands
import AoSdl.SessionWeights
import AoSdl.SessionStats
import AoSdl.SessionExpiry
import AoSdl.SessionRegistry
import AoSdl.IPReputation
import AoSdl.NXEndpoint
import AoSdl.SessionBans
import AoSdl.AreaCommands
import AoSdl.RoomFrames
import AoSdl.CommandFrames
import AoSdl.CaseMasters
import AoSdl.ModeratorRoles
import AoSdl.RoleChanges
import AoSdl.AreaSpeech
import AoSdl.ReadOnlyEndpoints
import AoSdl.ContentReload
import AoSdl.ReloadConsistency
import AoSdl.HttpParsing
import AoSdl.HttpPool
import AoSdl.HttpPoolAnswers
import AoSdl.HttpRequests
import AoSdl.HttpRoundTrip
import AoSdl.HttpServer
import AoSdl.HttpCodec
import AoSdl.HttpFramingViews
import AoSdl.HttpBodyLength
import AoSdl.HttpHeadChecks
import AoSdl.HttpRequestLine
import AoSdl.HttpRoutes
import AoSdl.HttpConnections
import AoSdl.HttpReading
import AoSdl.HttpKeepAlive
import AoSdl.SseStreams
import AoSdl.StateBuffer
import AoSdl.SseReplay
import AoSdl.HttpClient
import AoSdl.HttpClientFraming
import AoSdl.HttpChunkedBody
import AoSdl.HttpClientHeaders
import AoSdl.HttpResponseHead
import AoSdl.HttpOpenConnections
import AoSdl.HttpClientKeepAlive
import AoSdl.HttpClientInterim
import AoSdl.HttpClientRounds
import AoSdl.RestRouter
import AoSdl.PacketReach
import AoSdl.EvictedClients
import AoSdl.Lib.Service
import AoSdl.TextProcessor
import AoSdl.TextRenderer
import AoSdl.TextLayout
import AoSdl.TextMeshBuilder
import AoSdl.TextBox
import AoSdl.TextBoxProgress
import AoSdl.CourtroomPresenter
import AoSdl.Lib.Preemption
import AoSdl.CourtroomPlayback
import AoSdl.FirewallForms
import AoSdl.FirewallHelper
import AoSdl.FirewallGrammar
import AoSdl.LoginBackOff
import AoSdl.EvidenceLists
import AoSdl.MusicLists
import AoSdl.BanDurations
import AoSdl.SlurNormalForms
import AoSdl.SlurInflections
import AoSdl.UnicodeClassifier
import AoSdl.Utf8Decoders
import AoSdl.SemanticClusterer
import AoSdl.Lib.BigEndian
import AoSdl.Base64
import AoSdl.Lib.Sha256
import AoSdl.Lib.KeyDerivation
import AoSdl.Crypto
import AoSdl.Lib.RowMajor
import AoSdl.Lib.Guarded
import AoSdl.Lib.Perceptron
import AoSdl.LocalClassifierLayer
import AoSdl.ApngDecoder
import AoSdl.ApngChunks
import AoSdl.ApngBounds
import AoSdl.Lib.Compositor
import AoSdl.ApngRaster
import AoSdl.ApngFrames
import AoSdl.ApngAnimation
import AoSdl.Lib.Utf8
import AoSdl.MessageSamples
import AoSdl.Lib.Timeline
import AoSdl.AnimationPlayer
import AoSdl.RawStream
import AoSdl.CharacterSheet
import AoSdl.TextEscapes
import AoSdl.TextEffects
import AoSdl.Lib.SortedMap
import AoSdl.AwsSigV4
import AoSdl.AwsSigning
import AoSdl.PcmRingBuffer
import AoSdl.LoopPoints

import Qwen38.Text.StreamUtf8
import Qwen38.Text.StreamAgree
import Qwen38.Lib.Speculation
import Qwen38.Engine.Start
import Qwen38.Engine.CacheEntry
import Qwen38.Engine.Live
import Qwen38.Engine.DiskStore
import Qwen38.Cache.ExpertCache
import Qwen38.Cache.ExpertRefusal
import Qwen38.Engine.Answers
import Qwen38.Engine.Barrier
import Qwen38.Engine.Admission
import Qwen38.Text.ToolRoundTrip
import Qwen38.Text.ResponseRead
import Qwen38.Text.ToolGrammar
import Qwen38.Cache.PrefixBound
import Qwen38.Text.JsonRoundTrip
import Qwen38.Engine.Segments
import Qwen38.Layer.Feeding
import Qwen38.Layer.LayerRuns
import Qwen38.Layer.AttentionRuns
import Qwen38.Text.JsonParse
import Qwen38.Http.Listening
import Qwen38.Http.Response
import Qwen38.Http.Accounting
import Qwen38.Engine.ProfitabilityGuard
import Qwen38.Engine.DepthPolicy
import Qwen38.Engine.HistoryPolicy
import Qwen38.Engine.Streaming
import Qwen38.Engine.ContextCopy
import Qwen38.Engine.PromptRows
import Qwen38.Layer.VqCodes
import Qwen38.Layer.QmetaTags
import Qwen38.Layer.NgramRanges
import Qwen38.Layer.NgramVectors
import Qwen38.Layer.PackedSelection
import Qwen38.Layer.VqRoutes
import Qwen38.Layer.PagedSlots
import Qwen38.Model.Divisions
import Qwen38.Engine.ThinkingBudget
import Qwen38.Text.ChatBlocks
import Qwen38.Metal.TopTwo
import Qwen38.Metal.QsaTop128
import Qwen38.Engine.Sampling
import Qwen38.Token.AddedTokens
import Qwen38.Token.Bpe
import Qwen38.Http.Segmentation
import Qwen38.Token.RoundTrip
import Qwen38.Engine.Progress
import Qwen38.Engine.BatchedRuns
import Qwen38.Layer.PrefixState
import Qwen38.Native.Memory

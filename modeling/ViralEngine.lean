import ViralEngine.Upload.Queue
import ViralEngine.Upload.Cancel
import ViralEngine.Upload.Completion
import ViralEngine.Chat.Engine
import ViralEngine.Chat.Delivery
import ViralEngine.Feed.Pool
import ViralEngine.Feed.Ring
import ViralEngine.Feed.Content
import ViralEngine.Feed.IjkPlayer
import ViralEngine.Feed.Playback
import ViralEngine.Feed.OnlyCurrent
import ViralEngine.Feed.Atomic
import ViralEngine.Chat.RoundTrip
import ViralEngine.Chat.HandOff
import ViralEngine.Chat.Order
import ViralEngine.Feed.Binding
import ViralEngine.Feed.Attribution
import ViralEngine.Feed.Lifecycle
import ViralEngine.Feed.Silence
import ViralEngine.Upload.Interrupt
import ViralEngine.Lib.KeyedList
import ViralEngine.Lib.Sql
import ViralEngine.Storage.Engine
import ViralEngine.Storage.Statements
import ViralEngine.Storage.Queries
import ViralEngine.Storage.Refinement
import ViralEngine.Upload.Listener
import ViralEngine.Upload.Service
import ViralEngine.Upload.Resumable
import ViralEngine.Feed.Surface
import ViralEngine.Feed.Notes
import ViralEngine.Feed.Preload
import ViralEngine.Feed.Pause
import ViralEngine.Chat.Accounts
import ViralEngine.Lib.Json
import ViralEngine.Chat.WellFormed
import ViralEngine.Lib.Loop
import ViralEngine.Lib.SqlLeast
import ViralEngine.Storage.Cache
import ViralEngine.Storage.Texts
import ViralEngine.Storage.Eviction
import ViralEngine.Storage.Recency
import ViralEngine.Lib.Windows
import ViralEngine.Storage.Batch
import ViralEngine.Storage.Paging
import ViralEngine.Feed.Bounds
import ViralEngine.Feed.HandOver
import ViralEngine.Feed.Paced
import ViralEngine.Feed.Return
import ViralEngine.Chat.Validator
import ViralEngine.Chat.Bridge
import ViralEngine.Feed.Again
import ViralEngine.Upload.PauseAll
import ViralEngine.Upload.Answers
import ViralEngine.Upload.Capacity
import ViralEngine.Upload.Contained
import ViralEngine.Upload.Progress
import ViralEngine.Upload.Retries
import ViralEngine.Upload.Chunks
import ViralEngine.Upload.Uncut
import ViralEngine.Upload.Headers
import ViralEngine.Chat.FlatFrames
import ViralEngine.Chat.Spacing
import ViralEngine.Chat.History
import ViralEngine.Chat.Pending
import ViralEngine.Chat.Malformed
import ViralEngine.Socket.Lost
import ViralEngine.Lib.Linked
import ViralEngine.Player.MessageQueue
import ViralEngine.Player.PacketQueue
import ViralEngine.Player.Decoder
import ViralEngine.Lib.Slots
import ViralEngine.Player.FrameQueue
import ViralEngine.Player.Screen

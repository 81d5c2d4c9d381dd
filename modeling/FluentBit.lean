import FluentBit.Engine.Singleplex
import FluentBit.Engine.Rounds
import FluentBit.Engine.RetryBudget
import FluentBit.InputChunk.TagIndex
import FluentBit.Scheduler.Timing
import FluentBit.Scheduler.Backoff
import FluentBit.TaskMap
import FluentBit.Ltsv
import FluentBit.Multiline.Grouping
import FluentBit.Upstream.Counters
import FluentBit.Tail.Restart
import FluentBit.Tail.Registry
import FluentBit.StorageBacklog
import FluentBit.StreamProcessor.Windows
import FluentBit.RewriteTag
import FluentBit.Forward.Ack
import FluentBit.Forward.Framing
import FluentBit.WriteStr.Faithful
import FluentBit.BucketQueue
import FluentBit.InputChunk.RingBuffer
import FluentBit.Url
import FluentBit.Uri
import FluentBit.Decompression
import FluentBit.Syslog
import FluentBit.Time
import FluentBit.Typecast

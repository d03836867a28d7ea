import QcloudIot.Lib.Backoff
import QcloudIot.Lib.BlockHash
import QcloudIot.Lib.Brackets
import QcloudIot.Lib.Bytes
import QcloudIot.Lib.Chain
import QcloudIot.Lib.FreshIds
import QcloudIot.Lib.Json
import QcloudIot.Lib.KeyedList
import QcloudIot.Lib.Ledger
import QcloudIot.Lib.Levels
import QcloudIot.Lib.LinkedList
import QcloudIot.Lib.LockOrder
import QcloudIot.Lib.Memory
import QcloudIot.Lib.Packed
import QcloudIot.Lib.Reading
import QcloudIot.Lib.Ring
import QcloudIot.Lib.Run
import QcloudIot.Lib.RunningSums
import QcloudIot.Lib.Slots
import QcloudIot.Lib.StableSort
import QcloudIot.Lib.Substring
import QcloudIot.Lib.Sweep
import QcloudIot.Lib.UndoFold
import QcloudIot.Lib.Varint
import QcloudIot.Lib.Writer
import QcloudIot.Mqtt.Wire
import QcloudIot.Mqtt.PublishPacket
import QcloudIot.Mqtt.TopicMatch
import QcloudIot.Mqtt.Packets
import QcloudIot.Mqtt.Client
import QcloudIot.Mqtt.Transport
import QcloudIot.Mqtt.Requests
import QcloudIot.Mqtt.Inbound
import QcloudIot.Mqtt.Session
import QcloudIot.Mqtt.Sweeps
import QcloudIot.Mqtt.Link
import QcloudIot.Mqtt.Rounds
import QcloudIot.Mqtt.Backoff
import QcloudIot.Mqtt.KeepAlive
import QcloudIot.Mqtt.Runs
import QcloudIot.Mqtt.PubEvents
import QcloudIot.Mqtt.Locks
import QcloudIot.Mqtt.Acks
import QcloudIot.Mqtt.Ownership
import QcloudIot.Mqtt.Duplicates
import QcloudIot.Mqtt.RepeatIds
import QcloudIot.Mqtt.Rollback
import QcloudIot.Mqtt.Subscriptions
import QcloudIot.Mqtt.SubTable
import QcloudIot.Mqtt.Reconnect
import QcloudIot.Mqtt.Threads
import QcloudIot.Mqtt.RemLen
import QcloudIot.Mqtt.Framing
import QcloudIot.Mqtt.RoundTrip
import QcloudIot.Mqtt.PacketIds
import QcloudIot.Coap.Message
import QcloudIot.Coap.Serialize
import QcloudIot.Coap.Bounds
import QcloudIot.Coap.Deserialize
import QcloudIot.Coap.Codec
import QcloudIot.Coap.Datagram
import QcloudIot.Coap.Reads
import QcloudIot.Coap.DecoderBounds
import QcloudIot.Coap.Client
import QcloudIot.Coap.Exchange
import QcloudIot.Coap.Lifecycle
import QcloudIot.Coap.Requests
import QcloudIot.Coap.Auth
import QcloudIot.Coap.Accounting
import QcloudIot.Coap.Acknowledged
import QcloudIot.Coap.SeparateAcks
import QcloudIot.Coap.OptionList
import QcloudIot.Log.Upload
import QcloudIot.Log.Conservation
import QcloudIot.Log.Split
import QcloudIot.Utils.Md5
import QcloudIot.Utils.Md5Finish
import QcloudIot.Ota.Client
import QcloudIot.Ota.Download
import QcloudIot.Shadow.Json
import QcloudIot.Shadow.Bounds
import QcloudIot.Utils.JsonParser
import QcloudIot.Utils.JsonLookup
import QcloudIot.Utils.JsonMemory
import QcloudIot.Utils.JsonRestore
import QcloudIot.Utils.JsonBounds
import QcloudIot.Utils.JsonIteration
import QcloudIot.Shadow.RoundTrip
import QcloudIot.Mqtt.Messages
import QcloudIot.Mqtt.TopicCopy
import QcloudIot.Utils.JsonPrefix
import QcloudIot.Utils.Scan
import QcloudIot.Ota.Inbound
import QcloudIot.Shadow.Requests
import QcloudIot.Shadow.Completion
import QcloudIot.Shadow.Replies
import QcloudIot.Http.Client
import QcloudIot.Http.Response
import QcloudIot.Http.Content
import QcloudIot.Ota.Progress
import QcloudIot.Ota.Check
import QcloudIot.Ota.Upgrade
import QcloudIot.Ota.Fetch
import QcloudIot.Http.Chunked
import QcloudIot.Http.Url
import QcloudIot.Http.Headers
import QcloudIot.Mqtt.Sends
import QcloudIot.Mqtt.TopicLists
import QcloudIot.Mqtt.PacketSizes
import QcloudIot.Mqtt.Connect
import QcloudIot.Mqtt.Suback
import QcloudIot.Gateway.Client
import QcloudIot.Gateway.Sessions
import QcloudIot.Rrpc.Client
import QcloudIot.Rrpc.Replies
import QcloudIot.At.Socket
import QcloudIot.At.Slots
import QcloudIot.At.Client
import QcloudIot.At.Response
import QcloudIot.Utils.JsonPlain
import QcloudIot.Shadow.Delta
import QcloudIot.Gateway.Messages
import QcloudIot.Gateway.BindList
import QcloudIot.Gateway.Replies
import QcloudIot.Lib.Calendar
import QcloudIot.Utils.Timer
import QcloudIot.Lib.Queue
import QcloudIot.Lib.Calls
import QcloudIot.Utils.Ringbuff
import QcloudIot.At.Queue
import QcloudIot.At.Esp8266
import QcloudIot.Shadow.Insert
import QcloudIot.Lib.Base64
import QcloudIot.Utils.Base64
import QcloudIot.Http.Base64
import QcloudIot.Utils.JsonBuffer
import QcloudIot.Dynreg.Devinfo
import QcloudIot.Lib.Draws
import QcloudIot.Coap.MessageIds
import QcloudIot.Lib.Lehmer
import QcloudIot.Dynreg.Random
import QcloudIot.Lib.Segment
import QcloudIot.Utils.NodeList
import QcloudIot.Utils.Deque
import QcloudIot.Lib.ByteField
import QcloudIot.Lib.BlockCipher
import QcloudIot.Lib.WordBytes
import QcloudIot.Lib.Rijndael
import QcloudIot.Utils.AesTables
import QcloudIot.Utils.Aes
import QcloudIot.Utils.AesCbc
import QcloudIot.Dynreg.Secret
import QcloudIot.Lib.StreamHash
import QcloudIot.Lib.Sha1
import QcloudIot.Utils.Sha1
import QcloudIot.Utils.Hmac
import QcloudIot.Mqtt.Signature
import QcloudIot.Dynreg.Request
import QcloudIot.Dynreg.Registration
import QcloudIot.At.Serial
import QcloudIot.At.Links
import QcloudIot.Gateway.Binding

import GrpcWebnext.Library.Machine
import GrpcWebnext.Library.Framing
import GrpcWebnext.FetchRequest
import GrpcWebnext.FetchUpload
import GrpcWebnext.Library.Text
import GrpcWebnext.Library.Utf8
import GrpcWebnext.PercentDecode
import GrpcWebnext.HttpRule.Template
import GrpcWebnext.HttpRule.Grammar
import GrpcWebnext.HttpRule.Matching
import GrpcWebnext.Metadata
import GrpcWebnext.Ws.Frame
import GrpcWebnext.Ws.RustServer
import GrpcWebnext.Ws.RustStreams
import GrpcWebnext.Ws.GoServer
import GrpcWebnext.Ws.GoStreams
import GrpcWebnext.Ws.OneCall
import GrpcWebnext.Ws.RustOutbound
import GrpcWebnext.Ws.GoOutbound
import GrpcWebnext.Ws.Outbound
import GrpcWebnext.Ws.Drain
import GrpcWebnext.Ws.AfterDrain
import GrpcWebnext.Backend
import GrpcWebnext.FetchResponse
import GrpcWebnext.Ws.Pump
import GrpcWebnext.H2ts.Status
import GrpcWebnext.H2ts.Response
import GrpcWebnext.NoSilentOk
import GrpcWebnext.Library.ProtoWire
import GrpcWebnext.TrailerCodec
import GrpcWebnext.FetchStatus
import GrpcWebnext.H2ts.Transport
import GrpcWebnext.HttpRule.Bind
import GrpcWebnext.HttpRule.Integers
import GrpcWebnext.HttpRule.Coercion
import GrpcWebnext.HttpRule.FieldPath
import GrpcWebnext.HttpRule.QueryText
import GrpcWebnext.HttpRule.PathVariables
import GrpcWebnext.Ws.Requests
import GrpcWebnext.Ws.RestBinding
import GrpcWebnext.Library.Number
import GrpcWebnext.Library.TokenBucket
import GrpcWebnext.NodeClient.Retry
import GrpcWebnext.NodeClient.Calls
import GrpcWebnext.NodeClient.OkIsFinal
import GrpcWebnext.NodeClient.Cancel
import GrpcWebnext.SameOutcome
import GrpcWebnext.Ws.Intake
import GrpcWebnext.Ws.RustIntake
import GrpcWebnext.Ws.GoIntake
import GrpcWebnext.Ws.Delivery
import GrpcWebnext.Ws.Bodyless
import GrpcWebnext.Ws.Codec
import GrpcWebnext.Ws.CodecLock
import GrpcWebnext.HttpRule.GoTemplate
import GrpcWebnext.HttpRule.Spelled
import GrpcWebnext.HttpRule.SameDecoding
import GrpcWebnext.HttpRule.SameRoutes
import GrpcWebnext.HttpRule.Router
import GrpcWebnext.Routing
import GrpcWebnext.Library.Json
import GrpcWebnext.Ws.JsonText
import GrpcWebnext.NodeClient.JsonFrames
import GrpcWebnext.Ws.JsonReading
import GrpcWebnext.Ws.JsonAlike
import GrpcWebnext.NodeClient.CommitRule
import GrpcWebnext.NodeClient.Throttling
import GrpcWebnext.NodeClient.Readable
import GrpcWebnext.NodeClient.Parked
import GrpcWebnext.NodeClient.Outcomes
import GrpcWebnext.NodeClient.OneOutcome
import GrpcWebnext.NodeClient.Failures
import GrpcWebnext.NodeClient.Timeout
import GrpcWebnext.RustClient.Tunnel
import GrpcWebnext.H2ts.Connectivity
import GrpcWebnext.Deadline.RunStream
import GrpcWebnext.Deadline.UnaryProto
import GrpcWebnext.Deadline.WholeCall
import GrpcWebnext.Library.Duration
import GrpcWebnext.Deadline.Forwarded
import GrpcWebnext.JsonUpload
import GrpcWebnext.Deadline.Overflow
import GrpcWebnext.Library.Base64
import GrpcWebnext.Library.Fallible
import GrpcWebnext.MetadataParity.Headers
import GrpcWebnext.MetadataParity.RoundTrip
import GrpcWebnext.MetadataParity.Dispatched
import GrpcWebnext.Schema
import GrpcWebnext.RustClient.Status
import GrpcWebnext.RustClient.Streaming
import GrpcWebnext.RustClient.StreamEnd
import GrpcWebnext.FetchCodec
import GrpcWebnext.FetchJson
import GrpcWebnext.ResponseBody
import GrpcWebnext.StreamedBody
import GrpcWebnext.Deframing
import GrpcWebnext.H2ts.SizeLimit
import GrpcWebnext.RustClient.Chunking
import GrpcWebnext.HttpRule.Expansion
import GrpcWebnext.HttpRule.ExactDecoding
import GrpcWebnext.HttpRule.BodyField
import GrpcWebnext.HttpRule.Repeated
import GrpcWebnext.Library.JsonSyntax
import GrpcWebnext.HttpRule.FieldBody
import GrpcWebnext.Reflect.DescriptorSet
import GrpcWebnext.Library.DepthFirst
import GrpcWebnext.Reflect.TopoSort
import GrpcWebnext.Reflect.Driver
import GrpcWebnext.GrpcMessage
import GrpcWebnext.NodeClient.MetadataForm
import GrpcWebnext.NodeClient.MetadataHeaders
import GrpcWebnext.GoDispatch.Trailers
import GrpcWebnext.GoDispatch.Writer
import GrpcWebnext.Shutdown.GoServer
import GrpcWebnext.Shutdown.RustServer
import GrpcWebnext.RustClient.Unary
import GrpcWebnext.Reflect.LoadAll
import GrpcWebnext.Library.ProtoMessage
import GrpcWebnext.FrameCodec
import GrpcWebnext.NodeClient.SingleStream
import GrpcWebnext.NodeClient.Upload
import GrpcWebnext.NodeClient.Download
import GrpcWebnext.RustClient.TonicService
import GrpcWebnext.NodeClient.Handshake
import GrpcWebnext.Library.Watchdog
import GrpcWebnext.Ws.Keepalive
import GrpcWebnext.Library.Collapse
import GrpcWebnext.RustClient.StateWatch
import GrpcWebnext.NodeClient.MetadataFrames

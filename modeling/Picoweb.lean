import Picoweb.Picowal.Refinement
import Picoweb.Picowal.Crash
import Picoweb.Picowal.Interrupted
import Picoweb.Http.Target
import Picoweb.Http.Framing
import Picoweb.Http.Case
import Picoweb.Gossip.Election
import Picoweb.Picowal.Lease
import Picoweb.Partition.SingleOwner
import Picoweb.Validate.History
import Picoweb.Query.Cache
import Picoweb.Brotli.RoundTrip
import Picoweb.Uring.Send
import Picoweb.Tls.Closed
import Picoweb.Partition.FanOut
import Picoweb.Server.ApiCalls
import Picoweb.Server.Pipelining
import Picoweb.Tls.Replies
import Picoweb.Tcp.Lifecycle
import Picoweb.Tcp.Send
import Picoweb.Tcp.Slots
import Picoweb.Tcp.Stream
import Picoweb.Tls.Pipe
import Picoweb.Tls.EarlyData
import Picoweb.Tls.Secrets
import Picoweb.Tls.Verified
import Picoweb.Crypto.P256Exact
import Picoweb.Crypto.Poly1305Exact
import Picoweb.Crypto.X25519Exact
import Picoweb.Tcp.Ip
import Picoweb.Quic.Payloads
import Picoweb.Quic.Pinning
import Picoweb.Picowal.Acks
import Picoweb.Picowal.Follow
import Picoweb.Picowal.Slots

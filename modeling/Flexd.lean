import Flexd.AbSplit
import Flexd.AbSplit.Concurrent
import Flexd.AbSplit.Shares
import Flexd.Acme.Challenges
import Flexd.Acme.Domains
import Flexd.Acme.Expiry
import Flexd.Acme.Issue
import Flexd.Acme.Persist
import Flexd.Acme.Retry
import Flexd.Balance
import Flexd.Balance.Fairness
import Flexd.Balance.Gauges
import Flexd.Balance.LeastConn
import Flexd.Config.Load
import Flexd.Config.LoadFilter
import Flexd.Config.Schema
import Flexd.Config.Validate
import Flexd.External
import Flexd.Handler.Admitted
import Flexd.Handler.Agreement
import Flexd.Handler.Checks
import Flexd.Handler.Codings
import Flexd.Handler.Containment
import Flexd.Handler.Dispatch
import Flexd.Handler.Distribution
import Flexd.Handler.Entry
import Flexd.Handler.Failover
import Flexd.Handler.Framing
import Flexd.Handler.GeoIp
import Flexd.Handler.Locations
import Flexd.Handler.Mediation
import Flexd.Handler.Relay
import Flexd.Handler.SelectUpstream
import Flexd.Handler.Servable
import Flexd.Handler.Service
import Flexd.Handler.StaticRouting
import Flexd.Handler.Tunnel
import Flexd.Http.Authority
import Flexd.Http.Header
import Flexd.Http.Message
import Flexd.Lib.BoundedTable
import Flexd.Lib.Broadcast
import Flexd.Lib.BufRead
import Flexd.Lib.ByteReader
import Flexd.Lib.Check
import Flexd.Lib.Codings
import Flexd.Lib.Credentials
import Flexd.Lib.FileTree
import Flexd.Lib.Ip
import Flexd.Lib.IpText
import Flexd.Lib.Machine
import Flexd.Lib.MultiMap
import Flexd.Lib.Networks
import Flexd.Lib.Numerals
import Flexd.Lib.Paths
import Flexd.Lib.Percent
import Flexd.Lib.Precedes
import Flexd.Lib.Scan
import Flexd.Lib.Spans
import Flexd.Lib.Spelling
import Flexd.Lib.Text
import Flexd.Lib.Traced
import Flexd.Lib.Wildcard
import Flexd.Logging
import Flexd.Proxy.Attribution
import Flexd.Proxy.Client
import Flexd.Proxy.Target
import Flexd.Resolver
import Flexd.Resolver.Concurrent
import Flexd.Resolver.Pinning
import Flexd.Rewrite
import Flexd.Security.AddressRanges
import Flexd.Security.Decoders
import Flexd.Security.Forwarding
import Flexd.Security.Headers
import Flexd.Security.HostNames
import Flexd.Security.HostPolicy
import Flexd.Security.HostPort
import Flexd.Security.Limits
import Flexd.Security.Nomination
import Flexd.Security.Privilege
import Flexd.Security.RateLimit
import Flexd.Security.UpstreamFilter
import Flexd.Security.UriClean
import Flexd.Security.UriSlices
import Flexd.Security.UriValidate
import Flexd.Server.AcceptLoop
import Flexd.Server.Bind
import Flexd.Server.BodyCap
import Flexd.Server.Daemon
import Flexd.Server.HeaderEnd
import Flexd.Server.Http2
import Flexd.Server.HttpLoop
import Flexd.Server.InForce
import Flexd.Server.LineEndings
import Flexd.Server.Mail
import Flexd.Server.Notify
import Flexd.Server.PollRead
import Flexd.Server.Provenance
import Flexd.Server.Reload
import Flexd.Server.Renewal
import Flexd.Server.Responses
import Flexd.Server.Shutdown
import Flexd.Server.Startup
import Flexd.Server.StreamProxy
import Flexd.StaticFile
import Flexd.StaticFile.Beneath
import Flexd.StaticFile.Decoding
import Flexd.StaticFile.Tree
import Flexd.Tls

import Flexd.Lib.Ip

/-!
# The configuration file

The typed mirror of the configuration file, with the defaults of its fields.
A field that the program compares with fixed words is an enumeration with a
case for every other word. Fields that no function of the model reads
(worker counts, log paths other than the access log, the HTTP/3 table size)
are left out.
-/

namespace Flexd

open Lib

inductive Protocol where
  | tcp | http | tls | https | quic | h3 | http3
  | unknown (name : Text)
  deriving DecidableEq

structure ListenDirective where
  port : UInt16
  protocol : Protocol := .tcp
  address : Option Text := none
  deriving DecidableEq

inductive Strategy where
  | roundRobin | leastConn | ipHash
  | unknown (name : Text)
  deriving DecidableEq

structure UpstreamServer where
  address : Text
  weight : UInt32 := 1
  deriving DecidableEq

structure UpstreamRef where
  name : Text
  servers : List UpstreamServer := []
  strategy : Strategy := .roundRobin
  deriving DecidableEq

inductive HandlerType where
  | static | proxy | reverseProxy | «return» | redirect | deny
  | unknown (name : Text)
  deriving DecidableEq

/-- Whether the handler proxies, under either of its two names. -/
def HandlerType.isProxy : HandlerType → Bool
  | .proxy | .reverseProxy => true
  | _ => false

structure Handler where
  handlerType : HandlerType
  root : Option Text := none
  upstream : Option UpstreamRef := none
  target : Option Text := none
  status : Option UInt16 := none
  abSplit : Option Text := none
  deriving DecidableEq

inductive MatchType where
  | exact | startsWith | regex
  | unknown (name : Text)
  deriving DecidableEq

structure Location where
  pattern : Text
  matchType : MatchType := .startsWith
  handler : Handler
  deriving DecidableEq

inductive RewriteFlag where
  | «break» | last | redirect | permanent
  | unknown (name : Text)
  deriving DecidableEq

structure RewriteRule where
  pattern : Text
  replacement : Text
  flag : RewriteFlag := .break
  deriving DecidableEq

structure AbGroup where
  name : Text
  upstream : Text
  weight : UInt32
  deriving DecidableEq

structure AbSplit where
  name : Text
  sticky : Bool := false
  groups : List AbGroup
  deriving DecidableEq

structure WebhookConfig where
  url : Text
  authHeader : Option Text := none
  deriving DecidableEq

structure EabConfig where
  kid : Text
  hmacKey : Text
  deriving DecidableEq

structure AcmeConfig where
  enabled : Bool := false
  email : Text := []
  caEndpoint : Text := "https://acme-v02.api.letsencrypt.org/directory".toList
  staging : Bool := false
  domains : List Text := []
  challengeTypes : List Text := ["http-01".toList, "tls-alpn-01".toList]
  dnsWebhook : Option WebhookConfig := none
  eab : Option EabConfig := none
  httpChallengePort : Option UInt16 := none
  agreeTos : Bool := false
  caRoot : Option Text := none
  certDir : Text := "./acme".toList
  renewalCheckIntervalSecs : Option Nat := none
  deriving DecidableEq

structure SslSettings where
  certificate : Option Text := none
  certificateKey : Option Text := none
  acme : Option AcmeConfig := none
  protocols : List Text := ["TLSv1.2".toList, "TLSv1.3".toList]
  deriving DecidableEq

inductive HostPolicy where
  | strict | list | any
  | unknown (name : Text)
  deriving DecidableEq

/-- One virtual server. -/
structure HttpBlock where
  listen : List ListenDirective
  serverName : List Text := []
  root : Option Text := none
  ssl : Option SslSettings := none
  http3 : Bool := false
  locations : List Location := []
  rewrites : List RewriteRule := []
  geoipDb : Option Text := none
  abSplits : List AbSplit := []
  maxHeaderSize : Option Nat := none
  maxBodySize : Option Nat := none
  rejectAmbiguousFraming : Bool := true
  normalizeHeadersBeforeProxy : Bool := true
  hostHeaderPolicy : HostPolicy := .strict
  allowedHosts : Option (List Text) := none
  rejectHeadersWithControlChars : Bool := true
  allowConnect : Bool := false
  connectUpstream : Option UpstreamRef := none
  connectAllowedTargets : Option (List Text) := none
  trustedProxies : Option (List Text) := none
  upstreamAllowedNetworks : Option (List Text) := none
  maxHeaderCount : Option Nat := none
  maxDecompressionRatio : Option Nat := none
  maxDecompressionSize : Option Nat := none
  upstreams : List UpstreamRef := []
  dnsCacheTtlSeconds : Option Nat := none
  hstsMaxAge : Option Nat := none
  maxUpstreamResponseSize : Option Nat := none
  deriving DecidableEq

structure StreamBlock where
  listen : ListenDirective
  upstream : UpstreamRef
  deriving DecidableEq

structure MailBlock where
  listen : List ListenDirective
  upstream : UpstreamRef
  deriving DecidableEq

structure Config where
  http : List HttpBlock
  stream : List StreamBlock := []
  mail : Option MailBlock := none
  deriving DecidableEq

/-- `config::resolve_upstream`: the first shared pool of that name. -/
def resolveUpstream (block : HttpBlock) (name : Text) : Option UpstreamRef :=
  block.upstreams.find? fun u => u.name = name

end Flexd

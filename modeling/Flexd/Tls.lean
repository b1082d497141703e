import Flexd.Config.Schema
import Flexd.External

/-!
# TLS acceptors

`buildTlsAcceptor` and `buildTlsAcceptorAcme` load a certificate chain and a
key and make an acceptor of them, `buildQuinnFromPaths` makes a QUIC
configuration of the first certificate. Every load can fail; what the files
hold and what rustls makes of it at the time of a build is a `TlsFiles`.
`present` is the chain a client is shown.
-/

namespace Flexd

open Lib

inductive TlsVersion where
  | tls12 | tls13
  deriving DecidableEq

/-- The certificate and key files at the time of a build. -/
structure TlsFiles where
  opens : Text → Bool
  /-- The PEM certificates of a file, none if it does not parse. -/
  certs : Text → Option (List Bytes)
  pkcs8Keys : Text → Option (List Bytes)
  rsaKeys : Text → Option (List Bytes)
  /-- Whether rustls accepts a chain with a key. -/
  acceptsPair : List Bytes → Bytes → Bool
  /-- Whether a key is of a supported type. -/
  supportedKey : Bytes → Bool

structure TlsAcceptor where
  chain : List Bytes
  key : Bytes
  versions : List TlsVersion
  alpn : List Text
  /-- The acceptor also answers TLS-ALPN-01 challenges. -/
  challenges : Bool
  deriving DecidableEq

inductive TlsError where
  | certificateUnset
  | keyUnset
  | openCertificate (path : Text)
  | parseCertificate (path : Text)
  | noCertificates (path : Text)
  | openKey (path : Text)
  | parseRsaKey (path : Text)
  | noKeys (path : Text)
  | serverConfig
  | signingKey (path : Text)
  | quicCertificateUnset
  | quicKeyUnset
  | noCertificate
  | quicTlsConfig
  deriving DecidableEq

def TlsError.message : TlsError → Text
  | .certificateUnset => "TLS certificate path not configured".toList
  | .keyUnset => "TLS private key path not configured".toList
  | .openCertificate p => "Failed to open certificate: ".toList ++ p
  | .parseCertificate p => "Failed to parse certificate: ".toList ++ p
  | .noCertificates p => "No certificates found in ".toList ++ p
  | .openKey p => "Failed to open private key: ".toList ++ p
  | .parseRsaKey p => "Failed to parse RSA key: ".toList ++ p
  | .noKeys p => "No private keys found in ".toList ++ p
  | .serverConfig => "Failed to build TLS server config".toList
  | .signingKey p => "loading signing key ".toList ++ p
  | .quicCertificateUnset => "TLS certificate path not configured for QUIC".toList
  | .quicKeyUnset => "TLS private key path not configured for QUIC".toList
  | .noCertificate => "No certificate found".toList
  | .quicTlsConfig => "Failed to build QUIC TLS config".toList

variable (ext : External) (files : TlsFiles)

def loadCertificate (path : Text) : Except TlsError (List Bytes) :=
  if files.opens path then
    match files.certs path with
    | none => .error (.parseCertificate path)
    | some [] => .error (.noCertificates path)
    | some certs => .ok certs
  else .error (.openCertificate path)

/-- The first PKCS#8 key of a file, else its first RSA key. -/
def loadPrivateKey (path : Text) : Except TlsError Bytes :=
  if files.opens path then
    match (files.pkcs8Keys path).bind List.head? with
    | some key => .ok key
    | none =>
      match files.rsaKeys path with
      | none => .error (.parseRsaKey path)
      | some [] => .error (.noKeys path)
      | some (key :: _) => .ok key
  else .error (.openKey path)

/-- The configured versions, both if none is. -/
def tlsVersions (protocols : List Text) : List TlsVersion :=
  let versions := protocols.filterMap fun proto =>
    let p := ext.toUppercase proto
    if p = "TLSV1.2".toList then some .tls12
    else if p = "TLSV1.3".toList then some .tls13
    else none
  if versions = [] then [.tls13, .tls12] else versions

def buildTlsAcceptor (ssl : SslSettings) : Except TlsError TlsAcceptor :=
  match ssl.certificate, ssl.certificateKey with
  | none, _ => .error .certificateUnset
  | some _, none => .error .keyUnset
  | some certPath, some keyPath => do
    let chain ← loadCertificate files certPath
    let key ← loadPrivateKey files keyPath
    if files.acceptsPair chain key then
      return ⟨chain, key, tlsVersions ext ssl.protocols, ["h2".toList, "http/1.1".toList], false⟩
    else .error .serverConfig

/-- `acme::load_certified_key`. -/
def loadCertifiedKey (certPath keyPath : Text) : Except TlsError (List Bytes × Bytes) := do
  let chain ← loadCertificate files certPath
  let key ← loadPrivateKey files keyPath
  if files.supportedKey key then return (chain, key) else .error (.signingKey keyPath)

def buildTlsAcceptorAcme (certPath keyPath : Text) (protocols : List Text) :
    Except TlsError TlsAcceptor := do
  let (chain, key) ← loadCertifiedKey files certPath keyPath
  return ⟨chain, key, tlsVersions ext protocols,
    ["h2".toList, "http/1.1".toList, "acme-tls/1".toList], true⟩

/-! ## QUIC -/

/-- A QUIC server configuration: the certificate it presents, and the key. -/
structure QuicConfig where
  cert : Bytes
  key : Bytes
  deriving DecidableEq

def buildQuinnFromPaths (certPath keyPath : Text) : Except TlsError QuicConfig := do
  let chain ← loadCertificate files certPath
  match chain with
  | [] => .error .noCertificate
  | cert :: _ =>
    let key ← loadPrivateKey files keyPath
    if files.acceptsPair [cert] key then return ⟨cert, key⟩ else .error .quicTlsConfig

def buildQuinnServerConfig (ssl : SslSettings) : Except TlsError QuicConfig :=
  match ssl.certificate, ssl.certificateKey with
  | none, _ => .error .quicCertificateUnset
  | some _, none => .error .quicKeyUnset
  | some certPath, some keyPath => buildQuinnFromPaths files certPath keyPath

/-! ## Handshakes -/

/-- What a client opens a handshake with. -/
structure ClientHello where
  alpn : Option (List Text)
  serverName : Option Text
  deriving DecidableEq

/-- The client asks for a TLS-ALPN-01 challenge. -/
def ClientHello.acmeAlpn (hello : ClientHello) : Bool :=
  hello.alpn.any fun protos => protos.any (· = "acme-tls/1".toList)

/-- `AcmeResolver::resolve`: the staged challenge certificate, if there is one, for a client that
asks for it, and the default chain for every other client. -/
def acmeResolve (default : List Bytes) (tlsAlpn : Text → Option (List Bytes))
    (hello : ClientHello) : Option (List Bytes) :=
  if hello.acmeAlpn then hello.serverName.bind tlsAlpn else some default

/-- The chain an acceptor presents, given the staged challenge certificates. -/
def TlsAcceptor.present (a : TlsAcceptor) (tlsAlpn : Text → Option (List Bytes))
    (hello : ClientHello) : Option (List Bytes) :=
  if a.challenges then acmeResolve a.chain tlsAlpn hello else some a.chain

theorem TlsAcceptor.present_ordinary (a : TlsAcceptor) (tlsAlpn : Text → Option (List Bytes))
    {hello : ClientHello} (h : hello.acmeAlpn = false) :
    a.present tlsAlpn hello = some a.chain := by
  unfold TlsAcceptor.present acmeResolve
  rw [h]
  split <;> rfl

end Flexd

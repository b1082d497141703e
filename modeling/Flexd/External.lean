import Flexd.Http.Message
import Flexd.Lib.Ip

/-!
# Code outside the repository

`External` collects what flexd calls in other crates and in the Unicode
tables of the standard library: parsers, the regex engine, the gzip decoder,
the GeoIP database. `Hashers` are the two uses of the default hasher, whose
algorithm the standard library leaves open. Everything proved later holds
for any such functions.
-/

namespace Flexd

open Lib

/-- A compiled regular expression. -/
structure Regex where
  isMatch : Text → Bool
  /-- Replace the first match in a text, by a replacement with capture references. -/
  replace : Text → Text → Text

/-- What a GeoIP database knows about an address. -/
structure GeoIpInfo where
  country : Option Text
  city : Option Text
  continent : Option Text
  isoCode : Option Text

structure External where
  /-- Whether `"http://" ++ s` parses as a URI. -/
  uriAccepts : Text → Bool
  /-- `PathAndQuery::from_str`; a fragment is dropped. -/
  pathAndQuery : Text → Option PathAndQuery
  pathAndQuery_text : ∀ {t pq}, pathAndQuery t = some pq → pq.text = t.takeWhile (· ≠ '#')
  canonicalReason : StatusCode → Option Text
  /-- `Regex::new`. -/
  regex : Text → Option Regex
  /-- `IpNetwork::from_str`. -/
  network : Text → Option IpNetwork
  toLowercase : Text → Text
  toUppercase : Text → Text
  /-- The decoder's output, and whether it ends in an error. -/
  gunzip : Bytes → Bytes × Bool
  /-- `GeoIpService::new` on a path, and the lookups of the opened database. -/
  geoip : Text → Option (IpAddr → Option GeoIpInfo)

structure Hashers where
  /-- The hash of a session identifier and a split name. -/
  session : Text → Text → UInt64
  /-- The hash of a client address. -/
  ip : IpAddr → UInt64

/-! ## An instance to evaluate with -/

/-- A network in CIDR form, or a single address. -/
def parseCidr (t : Text) : Option IpNetwork :=
  let ip := t.takeWhile (· ≠ '/')
  let bits := (t.dropWhile (· ≠ '/')).tail
  match parseIp ip with
  | some (.v4 ip) =>
    if t.contains '/' then (parseUnsigned 10 33 bits).map fun n => .v4 ip (Fin.ofNat 33 n)
    else some (.v4 ip 32)
  | some (.v6 ip) =>
    if t.contains '/' then (parseUnsigned 10 129 bits).map fun n => .v6 ip (Fin.ofNat 129 n)
    else some (.v6 ip 128)
  | none => none

/-- ASCII case folding, no regular expressions and no GeoIP database, bodies stored rather than
compressed, every URI accepted. -/
def External.sample : External where
  uriAccepts _ := true
  pathAndQuery t :=
    let t := t.takeWhile (· ≠ '#')
    if h : (t = ['*'] ∨ t.head? = some '/') ∧ '#' ∉ t then some ⟨t, h.1, h.2⟩ else none
  pathAndQuery_text := by
    intro t pq h
    simp only at h
    split at h
    · cases h; rfl
    · cases h
  canonicalReason s :=
    [(400, "Bad Request"), (403, "Forbidden"), (404, "Not Found"), (405, "Method Not Allowed"),
      (413, "Payload Too Large"), (431, "Request Header Fields Too Large"),
      (500, "Internal Server Error"), (501, "Not Implemented"), (502, "Bad Gateway"),
      (504, "Gateway Timeout")].lookup s.code |>.map String.toList
  regex _ := none
  network := parseCidr
  toLowercase := asciiLower
  toUppercase t := t.map Char.toUpper
  gunzip b := (b, false)
  geoip _ := none

end Flexd

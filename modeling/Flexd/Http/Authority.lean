import Flexd.Http.Message

/-!
# What the HTTP client reads out of `http://` and an address

The upstream URI is a string that the client parses again. Its authority ends
at the first `/`, `?` or `#`; what precedes the last `@` is userinfo and is
dropped; the host is bracketed or precedes the first `:`; the port follows
the last `:` and is 80 when it is absent or no `u16`. The rest, up to a
fragment, is the path and query.
-/

namespace Flexd

open Lib

/-- The characters an authority runs up to. -/
def endsAuthority (c : Char) : Bool := c = '/' || c = '?' || c = '#'

def authorityOf (s : Text) : Text := s.takeWhile fun c => !endsAuthority c

/-- The host of an authority, without brackets. -/
def hostOf (authority : Text) : Text :=
  match afterLast '@' authority with
  | '[' :: rest => rest.takeWhile (· ≠ ']')
  | hostPort => hostPort.takeWhile (· ≠ ':')

/-- The port of an authority. -/
def portOf (authority : Text) : UInt16 :=
  match rsplitOnce ':' authority with
  | some (_, p) => (parseU16 p).getD 80
  | none => 80

def pathAndQueryOf (s : Text) : Text :=
  match (s.dropWhile fun c => !endsAuthority c).takeWhile (· ≠ '#') with
  | [] => ['/']
  | rest => rest

/-- A parsed upstream URI: where the client connects, and what it asks for. -/
structure UpstreamUri where
  host : Text
  port : UInt16
  pathAndQuery : Text
  deriving DecidableEq

/-- The URI read from `"http://" ++ s`. -/
def readUpstreamUri (s : Text) : UpstreamUri :=
  ⟨hostOf (authorityOf s), portOf (authorityOf s), pathAndQueryOf s⟩

example : readUpstreamUri "u@127.0.0.1:8080/a?b".toList =
    ⟨"127.0.0.1".toList, 8080, "/a?b".toList⟩ := by decide

end Flexd

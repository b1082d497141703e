import Flexd.Http.Header

/-!
# Requests and responses

The messages of the `http` crate, and the request targets it yields. A
`PathAndQuery` starts with `/` or is the asterisk form and has no fragment;
the crate parses nothing else into one.
-/

namespace Flexd

open Lib

structure StatusCode where
  code : Nat
  valid : 100 ≤ code ∧ code < 1000 := by decide
  deriving DecidableEq

namespace StatusCode

def ok : StatusCode := ⟨200, by decide⟩
def movedPermanently : StatusCode := ⟨301, by decide⟩
def badRequest : StatusCode := ⟨400, by decide⟩
def forbidden : StatusCode := ⟨403, by decide⟩
def notFound : StatusCode := ⟨404, by decide⟩
def methodNotAllowed : StatusCode := ⟨405, by decide⟩
def payloadTooLarge : StatusCode := ⟨413, by decide⟩
def requestHeaderFieldsTooLarge : StatusCode := ⟨431, by decide⟩
def internalServerError : StatusCode := ⟨500, by decide⟩
def notImplemented : StatusCode := ⟨501, by decide⟩
def badGateway : StatusCode := ⟨502, by decide⟩
def serviceUnavailable : StatusCode := ⟨503, by decide⟩
def gatewayTimeout : StatusCode := ⟨504, by decide⟩

/-- `StatusCode::from_u16`. -/
def fromU16 (n : UInt16) : Option StatusCode :=
  if h : 100 ≤ n.toNat ∧ n.toNat < 1000 then some ⟨n.toNat, h⟩ else none

end StatusCode

inductive Method where
  | get | head | post | put | delete | patch | options | connect | trace
  | extension (name : Text)
  deriving DecidableEq

inductive Version where
  | http10 | http11 | http2 | http3
  deriving DecidableEq

/-- A request target: an absolute path with an optional query, or `*`. -/
structure PathAndQuery where
  text : Text
  form : text = ['*'] ∨ text.head? = some '/'
  noFragment : '#' ∉ text
  deriving DecidableEq

namespace PathAndQuery

def path (pq : PathAndQuery) : Text := pq.text.takeWhile (· ≠ '?')

def query (pq : PathAndQuery) : Option Text :=
  match pq.text.dropWhile (· ≠ '?') with
  | _ :: q => some q
  | [] => none

/-- The target `/`. -/
def slash : PathAndQuery := ⟨['/'], .inr rfl, by decide⟩

/-- The target `*`, of OPTIONS. -/
def asterisk : PathAndQuery := ⟨['*'], .inl rfl, by decide⟩

end PathAndQuery

/-- The characters of an authority: visible ASCII that does not end it. -/
def isAuthorityChar (c : Char) : Bool :=
  33 ≤ c.toNat && c.toNat ≤ 126 && c ≠ '/' && c ≠ '?' && c ≠ '#'

structure Authority where
  text : Text
  nonempty : text ≠ []
  valid : text.all isAuthorityChar = true
  deriving DecidableEq

structure Uri where
  scheme : Option Text := none
  authority : Option Authority := none
  pathAndQuery : Option PathAndQuery := none
  deriving DecidableEq

namespace Uri

def path (u : Uri) : Text :=
  match u.pathAndQuery with
  | some pq => pq.path
  | none => if u.scheme.isSome then ['/'] else []

def query (u : Uri) : Option Text := u.pathAndQuery.bind PathAndQuery.query

/-- `Uri::from_parts`: a scheme needs an authority and a path, and an authority with a path
needs a scheme. -/
def fromParts (u : Uri) : Option Uri :=
  if u.scheme.isSome then
    if u.authority.isNone || u.pathAndQuery.isNone then none else some u
  else if u.authority.isSome && u.pathAndQuery.isSome then none else some u

def text (u : Uri) : Text :=
  (match u.scheme with | some s => s ++ "://".toList | none => []) ++
    (u.authority.map (·.text)).getD [] ++ u.path ++
    (match u.query with | some q => '?' :: q | none => [])

end Uri

structure Request where
  method : Method
  uri : Uri
  version : Version
  headers : HeaderMap
  body : Bytes
  deriving DecidableEq

/-- `GET /` with the given headers. -/
def Request.get (headers : HeaderMap) : Request :=
  ⟨.get, { pathAndQuery := some .slash }, .http11, headers, []⟩

structure Response where
  status : StatusCode
  headers : HeaderMap
  body : Bytes
  deriving DecidableEq

end Flexd

import Flexd.Http.Header
import Flexd.Lib.Ip

/-!
# Header hygiene at the proxy boundary

`stripHopByHop` removes the per-connection headers and the ones a peer
nominates through `Connection`. `applyForwardingPolicy` rewrites the client
attribution headers, honouring incoming ones only from trusted proxies. For
both, one lemma says what becomes of the values of each name
(`getAll_stripHopByHop`, `getAll_applyForwardingPolicy`), and
`applyForwardingPolicy_agreeOn` that for an untrusted client the attribution
headers of the result do not depend on the incoming ones.
-/

namespace Flexd

open Lib

namespace HeaderName

def xForwardedFor : HeaderName := ⟨"x-forwarded-for".toList, by decide⟩
def forwarded : HeaderName := ⟨"forwarded".toList, by decide⟩
def xRealIp : HeaderName := ⟨"x-real-ip".toList, by decide⟩
def xForwardedHost : HeaderName := ⟨"x-forwarded-host".toList, by decide⟩
def xForwardedProto : HeaderName := ⟨"x-forwarded-proto".toList, by decide⟩

end HeaderName

/-- `HOP_BY_HOP`. -/
def hopByHop : List HeaderName :=
  [.connection, ⟨"keep-alive".toList, by decide⟩, .transferEncoding, ⟨"te".toList, by decide⟩,
    ⟨"trailer".toList, by decide⟩, ⟨"upgrade".toList, by decide⟩,
    ⟨"proxy-authorization".toList, by decide⟩, ⟨"proxy-authenticate".toList, by decide⟩]

/-- `NOMINATION_EXEMPT`. -/
def nominationExempt : List Text := ["host".toList, "content-length".toList]

/-- The tokens the `Connection` values nominate, in lower case. -/
def nominated (headers : HeaderMap) : List Text :=
  (((headers.getAll .connection).filterMap HeaderValue.toStr).flatMap (List.splitOn ',')).map
    (fun t => asciiLower (trim t)) |>.filter fun t => t ≠ [] && t ∉ nominationExempt

/-- The headers that nomination removes. -/
def nominatedNames (headers : HeaderMap) : List HeaderName :=
  (nominated headers).filterMap HeaderName.fromBytes

def stripHopByHop (headers : HeaderMap) : HeaderMap :=
  (headers.removeAll (nominatedNames headers)).removeAll hopByHop

/-- Stripping empties the nominated and the hop-by-hop names, and keeps every other value. -/
theorem getAll_stripHopByHop (headers : HeaderMap) (n : HeaderName) :
    (stripHopByHop headers).getAll n =
      if n ∈ nominatedNames headers ∨ n ∈ hopByHop then [] else headers.getAll n := by
  unfold stripHopByHop
  by_cases hh : n ∈ hopByHop
  · rw [MultiMap.getAll_removeAll_mem hh, if_pos (.inr hh)]
  rw [MultiMap.getAll_removeAll_not_mem hh]
  by_cases hn : n ∈ nominatedNames headers
  · rw [MultiMap.getAll_removeAll_mem hn, if_pos (.inl hn)]
  · rw [MultiMap.getAll_removeAll_not_mem hn, if_neg (by simp [hn, hh])]

/-! ## Attribution -/

/-- `ATTRIBUTION`. -/
def attribution : List HeaderName :=
  [.xForwardedFor, .forwarded, .xRealIp, .xForwardedHost, .xForwardedProto]

/-- Insert a text as a header value, if it is one. -/
def insertStr (headers : HeaderMap) (n : HeaderName) (t : Text) : HeaderMap :=
  match HeaderValue.fromStr t with
  | some v => headers.insert n v
  | none => headers

def insertStrIfAbsent (headers : HeaderMap) (n : HeaderName) (t : Text) : HeaderMap :=
  match HeaderValue.fromStr t with
  | some v => headers.insertIfAbsent n v
  | none => headers

/-- The incoming `X-Forwarded-For` values, joined. -/
def priorXff (headers : HeaderMap) : Text :=
  List.intercalate ", ".toList ((headers.getAll .xForwardedFor).filterMap HeaderValue.toStr)

/-- Whether the client is one of the trusted proxies. -/
def isTrusted (client : IpAddr) (trusted : List IpNetwork) : Bool :=
  trusted.any fun n => n.contains client

def applyForwardingPolicy (headers : HeaderMap) (client : IpAddr) (scheme : Text)
    (originalHost : Option HeaderValue) (trusted : List IpNetwork) : HeaderMap :=
  let prior := if isTrusted client trusted then priorXff headers else []
  let headers := if isTrusted client trusted then headers else headers.removeAll attribution
  let xff := if prior ≠ [] then prior ++ ", ".toList ++ client.text else client.text
  let headers := insertStr headers .xForwardedFor xff
  let headers := insertStrIfAbsent headers .xRealIp client.text
  let headers := insertStrIfAbsent headers .xForwardedProto scheme
  match originalHost with
  | some host => headers.insertIfAbsent .xForwardedHost host
  | none => headers

theorem getAll_insertStr_ne (headers : HeaderMap) {n k : HeaderName} (h : n ≠ k) (t : Text) :
    (insertStr headers k t).getAll n = headers.getAll n := by
  unfold insertStr
  split
  · exact MultiMap.getAll_insert_ne _ h _
  · rfl

theorem getAll_insertStrIfAbsent_ne (headers : HeaderMap) {n k : HeaderName} (h : n ≠ k)
    (t : Text) : (insertStrIfAbsent headers k t).getAll n = headers.getAll n := by
  unfold insertStrIfAbsent
  split
  · exact MultiMap.getAll_insertIfAbsent_ne _ h _
  · rfl

/-- The policy touches the attribution headers alone. -/
theorem getAll_applyForwardingPolicy {headers : HeaderMap} {client : IpAddr} {scheme : Text}
    {originalHost : Option HeaderValue} {trusted : List IpNetwork} {n : HeaderName}
    (h : n ∉ attribution) :
    (applyForwardingPolicy headers client scheme originalHost trusted).getAll n =
      headers.getAll n := by
  have hn : n ≠ .xForwardedFor ∧ n ≠ .forwarded ∧ n ≠ .xRealIp ∧ n ≠ .xForwardedHost ∧
      n ≠ .xForwardedProto := by
    simpa [attribution] using h
  obtain ⟨h1, -, h3, h4, h5⟩ := hn
  have hbase : (if isTrusted client trusted then headers
      else headers.removeAll attribution).getAll n = headers.getAll n := by
    split
    · rfl
    · exact MultiMap.getAll_removeAll_not_mem h _
  unfold applyForwardingPolicy
  cases originalHost with
  | none =>
    simp only
    rw [getAll_insertStrIfAbsent_ne _ h5, getAll_insertStrIfAbsent_ne _ h3,
      getAll_insertStr_ne _ h1, hbase]
  | some host =>
    simp only
    rw [MultiMap.getAll_insertIfAbsent_ne _ h4, getAll_insertStrIfAbsent_ne _ h5,
      getAll_insertStrIfAbsent_ne _ h3, getAll_insertStr_ne _ h1, hbase]

section Agree

variable {S : HeaderName → Prop} {h₁ h₂ : HeaderMap}

theorem insertStr_agreeOn (h : MultiMap.AgreeOn S h₁ h₂) (n : HeaderName) (t : Text) :
    MultiMap.AgreeOn S (insertStr h₁ n t) (insertStr h₂ n t) := by
  unfold insertStr
  split
  · exact h.insert _ _
  · exact h

theorem insertStrIfAbsent_agreeOn (h : MultiMap.AgreeOn S h₁ h₂) (n : HeaderName) (t : Text) :
    MultiMap.AgreeOn S (insertStrIfAbsent h₁ n t) (insertStrIfAbsent h₂ n t) := by
  unfold insertStrIfAbsent
  split
  · exact h.insertIfAbsent _ _
  · exact h

/-- **Attribution of an untrusted client is rewritten from scratch**: on the attribution names
the results agree, whatever the incoming headers. -/
theorem applyForwardingPolicy_agreeOn {client : IpAddr} {trusted : List IpNetwork}
    (hu : isTrusted client trusted = false) (h : MultiMap.AgreeOn S h₁ h₂) (scheme : Text)
    (originalHost : Option HeaderValue) :
    MultiMap.AgreeOn (fun n => S n ∨ n ∈ attribution)
      (applyForwardingPolicy h₁ client scheme originalHost trusted)
      (applyForwardingPolicy h₂ client scheme originalHost trusted) := by
  have hbase := h.removeAll attribution
  unfold applyForwardingPolicy
  simp only [hu, Bool.false_eq_true, if_false]
  cases originalHost with
  | none =>
    exact insertStrIfAbsent_agreeOn (insertStrIfAbsent_agreeOn
      (insertStr_agreeOn hbase _ _) _ _) _ _
  | some host =>
    exact (insertStrIfAbsent_agreeOn (insertStrIfAbsent_agreeOn
      (insertStr_agreeOn hbase _ _) _ _) _ _).insertIfAbsent _ _

/-- Maps that agree on `Connection` lose the same names, and stay in agreement elsewhere. -/
theorem stripHopByHop_agreeOn (h : MultiMap.AgreeOn S h₁ h₂) (hc : S .connection) :
    MultiMap.AgreeOn S (stripHopByHop h₁) (stripHopByHop h₂) := by
  have hnom : nominatedNames h₁ = nominatedNames h₂ := by
    simp only [nominatedNames, nominated, h _ hc]
  intro n hn
  rw [getAll_stripHopByHop, getAll_stripHopByHop, hnom, h n hn]

end Agree

end Flexd

import Flexd.Handler.GeoIp

/-!
# The host and the framing that go upstream

A request passes decompression, rewriting and the GeoIP stamp on its way to
`forward`, which strips, stamps and inserts headers once more.
`process_sent_framed` follows `Host` and the framing headers all the way: the one
`Host` that is sent is the value that the host policy accepted, and nothing of
the client's framing is left.
-/

namespace Flexd

open Lib HandlerService

variable {ext : External} {svc : HandlerService} {req : Request} {client : IpAddr}
  {p : ProxyClient}

/-- The host policy accepts the first `Host` of every admitted request. -/
theorem validateHost_of_admission {admitted : Admitted}
    (h : svc.admission ext req client = .ok admitted) :
    validateHost ext (HeaderMap.getStr req.headers .host) svc.httpBlock = true := by
  unfold admission at h
  simp only [bind_ok] at h
  obtain ⟨-, -, -, -, req', hd, _, hhost, -⟩ := h
  have hget : req'.headers.getAll .host = req.headers.getAll .host := by
    rcases (maybeDecompress_ok (orRefuse_ok.mp hd)).2.2 with hh | hh
    · rw [hh]
    · rw [hh, MultiMap.getAll_remove_ne _ (by decide)]
  have hvalid := require_ok.mp hhost
  rwa [HeaderMap.getStr, MultiMap.get, hget] at hvalid

/-- A policy that asks for a host accepts only a readable one. -/
theorem host_of_validateHost {block : HttpBlock} {host : Option Text}
    (hp : block.hostHeaderPolicy = .strict ∨ block.hostHeaderPolicy = .list)
    (h : validateHost ext host block = true) : ∃ t, host = some t := by
  cases host with
  | some t => exact ⟨t, rfl⟩
  | none => rcases hp with hp | hp <;> simp [validateHost, hp] at h

/-- Nothing that frames the client's message survives cleaning. -/
theorem getAll_cleanHeaders_framing {headers : HeaderMap} {scheme : Text} {n : HeaderName}
    (hn : n ∈ .contentLength :: hopByHop) :
    (p.cleanHeaders headers client scheme).getAll n = [] := by
  have hattribution : ∀ n ∈ .contentLength :: hopByHop, n ∉ attribution := by decide
  have hbase : ((stripHopByHop headers).remove .contentLength).getAll n = [] := by
    rcases List.mem_cons.mp hn with rfl | hhop
    · exact MultiMap.getAll_remove_self _ _
    · by_cases hcl : n = .contentLength
      · rw [hcl]
        exact MultiMap.getAll_remove_self _ _
      · rw [MultiMap.getAll_remove_ne _ hcl, getAll_stripHopByHop, if_pos (.inr hhop)]
  unfold ProxyClient.cleanHeaders
  simp only
  split
  · rw [getAll_applyForwardingPolicy (hattribution n hn), hbase]
  · exact hbase

/-- The host that is sent is the client's. -/
theorem getAll_upstreamHeaders_host {addr : Text} {headers sent : HeaderMap} {scheme : Text}
    {v : HeaderValue} (hv : headers.get .host = some v)
    (h : p.upstreamHeaders addr headers client scheme = .ok sent) : sent.getAll .host = [v] := by
  unfold ProxyClient.upstreamHeaders at h
  rw [hv] at h
  cases h
  exact MultiMap.getAll_insert_self _ _ _

/-- **The host that was checked is the host that is sent**, once, and without the client's framing:
whatever the headers of a request that `process` proxies under a strict or list policy. -/
theorem process_sent_framed {world : World} {st : ServiceState} {m : UpstreamRequest}
    (hp : svc.httpBlock.hostHeaderPolicy = .strict ∨ svc.httpBlock.hostHeaderPolicy = .list)
    (h : m ∈ (svc.process ext req client world st).sent) :
    (∃ v t, req.headers.get .host = some v ∧ v.toStr = some t ∧
      validateHost ext (some t) svc.httpBlock = true ∧ m.headers.getAll .host = [v]) ∧
    m.headers.getAll .contentLength = [] ∧ ∀ n ∈ hopByHop, m.headers.getAll n = [] := by
  obtain ⟨path, req', addr, hadm, hm⟩ := process_sent h
  have hheaders := (buildRequest_ok hm).2
  obtain ⟨host, hsent⟩ := upstreamHeaders_eq hheaders
  have hframing : ∀ n ∈ .contentLength :: hopByHop, m.headers.getAll n = [] := by
    intro n hn
    have hne : n ≠ .host := by
      rintro rfl
      exact absurd hn (by decide)
    rw [hsent, MultiMap.getAll_insert_ne _ hne, getAll_cleanHeaders_framing hn]
  refine ⟨?_, hframing _ List.mem_cons_self, fun n hn => hframing n (List.mem_cons_of_mem _ hn)⟩
  have hvalid := validateHost_of_admission hadm
  obtain ⟨t, ht⟩ := host_of_validateHost hp hvalid
  obtain ⟨v, hv, hread⟩ := Option.bind_eq_some_iff.mp ht
  refine ⟨v, t, hv, hread, by rw [← ht]; exact hvalid, getAll_upstreamHeaders_host ?_ hheaders⟩
  -- the stamp and the decompression leave `Host` alone
  obtain ⟨headers, hstamp, hsame⟩ := admission_routed hadm
  rw [MultiMap.get, hstamp, getAll_stampGeoip_ne _ (by decide), hsame _ (by decide)]
  exact hv

namespace Sample

/-- A block that proxies, under the strict policy. -/
def strictBlock : HttpBlock :=
  { geoBlock with hostHeaderPolicy := .strict, serverName := ["example.org".toList] }

def strictService : HandlerService := .new geoExternal (.const 0) strictBlock none false

/-- A request with two hosts, that nominates `Host` and declares a length. -/
def twoHosts : Request :=
  .get [(.host, ⟨utf8 "example.org".toList, by decide⟩),
    (.host, ⟨utf8 "other.example".toList, by decide⟩),
    (.connection, ⟨utf8 "host".toList, by decide⟩),
    (.contentLength, ⟨utf8 "0".toList, by decide⟩)]

/-- What `process` sends for it. -/
def strictSent : List UpstreamRequest :=
  (strictService.process geoExternal twoHosts (.v4 ⟨203, 0, 113, 9⟩) .refusing
    (.init strictBlock)).sent

end Sample

open Sample

theorem process_sent_framed_two :
    (strictService.httpBlock.hostHeaderPolicy = .strict ∨
      strictService.httpBlock.hostHeaderPolicy = .list) ∧
    ∃ m ∈ strictSent, m.headers.getAll .contentLength = [] ∧
      ∀ n ∈ hopByHop, m.headers.getAll n = [] := by
  have hone : strictSent.length = 1 := by decide +kernel
  obtain ⟨m, hm⟩ := List.length_eq_one_iff.mp hone
  have hsent : m ∈ strictSent := by
    rw [hm]
    exact List.mem_singleton_self m
  exact ⟨.inl rfl, m, hsent, (process_sent_framed (.inl rfl) hsent).2⟩

end Flexd

import Flexd.Handler.Dispatch

/-!
# The GeoIP headers upstreams see

`stampGeoip` replaces the `x-geoip-` headers of a request by what the
database says about the peer. `forward` still drops what the client nominates
through `Connection`, after the stamp: `process_sent_geo_iff` says that this is
the only way a looked-up value gets lost.
-/

namespace Flexd

open Lib

namespace HandlerService

/-- The field of a lookup result that a header carries. -/
def geoField (info : GeoIpInfo) (n : HeaderName) : Option Text :=
  if n = geoCountry then info.isoCode
  else if n = geoCity then info.city
  else if n = geoContinent then info.continent
  else none

/-- The values a GeoIP header has to have: the looked-up one if it is a header value, else none. -/
def geoValues (svc : HandlerService) (client : IpAddr) (n : HeaderName) : List HeaderValue :=
  (((svc.geoip.bind (· client)).bind (geoField · n)).bind HeaderValue.fromStr).toList

end HandlerService

open HandlerService

variable {ext : External} {svc : HandlerService} {req : Request} {client : IpAddr}

theorem getAll_putGeo_self {headers : HeaderMap} {n : HeaderName} (h : headers.getAll n = [])
    (v : Option Text) :
    (putGeo headers n v).getAll n = (v.bind HeaderValue.fromStr).toList := by
  cases v with
  | none => exact h
  | some t =>
    simp only [putGeo, insertStr, Option.bind_some]
    cases HeaderValue.fromStr t with
    | none => exact h
    | some v => exact MultiMap.getAll_insert_self _ _ _

theorem getAll_putGeo_ne {headers : HeaderMap} {n k : HeaderName} (h : n ≠ k) (v : Option Text) :
    (putGeo headers k v).getAll n = headers.getAll n := by
  cases v with
  | none => rfl
  | some t => exact getAll_insertStr_ne _ h t

/-- The stamp gives the GeoIP headers the looked-up values, and nothing of the client's. -/
theorem getAll_stampGeoip_geo (headers : HeaderMap) {n : HeaderName} (h : n ∈ geoHeaders) :
    (svc.stampGeoip headers client).getAll n = svc.geoValues client n := by
  have hempty : ∀ k ∈ geoHeaders, (headers.removeAll geoHeaders).getAll k = [] := fun k hk =>
    MultiMap.getAll_removeAll_mem hk _
  have h12 : geoCountry ≠ geoCity := by decide
  have h13 : geoCountry ≠ geoContinent := by decide
  have h23 : geoCity ≠ geoContinent := by decide
  unfold stampGeoip geoValues
  cases hl : svc.geoip.bind (· client) with
  | none => simpa using hempty n h
  | some info =>
    simp only [Option.bind_some]
    have hcases : n = geoCountry ∨ n = geoCity ∨ n = geoContinent := by
      simpa [geoHeaders] using h
    rcases hcases with rfl | rfl | rfl
    · rw [getAll_putGeo_ne h13, getAll_putGeo_ne h12, getAll_putGeo_self (hempty _ h)]
      rfl
    · rw [getAll_putGeo_ne h23, getAll_putGeo_self
        (by rw [getAll_putGeo_ne h12.symm]; exact hempty _ h)]
      rfl
    · rw [getAll_putGeo_self (by
        rw [getAll_putGeo_ne h23.symm, getAll_putGeo_ne h13.symm]; exact hempty _ h)]
      rfl

theorem getAll_stampGeoip_ne (headers : HeaderMap) {n : HeaderName} (h : n ∉ geoHeaders) :
    (svc.stampGeoip headers client).getAll n = headers.getAll n := by
  have hcases : n ≠ geoCountry ∧ n ≠ geoCity ∧ n ≠ geoContinent := by
    simpa [geoHeaders] using h
  obtain ⟨h1, h2, h3⟩ := hcases
  unfold stampGeoip
  split
  · exact MultiMap.getAll_removeAll_not_mem h _
  · rw [getAll_putGeo_ne h3, getAll_putGeo_ne h2, getAll_putGeo_ne h1,
      MultiMap.getAll_removeAll_not_mem h]

/-- Every request of a sweep is built from the same parts. -/
theorem failover_sent {u : UpstreamRef} {net : Nat → Attempt} {order : List Nat}
    {last : StatusCode} {st : ServiceState} {m : UpstreamRequest}
    (h : m ∈ (svc.failover ext u req client net order last st).sent) :
    ∃ addr, svc.proxy.buildRequest ext addr req client svc.scheme = .ok m := by
  induction order generalizing last st with
  | nil => cases h
  | cons idx rest ih =>
    simp only [failover] at h
    split at h
    · exact ih h
    split at h
    · exact ih h
    split at h
    · exact ⟨_, forward_sent.mp h⟩
    · rcases List.mem_append.mp h with h | h
      · exact ⟨_, forward_sent.mp h⟩
      · exact ih h
    · exact ⟨_, forward_sent.mp h⟩

theorem dispatchProxy_sent {handler : Handler} {net : Nat → Attempt} {st : ServiceState}
    {m : UpstreamRequest} (h : m ∈ (svc.dispatchProxy ext handler req client net st).sent) :
    ∃ addr, svc.proxy.buildRequest ext addr req client svc.scheme = .ok m := by
  unfold dispatchProxy at h
  split at h
  · cases h
  · exact failover_sent h

theorem route_sent {path : Text} {world : World} {st : ServiceState} {m : UpstreamRequest}
    (h : m ∈ (svc.route ext path req client world st).sent) :
    ∃ addr, svc.proxy.buildRequest ext addr req client svc.scheme = .ok m := by
  unfold route at h
  split at h
  · unfold dispatch at h
    split at h
    · split at h <;> cases h
    · exact dispatchProxy_sent h
    · exact dispatchProxy_sent h
    · cases h
    · split at h <;> cases h
    · cases h
    · cases h
  · split at h <;> cases h

/-- Every request that `process` sends is built from the admitted one. -/
theorem process_sent {world : World} {st : ServiceState} {m : UpstreamRequest}
    (h : m ∈ (svc.process ext req client world st).sent) :
    ∃ path req' addr, svc.admission ext req client = .ok (.routed path req') ∧
      svc.proxy.buildRequest ext addr req' client svc.scheme = .ok m := by
  unfold process at h
  split at h
  · cases h
  · cases h
  · next path req' hadm =>
    obtain ⟨addr, hm⟩ := route_sent h
    exact ⟨path, req', addr, hadm, hm⟩

/-- **Every request sent upstream carries the looked-up GeoIP headers exactly when the client has
nominated none of those that have a value.** -/
theorem process_sent_geo_iff {world : World} {st : ServiceState} {m : UpstreamRequest}
    (h : m ∈ (svc.process ext req client world st).sent) :
    (∀ n ∈ geoHeaders, m.headers.getAll n = svc.geoValues client n) ↔
      ∀ n ∈ geoHeaders, svc.geoValues client n ≠ [] → n ∉ nominatedNames req.headers := by
  obtain ⟨path, req', addr, hadm, hm⟩ := process_sent h
  obtain ⟨headers, hstamp, hsame⟩ := admission_routed hadm
  obtain ⟨host, hsent⟩ := upstreamHeaders_eq (buildRequest_ok hm).2
  have hnom : nominatedNames req'.headers = nominatedNames req.headers := by
    have hconn : req'.headers.getAll .connection = req.headers.getAll .connection := by
      rw [hstamp, getAll_stampGeoip_ne _ (by decide), hsame _ (by decide)]
    simp only [nominatedNames, nominated, hconn]
  have hvalue : ∀ n ∈ geoHeaders, m.headers.getAll n =
      if n ∈ nominatedNames req.headers then [] else svc.geoValues client n := by
    intro n hn
    have hplain : ∀ k ∈ geoHeaders, k ≠ .host ∧ k ∉ attribution ∧ k ∉ hopByHop ∧
        k ≠ .contentLength := by decide
    obtain ⟨h1, h2, h3, h4⟩ := hplain n hn
    rw [hsent, MultiMap.getAll_insert_ne _ h1, getAll_cleanHeaders h2 h3 h4, hnom, hstamp,
      getAll_stampGeoip_geo _ hn]
  constructor
  · intro hall n hn hne hmem
    have := hall n hn
    rw [hvalue n hn, if_pos hmem] at this
    exact hne this.symm
  · intro hcond n hn
    rw [hvalue n hn]
    split
    · next hmem =>
      by_contra hne
      exact hcond n hn (Ne.symm hne) hmem
    · rfl

namespace Sample

/-- A GeoIP database that knows one country. -/
def geoExternal : External :=
  { External.sample with geoip := fun _ => some fun _ => some ⟨none, none, none, some ['N', 'L']⟩ }

def geoBlock : HttpBlock where
  listen := [{ port := 80 }]
  geoipDb := some "geo.mmdb".toList
  hostHeaderPolicy := .any
  locations := [{ pattern := ['/'], handler := { handlerType := .proxy } }]
  upstreams := [{ name := "pool".toList, servers := [{ address := "app:8080".toList }] }]

def geoService : HandlerService := .new geoExternal (.const 0) geoBlock none false

/-- `GET /` with a `Connection` header. -/
def getWithConnection (v : Text) (h : (utf8 v).all isValueByte = true := by decide) : Request :=
  .get [(.connection, ⟨utf8 v, h⟩)]

/-- What `process` sends for a request. -/
def geoSent (req : Request) : List UpstreamRequest :=
  (geoService.process geoExternal req (.v4 ⟨203, 0, 113, 9⟩) .refusing
    (.init geoBlock)).sent

end Sample

open Sample

theorem process_sent_geo_iff_close :
    ∃ m ∈ geoSent (getWithConnection "close".toList),
      ((∀ n ∈ geoHeaders, m.headers.getAll n = geoService.geoValues (.v4 ⟨203, 0, 113, 9⟩) n) ↔
        ∀ n ∈ geoHeaders, geoService.geoValues (.v4 ⟨203, 0, 113, 9⟩) n ≠ [] →
          n ∉ nominatedNames (getWithConnection "close".toList).headers) := by
  have hone : (geoSent (getWithConnection "close".toList)).length = 1 := by decide +kernel
  obtain ⟨m, hm⟩ := List.length_eq_one_iff.mp hone
  have hsent : m ∈ geoSent (getWithConnection "close".toList) := by
    rw [hm]
    exact List.mem_singleton_self m
  exact ⟨m, hsent, process_sent_geo_iff hsent⟩

/-- A client that nominates the header keeps it from the upstream. -/
theorem process_sent_geo_nominated :
    ¬ ∀ (req : Request), ∀ m ∈ geoSent req, ∀ n ∈ geoHeaders,
      m.headers.getAll n = geoService.geoValues (.v4 ⟨203, 0, 113, 9⟩) n := by
  intro h
  have hlost : ∃ m ∈ geoSent (getWithConnection "x-geoip-country".toList),
      m.headers.getAll geoCountry ≠ geoService.geoValues (.v4 ⟨203, 0, 113, 9⟩) geoCountry := by
    decide +kernel
  obtain ⟨m, hm, hne⟩ := hlost
  exact hne (h _ m hm geoCountry (by decide))

end Flexd

import Flexd.Proxy.Client

/-!
# Attribution of an untrusted client

Two requests of one untrusted client that differ only in what they say about
who sent them should reach the upstream alike. `forward` rewrites the headers
of `attribution` from scratch, but other names of the `x-forwarded-` family
pass through as the client sent them, unless `Connection` nominates them:
`forward_sent_same_iff` says that these are all that can make a difference.
-/

namespace Flexd

open Lib

/-- The names that begin with `x-forwarded-`. -/
def IsXForwarded (n : HeaderName) : Prop := "x-forwarded-".toList <+: n.text

/-- The names that attribute a request to a client. -/
def AttributionFamily (n : HeaderName) : Prop :=
  n = .forwarded ∨ n = .xRealIp ∨ IsXForwarded n

instance (n : HeaderName) : Decidable (IsXForwarded n) :=
  inferInstanceAs (Decidable ("x-forwarded-".toList <+: n.text))

instance (n : HeaderName) : Decidable (AttributionFamily n) :=
  inferInstanceAs (Decidable (n = .forwarded ∨ n = .xRealIp ∨ IsXForwarded n))

/-- A family name the policy does not rewrite is an `x-forwarded-` one. -/
theorem isXForwarded_of_family {n : HeaderName} (hf : AttributionFamily n)
    (ha : n ∉ attribution) : IsXForwarded n := by
  rcases hf with rfl | rfl | h
  · exact absurd (by decide) ha
  · exact absurd (by decide) ha
  · exact h

theorem hopByHop_not_family {n : HeaderName} (h : AttributionFamily n) : n ∉ hopByHop := by
  have : ∀ k ∈ hopByHop, ¬ AttributionFamily k := by decide
  exact fun hn => this n hn h

variable {p : ProxyClient} {ext : External} {addr : Text} {client : IpAddr} {scheme : Text}

/-- A family name outside `attribution` is sent on as it is, unless it is nominated. -/
theorem getAll_cleanHeaders_family {headers : HeaderMap} {n : HeaderName}
    (hf : AttributionFamily n) (ha : n ∉ attribution) :
    (p.cleanHeaders headers client scheme).getAll n =
      if n ∈ nominatedNames headers then [] else headers.getAll n := by
  refine getAll_cleanHeaders ha (hopByHop_not_family hf) ?_
  rintro rfl
  revert hf
  decide

/-- The cleaned headers agree wherever the incoming ones have to, and on `attribution`. -/
theorem cleanHeaders_agreeOn (hp : p.applyAttributionPolicy = true)
    (hu : isTrusted client p.trustedProxies = false) {h₁ h₂ : HeaderMap}
    (h : MultiMap.AgreeOn (fun n => ¬ AttributionFamily n) h₁ h₂) (scheme : Text) :
    MultiMap.AgreeOn (fun n => ¬ AttributionFamily n ∨ n ∈ attribution)
      (p.cleanHeaders h₁ client scheme) (p.cleanHeaders h₂ client scheme) := by
  have hhost : h₁.get .host = h₂.get .host := h.get (by decide)
  have hstrip := (stripHopByHop_agreeOn h (by decide)).remove .contentLength
  simp only [ProxyClient.cleanHeaders, hp, if_true, hhost]
  exact applyForwardingPolicy_agreeOn hu hstrip scheme _

/-- What is sent are the cleaned headers under a `Host`, which depends on the incoming `Host`
alone. -/
theorem upstreamHeaders_ok {h₁ h₂ m₁ m₂ : HeaderMap} (hhost : h₁.get .host = h₂.get .host)
    (hm₁ : p.upstreamHeaders addr h₁ client scheme = .ok m₁)
    (hm₂ : p.upstreamHeaders addr h₂ client scheme = .ok m₂) :
    ∃ host, m₁ = (p.cleanHeaders h₁ client scheme).insert .host host ∧
      m₂ = (p.cleanHeaders h₂ client scheme).insert .host host := by
  unfold ProxyClient.upstreamHeaders at hm₁ hm₂
  rw [← hhost] at hm₂
  split at hm₁
  · next host hh =>
    rw [hh] at hm₂
    cases hm₁
    cases hm₂
    exact ⟨host, rfl, rfl⟩
  · next hh =>
    rw [hh] at hm₂
    split at hm₁
    · next host hv =>
      simp only [hv] at hm₂
      cases hm₁
      cases hm₂
      exact ⟨host, rfl, rfl⟩
    · cases hm₁

/-- **Two requests of an untrusted client that differ in attribution alone are forwarded with the
same headers exactly when they agree on the `x-forwarded-` names that the policy neither rewrites
nor sees nominated.** -/
theorem forward_sent_same_iff {req₁ req₂ : Request} {cache₁ cache₂ : Cache}
    {att₁ att₂ : Attempt} {m₁ m₂ : UpstreamRequest} (hp : p.applyAttributionPolicy = true)
    (hu : isTrusted client p.trustedProxies = false)
    (hagree : MultiMap.AgreeOn (fun n => ¬ AttributionFamily n) req₁.headers req₂.headers)
    (hm₁ : m₁ ∈ (p.forward ext addr req₁ client scheme cache₁ att₁).sent)
    (hm₂ : m₂ ∈ (p.forward ext addr req₂ client scheme cache₂ att₂).sent) :
    m₁.headers.Same m₂.headers ↔
      MultiMap.AgreeOn (fun n => IsXForwarded n ∧ n ∉ attribution ∧
        n ∉ nominatedNames req₁.headers) req₁.headers req₂.headers := by
  have hnom : nominatedNames req₁.headers = nominatedNames req₂.headers := by
    simp only [nominatedNames, nominated, hagree .connection (by decide)]
  obtain ⟨host, hm₁, hm₂⟩ := upstreamHeaders_ok (hagree.get (by decide))
    (buildRequest_ok (forward_sent.mp hm₁)).2 (buildRequest_ok (forward_sent.mp hm₂)).2
  rw [hm₁, hm₂]
  have hclean := cleanHeaders_agreeOn hp hu hagree scheme
  constructor
  · rintro hsame n ⟨hx, ha, hn⟩
    have hf : AttributionFamily n := .inr (.inr hx)
    have hhost : n ≠ .host := by
      rintro rfl
      revert hf
      decide
    have := hsame n
    rw [MultiMap.getAll_insert_ne _ hhost, MultiMap.getAll_insert_ne _ hhost,
      getAll_cleanHeaders_family hf ha, getAll_cleanHeaders_family hf ha, if_neg hn,
      if_neg (hnom ▸ hn)] at this
    exact this
  · intro hx n
    by_cases hhost : n = .host
    · rw [hhost, MultiMap.getAll_insert_self, MultiMap.getAll_insert_self]
    rw [MultiMap.getAll_insert_ne _ hhost, MultiMap.getAll_insert_ne _ hhost]
    by_cases hf : AttributionFamily n ∧ n ∉ attribution
    · obtain ⟨hf, ha⟩ := hf
      rw [getAll_cleanHeaders_family hf ha, getAll_cleanHeaders_family hf ha, ← hnom]
      split
      · rfl
      · next hn => exact hx n ⟨isXForwarded_of_family hf ha, ha, hn⟩
    · exact hclean n (by tauto)

namespace Sample

/-- A client that trusts no proxy and rewrites attribution. -/
def proxyClient : ProxyClient := ⟨⟨[], 30⟩, 1024, [], true⟩

def peer : IpAddr := .v4 ⟨203, 0, 113, 9⟩

/-- What is sent to `app:8080` for a request. -/
def sent (req : Request) : List UpstreamRequest :=
  (proxyClient.forward .sample "app:8080".toList req peer "http".toList ∅ .refused).sent

def forwardedFor (t : Text) (h : (utf8 t).all isValueByte = true := by decide) : HeaderMap :=
  [(.xForwardedFor, ⟨utf8 t, h⟩)]

def xForwardedPort : HeaderName := ⟨"x-forwarded-port".toList, by decide⟩

def forwardedPort (t : Text) (h : (utf8 t).all isValueByte = true := by decide) : HeaderMap :=
  [(xForwardedPort, ⟨utf8 t, h⟩)]

end Sample

open Sample

theorem forward_sent_same_iff_spoofed_for :
    ∃ m₁ ∈ sent (Request.get (forwardedFor "10.0.0.1".toList)),
    ∃ m₂ ∈ sent (Request.get (forwardedFor "10.0.0.2".toList)),
      (m₁.headers.Same m₂.headers ↔
        MultiMap.AgreeOn (fun n => IsXForwarded n ∧ n ∉ attribution ∧
          n ∉ nominatedNames (forwardedFor "10.0.0.1".toList))
          (forwardedFor "10.0.0.1".toList) (forwardedFor "10.0.0.2".toList)) := by
  have hsent : ∃ m₁ ∈ sent (Request.get (forwardedFor "10.0.0.1".toList)),
      ∃ m₂ ∈ sent (Request.get (forwardedFor "10.0.0.2".toList)), True := by decide +kernel
  obtain ⟨m₁, hm₁, m₂, hm₂, -⟩ := hsent
  exact ⟨m₁, hm₁, m₂, hm₂, forward_sent_same_iff rfl (by decide)
    (MultiMap.agreeOn_singleton (by decide)) hm₁ hm₂⟩

/-- `x-forwarded-port` is taken from the client as it is. -/
theorem forward_sent_spoofed_port :
    ¬ ∀ req₁ req₂ : Request,
      MultiMap.AgreeOn (fun n => ¬ AttributionFamily n) req₁.headers req₂.headers →
      ∀ m₁ ∈ sent req₁, ∀ m₂ ∈ sent req₂, m₁.headers.Same m₂.headers := by
  intro h
  have hkept : ∃ m₁ ∈ sent (Request.get (forwardedPort "80".toList)),
      ∃ m₂ ∈ sent (Request.get (forwardedPort "443".toList)),
        m₁.headers.getAll xForwardedPort ≠ m₂.headers.getAll xForwardedPort := by
    decide +kernel
  obtain ⟨m₁, hm₁, m₂, hm₂, hne⟩ := hkept
  exact hne (h _ _ (MultiMap.agreeOn_singleton (by decide)) m₁ hm₁ m₂ hm₂ xForwardedPort)

end Flexd

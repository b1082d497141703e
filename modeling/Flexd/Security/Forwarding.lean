import Flexd.Security.Headers

/-!
# The forwarding chain

What `applyForwardingPolicy` leaves in the attribution headers. Addresses,
schemes and readable incoming values are all visible text, so no insert is ever
skipped, and `X-Forwarded-For` is one value that ends in the peer
(`forwarding_chain`).
-/

namespace Flexd

open Lib

/-- The `X-Forwarded-For` that goes upstream: what a trusted proxy sent, and the peer. -/
def forwardedChain (headers : HeaderMap) (client : IpAddr) (trusted : List IpNetwork) : Text :=
  if isTrusted client trusted ∧ priorXff headers ≠ [] then
    priorXff headers ++ ", ".toList ++ client.text
  else client.text

variable {headers : HeaderMap} {client : IpAddr} {scheme : Text}
  {originalHost : Option HeaderValue} {trusted : List IpNetwork}

/-! ## Texts that are header values -/

theorem digitVal_visible {c : Char} (h : (digitVal 16 c).isSome = true) : IsVisible c := by
  have hle : ∀ a b : Char, a ≤ b ↔ a.toNat ≤ b.toNat := fun a b => UInt32.le_iff_toNat_le
  unfold digitVal at h
  simp only [hle] at h
  unfold IsVisible
  split at h
  · next hr => exact .inl ⟨Nat.le_trans (by decide) hr.1, Nat.le_trans hr.2 (by decide)⟩
  split at h
  · next hr => exact .inl ⟨Nat.le_trans (by decide) hr.1, Nat.le_trans hr.2 (by decide)⟩
  split at h
  · next hr => exact .inl ⟨Nat.le_trans (by decide) hr.1, Nat.le_trans hr.2 (by decide)⟩
  · simp at h

theorem isIpChar_visible {c : Char} (h : isIpChar c = true) : IsVisible c := by
  simp only [isIpChar, Bool.or_eq_true, decide_eq_true_eq] at h
  rcases h with (hdigit | rfl) | rfl
  · exact digitVal_visible hdigit
  · exact .inl (by decide)
  · exact .inl (by decide)

theorem text_visible (client : IpAddr) : ∀ c ∈ client.text, IsVisible c :=
  fun c hc => isIpChar_visible (client.text_isIpChar c hc)

theorem separator_visible : ∀ c ∈ ", ".toList, IsVisible c := by
  simp [IsVisible]

/-- Incoming values that can be read are joined to a text that is a value again. -/
theorem priorXff_visible (headers : HeaderMap) : ∀ c ∈ priorXff headers, IsVisible c := by
  intro c hc
  rcases mem_intercalate hc with hsep | ⟨t, ht, hc⟩
  · exact separator_visible c hsep
  · obtain ⟨v, -, hv⟩ := List.mem_filterMap.mp ht
    exact HeaderValue.visible_of_toStr hv c hc

theorem forwardedChain_visible (headers : HeaderMap) (client : IpAddr)
    (trusted : List IpNetwork) : ∀ c ∈ forwardedChain headers client trusted, IsVisible c := by
  intro c hc
  unfold forwardedChain at hc
  split at hc
  · rcases List.mem_append.mp hc with hc | hc
    · rcases List.mem_append.mp hc with hc | hc
      · exact priorXff_visible headers c hc
      · exact separator_visible c hc
    · exact text_visible client c hc
  · exact text_visible client c hc

/-! ## The inserts -/

theorem getAll_insertStr_visible {t : Text} (h : ∀ c ∈ t, IsVisible c) (headers : HeaderMap)
    (n : HeaderName) :
    ∃ v, (insertStr headers n t).getAll n = [v] ∧ v.toStr = some t := by
  obtain ⟨v, hv, hbytes⟩ := HeaderValue.fromStr_visible h
  refine ⟨v, ?_, HeaderValue.toStr_visible h hbytes⟩
  rw [insertStr, hv]
  exact MultiMap.getAll_insert_self headers n v

theorem getAll_insertStrIfAbsent_visible {t : Text} (h : ∀ c ∈ t, IsVisible c)
    (headers : HeaderMap) (n : HeaderName) : (insertStrIfAbsent headers n t).getAll n ≠ [] := by
  obtain ⟨v, hv, -⟩ := HeaderValue.fromStr_visible h
  rw [insertStrIfAbsent, hv]
  show (headers.insertIfAbsent n v).getAll n ≠ []
  rw [MultiMap.getAll_insertIfAbsent_self]
  split
  · exact List.cons_ne_nil v []
  · next hne => exact hne

/-- But for `X-Forwarded-Host` the policy is three inserts, on what it keeps of the headers. -/
theorem getAll_applyForwardingPolicy_of_ne {n : HeaderName} (h : n ≠ .xForwardedHost) :
    (applyForwardingPolicy headers client scheme originalHost trusted).getAll n =
      (insertStrIfAbsent (insertStrIfAbsent (insertStr
        (if isTrusted client trusted then headers else headers.removeAll attribution)
        .xForwardedFor (forwardedChain headers client trusted))
        .xRealIp client.text) .xForwardedProto scheme).getAll n := by
  have hchain : (if (if isTrusted client trusted then priorXff headers else []) ≠ [] then
      (if isTrusted client trusted then priorXff headers else []) ++ ", ".toList ++ client.text
      else client.text) = forwardedChain headers client trusted := by
    unfold forwardedChain
    by_cases ht : isTrusted client trusted = true
    · simp [ht]
    · simp [ht]
  unfold applyForwardingPolicy
  simp only [hchain]
  cases originalHost with
  | none => rfl
  | some host => exact MultiMap.getAll_insertIfAbsent_ne _ h host

/-- **One chain that ends in the peer**: after the policy `X-Forwarded-For` is a single value, the
address of the client after what it sent if it is trusted; `X-Real-IP` and `X-Forwarded-Proto` are
there; and every header but the attribution ones is as it was. -/
theorem forwarding_chain (headers : HeaderMap) (client : IpAddr)
    (hscheme : scheme = "http".toList ∨ scheme = "https".toList)
    (originalHost : Option HeaderValue) (trusted : List IpNetwork) :
    let sent := applyForwardingPolicy headers client scheme originalHost trusted
    (∃ v, sent.getAll .xForwardedFor = [v] ∧
      (isTrusted client trusted = false → v.toStr = some client.text) ∧
      (isTrusted client trusted = true → v.toStr = some
        (if priorXff headers = [] then client.text
          else priorXff headers ++ ", ".toList ++ client.text))) ∧
    sent.getAll .xRealIp ≠ [] ∧ sent.getAll .xForwardedProto ≠ [] ∧
    ∀ n ∉ attribution, sent.getAll n = headers.getAll n := by
  have hproto : ∀ c ∈ scheme, IsVisible c := by
    rcases hscheme with rfl | rfl
    · simp [IsVisible]
    · simp [IsVisible]
  refine ⟨?_, ?_, ?_, fun n hn => getAll_applyForwardingPolicy hn⟩
  · obtain ⟨v, hget, hv⟩ := getAll_insertStr_visible (forwardedChain_visible headers client trusted)
      (if isTrusted client trusted then headers else headers.removeAll attribution) .xForwardedFor
    refine ⟨v, ?_, fun ht => ?_, fun ht => ?_⟩
    · rw [getAll_applyForwardingPolicy_of_ne (by decide),
        getAll_insertStrIfAbsent_ne _ (by decide), getAll_insertStrIfAbsent_ne _ (by decide), hget]
    · rw [hv, forwardedChain, if_neg (by simp [ht])]
    · rw [hv, forwardedChain]
      by_cases hprior : priorXff headers = []
      · simp [hprior]
      · simp [hprior, ht]
  · rw [getAll_applyForwardingPolicy_of_ne (by decide), getAll_insertStrIfAbsent_ne _ (by decide)]
    exact getAll_insertStrIfAbsent_visible (text_visible client) _ _
  · rw [getAll_applyForwardingPolicy_of_ne (by decide)]
    exact getAll_insertStrIfAbsent_visible hproto _ _

/-- Two chains from a trusted client become one. -/
theorem forwarding_chain_joined :
    ("https".toList = "http".toList ∨ "https".toList = "https".toList) ∧
    ∃ v, (applyForwardingPolicy
      [(.xForwardedFor, ⟨utf8 "192.0.2.1".toList, by decide⟩),
        (.xForwardedFor, ⟨utf8 "192.0.2.2, 192.0.2.3".toList, by decide⟩)]
      (.v4 ⟨10, 0, 0, 1⟩) "https".toList none [.v4 ⟨10, 0, 0, 0⟩ 8]).getAll .xForwardedFor = [v] ∧
      v.toStr = some "192.0.2.1, 192.0.2.2, 192.0.2.3, 10.0.0.1".toList := by
  refine ⟨.inr rfl, ?_⟩
  obtain ⟨⟨v, hget, -, htrusted⟩, -⟩ := forwarding_chain
    [(.xForwardedFor, ⟨utf8 "192.0.2.1".toList, by decide⟩),
      (.xForwardedFor, ⟨utf8 "192.0.2.2, 192.0.2.3".toList, by decide⟩)]
    (.v4 ⟨10, 0, 0, 1⟩) (.inr rfl) none [.v4 ⟨10, 0, 0, 0⟩ 8]
  exact ⟨v, hget, (htrusted (by decide +kernel)).trans (by decide +kernel)⟩

end Flexd

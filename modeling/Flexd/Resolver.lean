import Flexd.Lib.BoundedTable
import Flexd.Security.UpstreamFilter

/-!
# The pinning resolver

`resolveChecked` answers a host name from the cache or by a lookup, and
fails unless every address of the answer is allowed. Answers are kept for a
time to live. `CacheVetted` is the invariant: whatever is cached was vetted,
so every answer is allowed in full (`resolveChecked_allowed`).
-/

namespace Flexd

open Lib

structure SocketAddr where
  ip : IpAddr
  port : UInt16
  deriving DecidableEq

structure CacheEntry where
  addrs : List SocketAddr
  expires : Nat

abbrev Cache := AList fun _ : Text => CacheEntry

/-- `MAX_CACHE_ENTRIES`. -/
def maxCacheEntries : Nat := 4096

/-- One use of the resolver by the outside world: the times it runs at, and the DNS answer
(none for an I/O error). -/
structure Lookup where
  lookupAt : Nat
  answer : Option (List SocketAddr)
  storeAt : Nat

inductive ResolveError where
  | notFound
  | permissionDenied (ip : IpAddr)
  | io
  deriving DecidableEq

structure PinningResolver where
  allowed : List IpNetwork
  ttl : Nat

namespace PinningResolver

/-- The unexpired answer for a host; an expired one is dropped. -/
def cached (cache : Cache) (host : Text) (now : Nat) : Option (List SocketAddr) × Cache :=
  match cache.lookup host with
  | some entry =>
    if now < entry.expires then (some entry.addrs, cache) else (none, cache.erase host)
  | none => (none, cache)

def store (r : PinningResolver) (cache : Cache) (host : Text) (addrs : List SocketAddr)
    (now : Nat) : Cache :=
  let cache := if maxCacheEntries ≤ cache.entries.length then ∅ else cache
  cache.insert host ⟨addrs, now + r.ttl⟩

/-- The first address the allowlist does not admit. -/
def firstDenied (r : PinningResolver) (addrs : List SocketAddr) : Option SocketAddr :=
  addrs.find? fun sa => !ipAllowed sa.ip r.allowed

def resolveChecked (r : PinningResolver) (cache : Cache) (host : Text) (l : Lookup) :
    Except ResolveError (List SocketAddr) × Cache :=
  match cached cache host l.lookupAt with
  | (some addrs, cache) => (.ok addrs, cache)
  | (none, cache) =>
    match l.answer with
    | none => (.error .io, cache)
    | some addrs =>
      if addrs.isEmpty then (.error .notFound, cache)
      else
        match r.firstDenied addrs with
        | some sa => (.error (.permissionDenied sa.ip), cache)
        | none => (.ok addrs, r.store cache host addrs l.storeAt)

/-- An unexpired entry is a hit and the cache stays; otherwise at most the entry of this host
goes. -/
theorem cached_cases (cache : Cache) (host : Text) (now : Nat) :
    (∃ entry, cache.lookup host = some entry ∧ now < entry.expires ∧
      cached cache host now = (some entry.addrs, cache)) ∨
    ∃ rest, cached cache host now = (none, rest) ∧ (rest = cache ∨ rest = cache.erase host) := by
  cases hl : cache.lookup host with
  | none => exact .inr ⟨cache, by simp only [cached, hl], .inl rfl⟩
  | some entry =>
    by_cases hn : now < entry.expires
    · exact .inl ⟨entry, rfl, hn, by simp only [cached, hl, if_pos hn]⟩
    · exact .inr ⟨cache.erase host, by simp only [cached, hl, if_neg hn], .inr rfl⟩

/-- A hit is an unexpired entry, and leaves the cache as it is. -/
theorem cached_eq_some {cache rest : Cache} {host : Text} {now : Nat} {addrs : List SocketAddr}
    (h : cached cache host now = (some addrs, rest)) :
    rest = cache ∧
      ∃ entry, cache.lookup host = some entry ∧ entry.addrs = addrs ∧ now < entry.expires := by
  rcases cached_cases cache host now with ⟨entry, hl, hn, hc⟩ | ⟨rest', hc, -⟩
  · cases hc.symm.trans h
    exact ⟨rfl, entry, hl, rfl, hn⟩
  · cases hc.symm.trans h

/-- Looking into the cache only takes entries out. -/
theorem lookup_of_lookup_cached {cache : Cache} {host k : Text} {now : Nat} {entry : CacheEntry}
    (h : (cached cache host now).2.lookup k = some entry) : cache.lookup k = some entry := by
  rcases cached_cases cache host now with ⟨e, -, -, hc⟩ | ⟨rest, hc, rfl | rfl⟩ <;> rw [hc] at h
  · exact h
  · exact h
  · by_cases e : k = host
    · subst e
      simp at h
    · rwa [AList.lookup_erase_ne e] at h

/-- A store adds its own entry, and may take others out. -/
theorem lookup_store {r : PinningResolver} {cache : Cache} {host k : Text}
    {addrs : List SocketAddr} {now : Nat} {entry : CacheEntry}
    (h : (r.store cache host addrs now).lookup k = some entry) :
    (k = host ∧ entry = ⟨addrs, now + r.ttl⟩) ∨ cache.lookup k = some entry := by
  have hins : (insertBounded maxCacheEntries cache host ⟨addrs, now + r.ttl⟩).lookup k =
      some entry := h
  exact lookup_insertBounded hins

end PinningResolver

/-- Every cached address is allowed. -/
def CacheVetted (allowed : List IpNetwork) (cache : Cache) : Prop :=
  ∀ host entry, cache.lookup host = some entry → ∀ sa ∈ entry.addrs, ipAllowed sa.ip allowed = true

variable {r : PinningResolver} {cache : Cache} {host : Text}

theorem cacheVetted_empty (allowed : List IpNetwork) : CacheVetted allowed ∅ := by
  intro host entry h
  simp at h

theorem CacheVetted.cached {allowed : List IpNetwork} (h : CacheVetted allowed cache)
    (host : Text) (now : Nat) :
    CacheVetted allowed (PinningResolver.cached cache host now).2 :=
  fun k entry hk => h k entry (PinningResolver.lookup_of_lookup_cached hk)

theorem CacheVetted.store (h : CacheVetted r.allowed cache) {addrs : List SocketAddr}
    (ha : ∀ sa ∈ addrs, ipAllowed sa.ip r.allowed = true) (now : Nat) :
    CacheVetted r.allowed (r.store cache host addrs now) := by
  intro k entry hk
  rcases PinningResolver.lookup_store hk with ⟨-, rfl⟩ | hk
  · exact ha
  · exact h k entry hk

theorem allowed_of_firstDenied_none {addrs : List SocketAddr} (h : r.firstDenied addrs = none) :
    ∀ sa ∈ addrs, ipAllowed sa.ip r.allowed = true := by
  intro sa hsa
  have := List.find?_eq_none.mp h sa hsa
  simpa using this

/-- A resolution keeps the cache vetted. -/
theorem CacheVetted.resolveChecked (h : CacheVetted r.allowed cache) (host : Text) (l : Lookup) :
    CacheVetted r.allowed (r.resolveChecked cache host l).2 := by
  have hc := h.cached host l.lookupAt
  unfold PinningResolver.resolveChecked
  split
  · next heq => rw [heq] at hc; exact hc
  · next heq =>
    rw [heq] at hc
    split
    · exact hc
    · split
      · exact hc
      · split
        · exact hc
        · next hd => exact hc.store (allowed_of_firstDenied_none hd) _

/-- **Every answer of the resolver is allowed in full.** -/
theorem resolveChecked_allowed (h : CacheVetted r.allowed cache) {l : Lookup}
    {addrs : List SocketAddr} (hr : (r.resolveChecked cache host l).1 = .ok addrs) :
    ∀ sa ∈ addrs, ipAllowed sa.ip r.allowed = true := by
  unfold PinningResolver.resolveChecked at hr
  split at hr
  · next heq =>
    cases hr
    obtain ⟨-, entry, hl, rfl, -⟩ := PinningResolver.cached_eq_some heq
    exact h host entry hl
  · split at hr
    · cases hr
    · split at hr
      · cases hr
      · split at hr
        · cases hr
        · next hd => cases hr; exact allowed_of_firstDenied_none hd

end Flexd

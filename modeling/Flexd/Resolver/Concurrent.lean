import Flexd.Lib.Machine
import Flexd.Resolver

/-!
# Concurrent resolutions

Any number of `resolve_checked` calls share one cache. A call is a locked
lookup in the cache, a DNS lookup that may take any time, the vetting of its
answer and a locked store; between these points the other calls run. The
machine here steps one call at a time, in any order, while time only goes on.
`CacheInv` is the invariant that relates the cache to the lookups answered so
far; `cache_sound_of_interleaving` reads off it what is true of every interleaving.
-/

namespace Flexd

open Lib

namespace PinningResolver

/-- What a call makes of a DNS answer. -/
def vet (r : PinningResolver) : Option (List SocketAddr) → Except ResolveError (List SocketAddr)
  | none => .error .io
  | some addrs =>
    if addrs.isEmpty then .error .notFound
    else
      match r.firstDenied addrs with
      | some sa => .error (.permissionDenied sa.ip)
      | none => .ok addrs

/-- Where a call stands. -/
inductive Call where
  | waiting (host : Text)
  | vetted (host : Text) (addrs : List SocketAddr)
  | done (host : Text) (result : Except ResolveError (List SocketAddr))

/-- The cache, every call made so far, and the time. -/
structure State where
  cache : Cache
  calls : List Call
  now : Nat

def State.init : State := ⟨∅, [], 0⟩

inductive Input where
  /-- Time passes. -/
  | tick (d : Nat)
  /-- A new call looks into the cache. -/
  | call (host : Text)
  /-- The lookup of a waiting call ends. -/
  | answer (id : Nat) (answer : Option (List SocketAddr))
  /-- A call whose answer was vetted stores it and returns. -/
  | store (id : Nat)

/-- What a step did, with the time of the accesses to the cache. -/
inductive Event where
  | idle
  | hit (host : Text) (addrs : List SocketAddr) (at_ : Nat)
  | missed (host : Text)
  | answered (host : Text) (answer : Option (List SocketAddr))
  | stored (host : Text) (addrs : List SocketAddr) (at_ : Nat)

def step (r : PinningResolver) (s : State) : Input → State × Event
  | .tick d => ({ s with now := s.now + d }, .idle)
  | .call host =>
    match cached s.cache host s.now with
    | (some addrs, cache) =>
      (⟨cache, s.calls ++ [.done host (.ok addrs)], s.now⟩, .hit host addrs s.now)
    | (none, cache) => (⟨cache, s.calls ++ [.waiting host], s.now⟩, .missed host)
  | .answer id answer =>
    match s.calls[id]? with
    | some (.waiting host) =>
      match r.vet answer with
      | .ok addrs => ({ s with calls := s.calls.set id (.vetted host addrs) },
          .answered host answer)
      | .error e => ({ s with calls := s.calls.set id (.done host (.error e)) },
          .answered host answer)
    | _ => (s, .idle)
  | .store id =>
    match s.calls[id]? with
    | some (.vetted host addrs) =>
      (⟨r.store s.cache host addrs s.now, s.calls.set id (.done host (.ok addrs)), s.now⟩,
        .stored host addrs s.now)
    | _ => (s, .idle)

def machine (r : PinningResolver) : Machine State Input Event := ⟨r.step⟩

theorem resolveChecked_eq (r : PinningResolver) (cache : Cache) (host : Text) (l : Lookup) :
    r.resolveChecked cache host l =
      match cached cache host l.lookupAt with
      | (some addrs, cache) => (.ok addrs, cache)
      | (none, cache) =>
        match r.vet l.answer with
        | .ok addrs => (.ok addrs, r.store cache host addrs l.storeAt)
        | .error e => (.error e, cache) := by
  unfold resolveChecked vet
  cases cached cache host l.lookupAt with
  | mk o cache =>
  cases o with
  | some addrs => rfl
  | none =>
    cases l.answer with
    | none => rfl
    | some addrs =>
      simp only
      by_cases he : addrs.isEmpty = true
      · simp only [he, if_true]
      · simp only [he]
        cases r.firstDenied addrs <;> rfl

/-- **A call that no other call interrupts is the sequential resolution.** -/
theorem run_uninterrupted (r : PinningResolver) (s : State) (host : Text)
    (answer : Option (List SocketAddr)) (d : Nat) :
    let id := s.calls.length
    let s' := r.machine.run s [.call host, .answer id answer, .tick d, .store id]
    let seq := r.resolveChecked s.cache host ⟨s.now, answer, s.now + d⟩
    s'.cache = seq.2 ∧ s'.calls[id]? = some (.done host seq.1) := by
  simp only [resolveChecked_eq, Machine.run, machine, step]
  cases hc : cached s.cache host s.now with
  | mk o cache =>
  cases o with
  | some addrs => simp
  | none => cases r.vet answer <;> simp

/-! ## One step -/

variable {r : PinningResolver}

theorem vet_eq_ok {answer : Option (List SocketAddr)} {addrs : List SocketAddr}
    (h : r.vet answer = .ok addrs) :
    answer = some addrs ∧ addrs ≠ [] ∧ ∀ sa ∈ addrs, ipAllowed sa.ip r.allowed = true := by
  cases answer with
  | none => cases h
  | some as =>
    simp only [vet] at h
    split at h
    · cases h
    · next hne =>
      split at h
      · cases h
      · next hd =>
        cases h
        exact ⟨rfl, by simpa using hne, allowed_of_firstDenied_none hd⟩

theorem vet_eq_of_allowed {addrs : List SocketAddr} (hne : addrs ≠ [])
    (h : ∀ sa ∈ addrs, ipAllowed sa.ip r.allowed = true) : r.vet (some addrs) = .ok addrs := by
  have hd : r.firstDenied addrs = none := by
    rw [firstDenied, List.find?_eq_none]
    intro sa hsa
    simp [h sa hsa]
  have he : ¬ addrs.isEmpty = true := by simpa using hne
  simp only [vet, if_neg he, hd]

/-- What a step can do: nothing but let time pass, or one of the four accesses. -/
theorem step_cases (r : PinningResolver) (s : State) (i : Input) :
    (∃ d, r.step s i = ({ s with now := s.now + d }, .idle)) ∨
    (∃ host addrs, i = .call host ∧ cached s.cache host s.now = (some addrs, s.cache) ∧
      r.step s i =
        ({ s with calls := s.calls ++ [.done host (.ok addrs)] }, .hit host addrs s.now)) ∨
    (∃ host cache, i = .call host ∧ cached s.cache host s.now = (none, cache) ∧
      r.step s i = (⟨cache, s.calls ++ [.waiting host], s.now⟩, .missed host)) ∨
    (∃ id host answer c, i = .answer id answer ∧ s.calls[id]? = some (.waiting host) ∧
      r.step s i = ({ s with calls := s.calls.set id c }, .answered host answer) ∧
      ((∃ addrs, r.vet answer = .ok addrs ∧ c = .vetted host addrs) ∨
        ∃ e, r.vet answer = .error e ∧ c = .done host (.error e))) ∨
    (∃ id host addrs, i = .store id ∧ s.calls[id]? = some (.vetted host addrs) ∧
      r.step s i = (⟨r.store s.cache host addrs s.now, s.calls.set id (.done host (.ok addrs)),
        s.now⟩, .stored host addrs s.now)) := by
  have hidle : (s, Event.idle) = ({ s with now := s.now + 0 }, Event.idle) := rfl
  cases i with
  | tick d => exact .inl ⟨d, rfl⟩
  | call host =>
    cases hc : cached s.cache host s.now with
    | mk o cache =>
    cases o with
    | none => exact .inr (.inr (.inl ⟨host, cache, rfl, hc, by simp only [step, hc]⟩))
    | some addrs =>
      obtain ⟨rfl, -⟩ := cached_eq_some hc
      exact .inr (.inl ⟨host, addrs, rfl, hc, by simp only [step, hc]⟩)
  | answer id answer =>
    cases hc : s.calls[id]? with
    | none => exact .inl ⟨0, by simp only [step, hc, hidle]⟩
    | some c =>
      cases c with
      | waiting host =>
        refine .inr (.inr (.inr (.inl ⟨id, host, answer, ?_⟩)))
        cases hv : r.vet answer with
        | ok addrs =>
          exact ⟨.vetted host addrs, rfl, hc, by simp only [step, hc, hv], .inl ⟨addrs, rfl, rfl⟩⟩
        | error e =>
          exact ⟨.done host (.error e), rfl, hc, by simp only [step, hc, hv], .inr ⟨e, rfl, rfl⟩⟩
      | vetted host addrs => exact .inl ⟨0, by simp only [step, hc, hidle]⟩
      | done host result => exact .inl ⟨0, by simp only [step, hc, hidle]⟩
  | store id =>
    cases hc : s.calls[id]? with
    | none => exact .inl ⟨0, by simp only [step, hc, hidle]⟩
    | some c =>
      cases c with
      | waiting host => exact .inl ⟨0, by simp only [step, hc, hidle]⟩
      | vetted host addrs =>
        exact .inr (.inr (.inr (.inr ⟨id, host, addrs, rfl, hc, by simp only [step, hc]⟩)))
      | done host result => exact .inl ⟨0, by simp only [step, hc, hidle]⟩

/-! ## Every interleaving -/

/-- The addresses are a complete answer for the host, of a lookup made on the way here, and every
one of them is allowed. -/
structure Vetted (r : PinningResolver) (tr : List Event) (host : Text)
    (addrs : List SocketAddr) : Prop where
  nonempty : addrs ≠ []
  allowed : ∀ sa ∈ addrs, ipAllowed sa.ip r.allowed = true
  answered : .answered host (some addrs) ∈ tr

theorem Vetted.mono {tr : List Event} {host : Text} {addrs : List SocketAddr}
    (h : Vetted r tr host addrs) (e : Event) : Vetted r (tr ++ [e]) host addrs :=
  ⟨h.nonempty, h.allowed, List.mem_append_left _ h.answered⟩

/-- The cache after the events of `tr`. -/
structure CacheInv (r : PinningResolver) (tr : List Event) (s : State) : Prop where
  size : s.cache.entries.length ≤ maxCacheEntries
  entry : ∀ host entry, s.cache.lookup host = some entry → Vetted r tr host entry.addrs
  expires : ∀ host entry, s.cache.lookup host = some entry →
    ∃ t, .stored host entry.addrs t ∈ tr ∧ t ≤ s.now ∧ entry.expires = t + r.ttl
  call : ∀ c ∈ s.calls, ∀ host addrs, c = .vetted host addrs ∨ c = .done host (.ok addrs) →
    Vetted r tr host addrs

theorem cacheInv_init (r : PinningResolver) : CacheInv r [] .init where
  size := Nat.zero_le _
  entry host entry h := by simp [State.init] at h
  expires host entry h := by simp [State.init] at h
  call c hc := by cases hc

theorem length_cached_le (cache : Cache) (host : Text) (now : Nat) :
    (cached cache host now).2.entries.length ≤ cache.entries.length := by
  rcases cached_cases cache host now with ⟨entry, -, -, hc⟩ | ⟨rest, hc, rfl | rfl⟩ <;> rw [hc]
  · exact length_erase_le cache host

theorem length_store_le (r : PinningResolver) (cache : Cache) (host : Text)
    (addrs : List SocketAddr) (now : Nat) :
    (r.store cache host addrs now).entries.length ≤ maxCacheEntries :=
  length_insertBounded_le (by decide)

/-- An event more, and the state as it was but for the calls and the time. -/
theorem CacheInv.mono {tr : List Event} {s : State} (h : CacheInv r tr s) (e : Event)
    {calls : List Call} {now : Nat} (hnow : s.now ≤ now)
    (hcalls : ∀ c ∈ calls, c ∉ s.calls → ∀ host addrs,
      c = .vetted host addrs ∨ c = .done host (.ok addrs) → Vetted r (tr ++ [e]) host addrs) :
    CacheInv r (tr ++ [e]) ⟨s.cache, calls, now⟩ where
  size := h.size
  entry host entry hl := (h.entry host entry hl).mono e
  expires host entry hl := by
    obtain ⟨t, ht, hle, he⟩ := h.expires host entry hl
    exact ⟨t, List.mem_append_left _ ht, hle.trans hnow, he⟩
  call c hc host addrs hv := by
    by_cases hs : c ∈ s.calls
    · exact (h.call c hs host addrs hv).mono e
    · exact hcalls c hc hs host addrs hv

/-- Entries may go. -/
theorem CacheInv.restrict {tr : List Event} {s : State} (h : CacheInv r tr s) {cache : Cache}
    (hlen : cache.entries.length ≤ s.cache.entries.length)
    (hsub : ∀ host entry, cache.lookup host = some entry → s.cache.lookup host = some entry) :
    CacheInv r tr { s with cache } where
  size := hlen.trans h.size
  entry host entry hl := h.entry host entry (hsub host entry hl)
  expires host entry hl := h.expires host entry (hsub host entry hl)
  call := h.call

theorem CacheInv.stored {tr : List Event} {s : State} {host : Text} {addrs : List SocketAddr}
    (h : CacheInv r tr s) (hv : Vetted r tr host addrs)
    (he : .stored host addrs s.now ∈ tr) :
    CacheInv r tr { s with cache := r.store s.cache host addrs s.now } where
  size := length_store_le ..
  entry k entry hl := by
    rcases lookup_store hl with ⟨rfl, rfl⟩ | hl
    · exact hv
    · exact h.entry k entry hl
  expires k entry hl := by
    rcases lookup_store hl with ⟨rfl, rfl⟩ | hl
    · exact ⟨s.now, he, le_rfl, rfl⟩
    · exact h.expires k entry hl
  call := h.call

/-- Every step keeps the invariant. -/
theorem CacheInv.step {tr : List Event} {s : State} (h : CacheInv r tr s) (i : Input) :
    CacheInv r (tr ++ [(r.machine.step s i).2]) (r.machine.step s i).1 := by
  show CacheInv r (tr ++ [(r.step s i).2]) (r.step s i).1
  rcases r.step_cases s i with ⟨d, hs⟩ | ⟨host, addrs, -, hc, hs⟩ | ⟨host, cache, -, hc, hs⟩ |
    ⟨id, host, answer, c, -, hw, hs, hres⟩ | ⟨id, host, addrs, -, hw, hs⟩ <;> rw [hs]
  · exact h.mono _ (Nat.le_add_right _ _) fun c hc hn => absurd hc hn
  · -- A hit returns an entry, and the entries are vetted.
    apply h.mono _ le_rfl
    intro c hm hn k as hk
    obtain rfl := List.mem_singleton.mp ((List.mem_append.mp hm).resolve_left hn)
    obtain ⟨-, entry, hl, rfl, -⟩ := cached_eq_some hc
    rcases hk with hk | hk
    · cases hk
    · cases hk
      exact (h.entry host entry hl).mono _
  · have hlen := length_cached_le s.cache host s.now
    have hlook : ∀ k entry, (cached s.cache host s.now).2.lookup k = some entry →
        s.cache.lookup k = some entry := fun k entry => lookup_of_lookup_cached
    rw [hc] at hlen hlook
    apply (h.restrict hlen hlook).mono _ le_rfl
    intro c hm hn k as hk
    obtain rfl := List.mem_singleton.mp ((List.mem_append.mp hm).resolve_left hn)
    rcases hk with hk | hk <;> cases hk
  · -- The answer of this very lookup is what a call carries on with.
    apply h.mono _ le_rfl
    intro d hm hn k as hk
    obtain rfl := (List.mem_or_eq_of_mem_set hm).resolve_left hn
    rcases hres with ⟨addrs, hv, rfl⟩ | ⟨e, hv, rfl⟩
    · obtain ⟨rfl, hne, hall⟩ := vet_eq_ok hv
      rcases hk with hk | hk <;> cases hk
      exact ⟨hne, hall, by simp⟩
    · rcases hk with hk | hk <;> cases hk
  · have hv : Vetted r tr host addrs := h.call _ (List.mem_of_getElem? hw) host addrs (.inl rfl)
    have hm : CacheInv r (tr ++ [.stored host addrs s.now])
        { s with calls := s.calls.set id (.done host (.ok addrs)) } := by
      apply h.mono _ le_rfl
      intro c hm hn k as hk
      obtain rfl := (List.mem_or_eq_of_mem_set hm).resolve_left hn
      rcases hk with hk | hk <;> cases hk
      exact hv.mono _
    exact hm.stored (hv.mono _) (by simp)

theorem cacheInv_run (r : PinningResolver) (is : List Input) :
    CacheInv r (r.machine.outputs .init is) (r.machine.run .init is) :=
  Machine.run_outputs_inv (I := fun _ => True) (cacheInv_init r) (fun _ _ i h _ => h.step i)
    fun _ _ => trivial

/-! ## Calls that return -/

/-- The call that an input is a step of. -/
def Input.caller (s : State) : Input → Option Nat
  | .tick _ => none
  | .call _ => some s.calls.length
  | .answer id _ => some id
  | .store id => some id

/-- A call that has returned stays as it is. -/
theorem done_step {s : State} {id : Nat} {host : Text}
    {result : Except ResolveError (List SocketAddr)}
    (h : s.calls[id]? = some (.done host result)) (i : Input) :
    (r.step s i).1.calls[id]? = some (.done host result) := by
  have hne : ∀ {j : Nat} {c d : Call}, s.calls[j]? = some c → c ≠ .done host result →
      (s.calls.set j d)[id]? = some (.done host result) := by
    intro j c d hj hc
    have hij : j ≠ id := by
      rintro rfl
      rw [hj, Option.some.injEq] at h
      exact hc h
    rw [List.getElem?_set_ne hij, h]
  have happ : ∀ c : Call, (s.calls ++ [c])[id]? = some (.done host result) := by
    intro c
    obtain ⟨hlt, -⟩ := List.getElem?_eq_some_iff.mp h
    rw [List.getElem?_append_left hlt, h]
  rcases r.step_cases s i with ⟨d, hs⟩ | ⟨k, addrs, -, -, hs⟩ | ⟨k, cache, -, -, hs⟩ |
    ⟨j, k, answer, c, -, hw, hs, -⟩ | ⟨j, k, addrs, -, hw, hs⟩ <;> rw [hs]
  · exact h
  · exact happ _
  · exact happ _
  · exact hne hw (by simp)
  · exact hne hw (by simp)

theorem done_run {s : State} {id : Nat} {host : Text}
    {result : Except ResolveError (List SocketAddr)}
    (h : s.calls[id]? = some (.done host result)) (is : List Input) :
    (r.machine.run s is).calls[id]? = some (.done host result) := by
  induction is generalizing s with
  | nil => exact h
  | cons i is ih => exact ih (done_step h i)

/-- An entry is added by a call that returns it, and by no other step. -/
theorem lookup_step {s : State} {i : Input} {k : Text} {entry : CacheEntry}
    (h : (r.step s i).1.cache.lookup k = some entry) :
    s.cache.lookup k = some entry ∨
      ∃ id, i.caller s = some id ∧
        (r.step s i).1.calls[id]? = some (.done k (.ok entry.addrs)) := by
  rcases r.step_cases s i with ⟨d, hs⟩ | ⟨host, addrs, rfl, -, hs⟩ | ⟨host, cache, rfl, hc, hs⟩ |
    ⟨id, host, answer, c, rfl, -, hs, -⟩ | ⟨id, host, addrs, rfl, hw, hs⟩ <;> rw [hs] at h ⊢
  · exact .inl h
  · exact .inl h
  · have hlook : (cached s.cache host s.now).2.lookup k = some entry := by rwa [hc]
    exact .inl (lookup_of_lookup_cached hlook)
  · exact .inl h
  · rcases lookup_store h with ⟨rfl, rfl⟩ | h
    · obtain ⟨hlt, -⟩ := List.getElem?_eq_some_iff.mp hw
      exact .inr ⟨id, rfl, List.getElem?_set_self hlt⟩
    · exact .inl h

/-- **The cache under every interleaving**: it stays within its bound, and holds and returns
vetted complete answers only; what it returns was stored less than the time to live before; and
a call that fails has added nothing. -/
theorem cache_sound_of_interleaving (r : PinningResolver) (is : List Input) :
    let s := r.machine.run .init is
    let tr := r.machine.outputs .init is
    s.cache.entries.length ≤ maxCacheEntries ∧
    (∀ host entry, s.cache.lookup host = some entry → Vetted r tr host entry.addrs) ∧
    (∀ (id : Nat) host addrs, s.calls[id]? = some (.done host (.ok addrs)) →
      Vetted r tr host addrs) ∧
    (∀ pre i post, is = pre ++ i :: post → ∀ host addrs t,
      (r.machine.step (r.machine.run .init pre) i).2 = .hit host addrs t →
        ∃ u, .stored host addrs u ∈ r.machine.outputs .init pre ∧ u ≤ t ∧ t < u + r.ttl) ∧
    ∀ (id : Nat) host e, s.calls[id]? = some (.done host (.error e)) →
      ∀ pre i post, is = pre ++ i :: post → i.caller (r.machine.run .init pre) = some id →
        ∀ k entry, (r.machine.run .init (pre ++ [i])).cache.lookup k = some entry →
          (r.machine.run .init pre).cache.lookup k = some entry := by
  have hinv := cacheInv_run r is
  refine ⟨hinv.size, hinv.entry, ?_, ?_, ?_⟩
  · intro id host addrs hd
    exact hinv.call _ (List.mem_of_getElem? hd) host addrs (.inr rfl)
  · rintro pre i post - host addrs t hh
    have hpre := cacheInv_run r pre
    generalize r.machine.run .init pre = s at hh hpre
    have hh : (r.step s i).2 = .hit host addrs t := hh
    rcases r.step_cases s i with ⟨d, hs⟩ | ⟨k, as, rfl, hc, hs⟩ | ⟨k, cache, rfl, hc, hs⟩ |
      ⟨id, k, answer, c, rfl, -, hs, -⟩ | ⟨id, k, as, rfl, hw, hs⟩ <;> rw [hs] at hh <;> cases hh
    obtain ⟨-, entry, hl, rfl, hlt⟩ := cached_eq_some hc
    obtain ⟨u, hu, hle, he⟩ := hpre.expires host entry hl
    exact ⟨u, hu, hle, by omega⟩
  · intro id host e hd pre i post his hcall k entry hl
    rw [Machine.run_append] at hl
    rcases lookup_step hl with hl | ⟨j, hj, hok⟩
    · exact hl
    · -- The call that added it has returned `Ok`, and a call returns once.
      have hij : j = id := Option.some.inj (hj.symm.trans hcall)
      have hend := done_run (r := r) hok post
      have hrun : r.machine.run .init is =
          r.machine.run (r.step (r.machine.run .init pre) i).1 post := by
        rw [his, Machine.run_append]
        rfl
      rw [← hrun, hij, hd] at hend
      cases hend

end PinningResolver

end Flexd

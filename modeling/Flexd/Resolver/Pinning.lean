import Flexd.Resolver.Concurrent

/-!
# Pinned addresses

What the cache of the resolver stands for: `pinned`, the answer that was
stored last for a host. Under every interleaving a hit returns it
(`Pins.entry`), and as long as fewer hosts are asked for than the cache has
room for, so does every call within the time to live (`pins_exact`). A DNS
answer that changes meanwhile reaches no connection, unless its lookup was
already under way (`rebinding_excluded`).
-/

namespace Flexd

open Lib

namespace PinningResolver

/-! ## The answers of a trace -/

/-- The answer that an event stores for a host, and when. -/
def Event.pin (host : Text) : Event → Option (List SocketAddr × Nat)
  | .stored h addrs t => if h = host then some (addrs, t) else none
  | _ => none

/-- The answer that was stored last for a host, and when. -/
def pinned (host : Text) (tr : List Event) : Option (List SocketAddr × Nat) :=
  (tr.filterMap (Event.pin host)).getLast?

/-- The host that an event is about. -/
def Event.host : Event → Option Text
  | .idle => none
  | .hit host _ _ => some host
  | .missed host => some host
  | .answered host _ => some host
  | .stored host _ _ => some host

/-- The host that a call is for. -/
def Call.host : Call → Text
  | .waiting host => host
  | .vetted host _ => host
  | .done host _ => host

/-- The call has not returned. -/
def Call.underWay : Call → Bool
  | .done _ _ => false
  | _ => true

/-- The calls are for these hosts. -/
def AsksFor (hosts : Finset Text) (i : Input) : Prop := ∀ host, i = .call host → host ∈ hosts

variable {r : PinningResolver} {host : Text} {tr : List Event} {s : State}

theorem pinned_append_of_none {e : Event} (h : e.pin host = none) :
    pinned host (tr ++ [e]) = pinned host tr := by
  simp [pinned, h]

theorem pinned_append_of_some {e : Event} {p : List SocketAddr × Nat} (h : e.pin host = some p) :
    pinned host (tr ++ [e]) = some p := by
  simp [pinned, h]

/-- Only a store pins. -/
theorem pinned_append_stored (k : Text) (addrs : List SocketAddr) (t : Nat) :
    pinned host (tr ++ [.stored k addrs t]) =
      if k = host then some (addrs, t) else pinned host tr := by
  split
  · next h => exact pinned_append_of_some (by simp [Event.pin, h])
  · next h => exact pinned_append_of_none (by simp [Event.pin, h])

/-! ## One step -/

/-- The cache holds nothing but what is pinned, and a call is for one of the hosts. -/
structure Pins (r : PinningResolver) (hosts : Finset Text) (tr : List Event) (s : State) :
    Prop where
  entry : ∀ host entry, s.cache.lookup host = some entry →
    ∃ t, pinned host tr = some (entry.addrs, t) ∧ entry.expires = t + r.ttl
  calls : ∀ c ∈ s.calls, c.host ∈ hosts
  keys : ∀ host ∈ s.cache, host ∈ hosts
  /-- With room for every host, the cache holds all that is pinned and has not expired. -/
  kept : hosts.card < maxCacheEntries → ∀ host addrs t, pinned host tr = some (addrs, t) →
    s.now < t + r.ttl → s.cache.lookup host = some ⟨addrs, t + r.ttl⟩

variable {hosts : Finset Text}

theorem pins_init (r : PinningResolver) (hosts : Finset Text) : Pins r hosts [] .init where
  entry host entry h := by simp [State.init] at h
  calls c hc := by cases hc
  keys host h := by simp [State.init] at h
  kept _ host addrs t h := by cases h

/-- An event that stores nothing leaves the cache its pins. -/
theorem Pins.mono (h : Pins r hosts tr s) {e : Event} (he : ∀ host, e.pin host = none)
    {calls : List Call} (hcalls : ∀ c ∈ calls, c.host ∈ hosts) {now : Nat} (hnow : s.now ≤ now) :
    Pins r hosts (tr ++ [e]) ⟨s.cache, calls, now⟩ where
  entry host entry hl := by
    rw [pinned_append_of_none (he host)]
    exact h.entry host entry hl
  calls := hcalls
  keys := h.keys
  kept hroom host addrs t hp ht := by
    rw [pinned_append_of_none (he host)] at hp
    exact h.kept hroom host addrs t hp (Nat.lt_of_le_of_lt hnow ht)

theorem Pins.room (h : Pins r hosts tr s) (hroom : hosts.card < maxCacheEntries) :
    s.cache.entries.length < maxCacheEntries :=
  Nat.lt_of_le_of_lt (length_entries_le_card h.keys) hroom

/-- With room for every host, a call for what is pinned and has not expired is no miss. -/
theorem Pins.ne_of_missed (h : Pins r hosts tr s) (hroom : hosts.card < maxCacheEntries)
    {k : Text} {addrs : List SocketAddr} {t : Nat} (hp : pinned k tr = some (addrs, t))
    (ht : s.now < t + r.ttl) {cache : Cache} (hc : cached s.cache host s.now = (none, cache)) :
    host ≠ k := by
  rintro rfl
  rw [cached, h.kept hroom host addrs t hp ht] at hc
  simp [ht] at hc

/-- A miss takes out what has expired. -/
theorem Pins.missed (h : Pins r hosts tr s) {cache : Cache}
    (hc : cached s.cache host s.now = (none, cache)) : Pins r hosts tr { s with cache } := by
  have hsub : ∀ k entry, cache.lookup k = some entry → s.cache.lookup k = some entry := by
    intro k entry hl
    have hrest : (cached s.cache host s.now).2.lookup k = some entry := by rwa [hc]
    exact lookup_of_lookup_cached hrest
  refine ⟨fun k entry hl => h.entry k entry (hsub k entry hl), h.calls, fun k hk => ?_,
    fun hroom k addrs t hp ht => ?_⟩
  · obtain ⟨entry, hl⟩ := Option.isSome_iff_exists.mp (AList.lookup_isSome.mpr hk)
    exact h.keys k (AList.lookup_isSome.mp (by rw [hsub k entry hl]; rfl))
  · have hl := h.kept hroom k addrs t hp ht
    rcases cached_cases s.cache host s.now with ⟨entry, -, -, hhit⟩ | ⟨rest, hmiss, hrest⟩
    · rw [hhit] at hc
      cases hc
    · rw [hmiss] at hc
      cases hc
      rcases hrest with rfl | rfl
      · exact hl
      · -- the entry that goes has expired, so it is not this one
        have hne : host ≠ k := h.ne_of_missed hroom hp ht hmiss
        show (s.cache.erase host).lookup k = _
        rw [AList.lookup_erase_ne hne.symm, hl]

/-- A store pins its own answer. -/
theorem Pins.stored (h : Pins r hosts tr s) {addrs : List SocketAddr} (hhost : host ∈ hosts) :
    Pins r hosts (tr ++ [.stored host addrs s.now])
      { s with cache := r.store s.cache host addrs s.now } where
  entry k entry hl := by
    by_cases hk : k = host
    · subst hk
      have hself : (r.store s.cache k addrs s.now).lookup k = some ⟨addrs, s.now + r.ttl⟩ :=
        AList.lookup_insert _
      cases hself.symm.trans hl
      exact ⟨s.now, by rw [pinned_append_stored, if_pos rfl], rfl⟩
    · rcases lookup_store hl with ⟨rfl, -⟩ | hl
      · exact absurd rfl hk
      · rw [pinned_append_stored, if_neg (Ne.symm hk)]
        exact h.entry k entry hl
  calls := h.calls
  keys k hk := by
    obtain ⟨entry, hl⟩ := Option.isSome_iff_exists.mp (AList.lookup_isSome.mpr hk)
    rcases lookup_store hl with ⟨rfl, -⟩ | hl
    · exact hhost
    · exact h.keys k (AList.lookup_isSome.mp (by rw [hl]; rfl))
  kept hroom k as t hp ht := by
    have hlook : (r.store s.cache host addrs s.now).lookup k =
        if k = host then some ⟨addrs, s.now + r.ttl⟩ else s.cache.lookup k :=
      lookup_insertBounded_of_lt (h.room hroom) k
    rw [hlook]
    rw [pinned_append_stored] at hp
    by_cases hk : k = host
    · rw [if_pos hk.symm] at hp
      cases hp
      rw [if_pos hk]
    · rw [if_neg (Ne.symm hk)] at hp
      rw [if_neg hk]
      exact h.kept hroom k as t hp ht

/-- Every step keeps the invariant. -/
theorem Pins.step (h : Pins r hosts tr s) {i : Input} (hi : AsksFor hosts i) :
    Pins r hosts (tr ++ [(r.machine.step s i).2]) (r.machine.step s i).1 := by
  show Pins r hosts (tr ++ [(r.step s i).2]) (r.step s i).1
  have hset {id : Nat} {c d : Call} (hc : s.calls[id]? = some c) (hd : d.host = c.host) :
      ∀ e ∈ s.calls.set id d, e.host ∈ hosts := by
    intro e he
    rcases List.mem_or_eq_of_mem_set he with he | rfl
    · exact h.calls e he
    · rw [hd]
      exact h.calls c (List.mem_of_getElem? hc)
  have happ (c : Call) (hc : c.host ∈ hosts) : ∀ e ∈ s.calls ++ [c], e.host ∈ hosts := by
    intro e he
    rcases List.mem_append.mp he with he | he
    · exact h.calls e he
    · rwa [List.mem_singleton.mp he]
  rcases r.step_cases s i with ⟨d, hs⟩ | ⟨host, addrs, hcall, hc, hs⟩ |
    ⟨host, cache, hcall, hc, hs⟩ | ⟨id, host, answer, c, -, hw, hs, hres⟩ |
    ⟨id, host, addrs, -, hw, hs⟩ <;> rw [hs]
  · exact h.mono (fun _ => rfl) h.calls (Nat.le_add_right _ _)
  · exact h.mono (fun _ => rfl) (happ (.done host (.ok addrs)) (hi host hcall)) le_rfl
  · exact (h.missed hc).mono (fun _ => rfl) (happ (.waiting host) (hi host hcall)) le_rfl
  · refine h.mono (fun _ => rfl) (hset hw ?_) le_rfl
    rcases hres with ⟨addrs, -, rfl⟩ | ⟨e, -, rfl⟩ <;> rfl
  · have hhost : host ∈ hosts := h.calls _ (List.mem_of_getElem? hw)
    exact { h.stored hhost with calls := hset hw rfl }

/-! ## Every interleaving -/

theorem pins_run (r : PinningResolver) {is : List Input} (his : ∀ i ∈ is, AsksFor hosts i) :
    Pins r hosts (r.machine.outputs .init is) (r.machine.run .init is) :=
  Machine.run_outputs_inv (pins_init r hosts) (fun _ _ _ h hi => h.step hi) his

/-- What a call finds that comes when `tr` has happened. -/
def lookupPinned (r : PinningResolver) (host : Text) (tr : List Event) (now : Nat) : Event :=
  match pinned host tr with
  | some (addrs, t) => if now < t + r.ttl then .hit host addrs now else .missed host
  | none => .missed host

/-- What a call can find: a hit is what is pinned, and with room for every host it is a hit. -/
theorem Pins.call (h : Pins r hosts tr s) (host : Text) :
    (∀ k addrs t, (r.machine.step s (.call host)).2 = .hit k addrs t →
      .hit k addrs t = r.lookupPinned host tr s.now) ∧
    (hosts.card < maxCacheEntries →
      (r.machine.step s (.call host)).2 = r.lookupPinned host tr s.now) := by
  show (∀ k addrs t, (r.step s (.call host)).2 = .hit k addrs t → _) ∧
    (_ → (r.step s (.call host)).2 = _)
  rcases cached_cases s.cache host s.now with ⟨entry, hl, hnow, hc⟩ | ⟨rest, hc, -⟩
  · have hfound : Event.hit host entry.addrs s.now = r.lookupPinned host tr s.now := by
      obtain ⟨t, hp, he⟩ := h.entry host entry hl
      rw [he] at hnow
      simp only [lookupPinned, hp, if_pos hnow]
    simp only [PinningResolver.step, hc]
    exact ⟨fun k addrs t e => e.symm.trans hfound, fun _ => hfound⟩
  · simp only [PinningResolver.step, hc]
    refine ⟨fun k addrs t e => ?_, fun hroom => ?_⟩
    · cases e
    unfold lookupPinned
    split
    · next addrs t hp =>
      split
      · next hnow => exact absurd rfl (h.ne_of_missed hroom hp hnow hc)
      · rfl
    · rfl

/-- **The cache pins.** Under every interleaving a call that is answered from the cache gets the
answer stored last for its host, less than the time to live before. And where all calls together
are for fewer hosts than the cache has room for, a call is answered from the cache exactly when
there is such an answer. -/
theorem pins_exact (r : PinningResolver) (is : List Input) :
    ∀ pre host post, is = pre ++ .call host :: post →
      let s := r.machine.run .init pre
      let tr := r.machine.outputs .init pre
      (∀ k addrs t, (r.machine.step s (.call host)).2 = .hit k addrs t →
        .hit k addrs t = r.lookupPinned host tr s.now) ∧
      ∀ hosts : Finset Text, (∀ i ∈ is, AsksFor hosts i) → hosts.card < maxCacheEntries →
        (r.machine.step s (.call host)).2 = r.lookupPinned host tr s.now := by
  rintro pre host post rfl s tr
  constructor
  · have hpre : ∀ i ∈ pre, AsksFor (pre.filterMap fun
        | .call k => some k
        | _ => none).toFinset i := by
      rintro i hi k rfl
      exact List.mem_toFinset.mpr (List.mem_filterMap.mpr ⟨_, hi, rfl⟩)
    exact ((pins_run r hpre).call host).1
  · intro hosts his hroom
    have hpre : ∀ i ∈ pre, AsksFor hosts i := fun i hi => his i (List.mem_append_left _ hi)
    exact ((pins_run r hpre).call host).2 hroom

/-- A resolver that keeps public addresses for half a minute. -/
def halfMinute : PinningResolver := ⟨[], 30⟩

/-- One resolution of `app`. -/
def appResolved : List Input := [.call "app".toList, .answer 0 (some [⟨.v4 ⟨1, 1, 1, 1⟩, 0⟩]),
  .store 0]

theorem appResolved_asks : ∀ i ∈ appResolved ++ [.call "app".toList],
    AsksFor {"app".toList} i := by
  simp [appResolved, AsksFor]

theorem card_app_lt : ({"app".toList} : Finset Text).card < maxCacheEntries := by
  rw [Finset.card_singleton]
  decide

theorem pins_exact_app :
    (halfMinute.machine.step (halfMinute.machine.run .init appResolved) (.call "app".toList)).2 =
      halfMinute.lookupPinned "app".toList (halfMinute.machine.outputs .init appResolved)
        (halfMinute.machine.run .init appResolved).now :=
  (pins_exact halfMinute (appResolved ++ [.call "app".toList]) appResolved "app".toList []
    rfl).2 {"app".toList} appResolved_asks card_app_lt

/-! ## Rebinding -/

/-- The answer is pinned, and no call is under way that could change it. -/
structure Settled (host : Text) (addrs : List SocketAddr) (u : Nat) (tr : List Event) (s : State) :
    Prop where
  pinned : pinned host tr = some (addrs, u)
  quiet : ∀ c ∈ s.calls, c.host = host → c.underWay = false

/-- Within the time to live, a step about the host is a hit. -/
theorem Settled.step {addrs : List SocketAddr} {u : Nat} (h : Settled host addrs u tr s)
    (hp : Pins r hosts tr s) (hroom : hosts.card < maxCacheEntries) (hnow : s.now < u + r.ttl)
    (i : Input) :
    Settled host addrs u (tr ++ [(r.machine.step s i).2]) (r.machine.step s i).1 ∧
      ((r.machine.step s i).2.host = some host →
        (r.machine.step s i).2 = .hit host addrs s.now) := by
  show Settled host addrs u (tr ++ [(r.step s i).2]) (r.step s i).1 ∧
    ((r.step s i).2.host = some host → (r.step s i).2 = .hit host addrs s.now)
  have hl := hp.kept hroom host addrs u h.pinned hnow
  have hset {id : Nat} {c d : Call} (hc : s.calls[id]? = some c) (hway : c.underWay = true)
      (hd : d.host = c.host) : c.host ≠ host ∧
        ∀ e ∈ s.calls.set id d, e.host = host → e.underWay = false := by
    have hne : c.host ≠ host := fun hch =>
      absurd (h.quiet c (List.mem_of_getElem? hc) hch) (by simp [hway])
    refine ⟨hne, fun e he heh => ?_⟩
    rcases List.mem_or_eq_of_mem_set he with he | rfl
    · exact h.quiet e he heh
    · exact absurd (hd ▸ heh) hne
  rcases r.step_cases s i with ⟨d, hs⟩ | ⟨k, as, -, hc, hs⟩ | ⟨k, cache, -, hc, hs⟩ |
    ⟨id, k, answer, c, -, hw, hs, hres⟩ | ⟨id, k, as, -, hw, hs⟩ <;> rw [hs]
  · exact ⟨⟨by rw [pinned_append_of_none rfl, h.pinned], h.quiet⟩, nofun⟩
  · refine ⟨⟨by rw [pinned_append_of_none rfl, h.pinned], fun c hm hch => ?_⟩, fun hk => ?_⟩
    · rcases List.mem_append.mp hm with hm | hm
      · exact h.quiet c hm hch
      · rw [List.mem_singleton.mp hm]
        rfl
    · cases hk
      obtain ⟨-, entry, hentry, rfl, -⟩ := cached_eq_some hc
      cases hl.symm.trans hentry
      rfl
  · have hne : k ≠ host := hp.ne_of_missed hroom h.pinned hnow hc
    refine ⟨⟨by rw [pinned_append_of_none rfl, h.pinned], fun c hm hch => ?_⟩,
      fun hk => absurd (Option.some.inj hk) hne⟩
    rcases List.mem_append.mp hm with hm | hm
    · exact h.quiet c hm hch
    · rw [List.mem_singleton.mp hm] at hch
      exact absurd hch hne
  · have hd : c.host = k := by
      rcases hres with ⟨as, -, rfl⟩ | ⟨e, -, rfl⟩ <;> rfl
    obtain ⟨hne, hquiet⟩ := hset hw rfl hd
    exact ⟨⟨by rw [pinned_append_of_none rfl, h.pinned], hquiet⟩,
      fun hk => absurd (Option.some.inj hk) hne⟩
  · obtain ⟨hne, hquiet⟩ := hset (d := .done k (.ok as)) hw rfl rfl
    have hk : k ≠ host := hne
    refine ⟨⟨?_, hquiet⟩, fun hkh => absurd (Option.some.inj hkh) hk⟩
    rw [pinned_append_stored, if_neg hk, h.pinned]

/-- Time only goes on. -/
theorem now_le_step (s : State) (i : Input) : s.now ≤ (r.machine.step s i).1.now := by
  show s.now ≤ (r.step s i).1.now
  rcases r.step_cases s i with ⟨d, hs⟩ | ⟨host, addrs, -, -, hs⟩ | ⟨host, cache, -, -, hs⟩ |
    ⟨id, host, answer, c, -, -, hs, -⟩ | ⟨id, host, addrs, -, -, hs⟩ <;> rw [hs]
  · exact Nat.le_add_right _ _

theorem settled_run {is js : List Input} (his : ∀ i ∈ is ++ js, AsksFor hosts i)
    (hroom : hosts.card < maxCacheEntries) {addrs : List SocketAddr} {u : Nat}
    (h : Settled host addrs u (r.machine.outputs .init is) (r.machine.run .init is))
    (hnow : (r.machine.run .init (is ++ js)).now < u + r.ttl) :
    Settled host addrs u (r.machine.outputs .init (is ++ js)) (r.machine.run .init (is ++ js)) := by
  induction js using List.reverseRecOn with
  | nil => simpa using h
  | append_singleton js i ih =>
    rw [← List.append_assoc] at his hnow ⊢
    rw [Machine.run_append] at hnow ⊢
    rw [Machine.outputs_append]
    have hbefore := Nat.lt_of_le_of_lt (now_le_step _ i) hnow
    have hpre : ∀ i ∈ is ++ js, AsksFor hosts i := fun i hi => his i (List.mem_append_left _ hi)
    exact ((ih hpre hbefore).step (pins_run r hpre) hroom hbefore i).1

/-- **A DNS answer that changes is not seen.** Where the calls are for fewer hosts than the cache
has room for: once an answer is stored for a host and no call for it is under way, everything that
happens for the host within the time to live is a hit of this answer, under every interleaving and
whatever DNS answers by then. -/
theorem rebinding_excluded (r : PinningResolver) (is js : List Input) (hosts : Finset Text)
    (his : ∀ i ∈ is ++ js, AsksFor hosts i) (hroom : hosts.card < maxCacheEntries)
    {host : Text} {addrs : List SocketAddr} {u : Nat}
    (h : Settled host addrs u (r.machine.outputs .init is) (r.machine.run .init is)) :
    ∀ pre i post, js = pre ++ i :: post →
      let s := r.machine.run .init (is ++ pre)
      s.now < u + r.ttl → (r.machine.step s i).2.host = some host →
        (r.machine.step s i).2 = .hit host addrs s.now := by
  rintro pre i post rfl s hnow hhost
  have hpre : ∀ i ∈ is ++ pre, AsksFor hosts i := fun i hi => his i (by
    rw [← List.append_assoc]
    exact List.mem_append_left _ hi)
  exact ((settled_run hpre hroom h hnow).step (pins_run r hpre) hroom hnow i).2 hhost

theorem rebinding_excluded_app :
    (halfMinute.machine.step (halfMinute.machine.run .init appResolved) (.call "app".toList)).2 =
      .hit "app".toList [⟨.v4 ⟨1, 1, 1, 1⟩, 0⟩] 0 := by
  have hsettled : Settled "app".toList [⟨.v4 ⟨1, 1, 1, 1⟩, 0⟩] 0
      (halfMinute.machine.outputs .init appResolved)
      (halfMinute.machine.run .init appResolved) := by
    refine ⟨by decide +kernel, fun c hc _ => ?_⟩
    have hcalls : (halfMinute.machine.run .init appResolved).calls.all (!·.underWay) = true := by
      decide +kernel
    simpa using List.all_eq_true.mp hcalls c hc
  exact rebinding_excluded halfMinute appResolved [.call "app".toList] {"app".toList}
    appResolved_asks card_app_lt hsettled [] (.call "app".toList) [] rfl (by decide +kernel)
    (by decide +kernel)

end PinningResolver

end Flexd

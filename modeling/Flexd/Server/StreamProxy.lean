import Flexd.Balance.LeastConn

/-!
# The stream proxy

A stream listener has a balancer of its own pool. Each connection is a session
that tries the servers in the balancer's order, relays to the first it
connects to under a guard of the balancer, and is dropped when none is left.
The machine takes the steps of any number of sessions in any order. Least-conn
sorts by gauges that it reads anew at every comparison, so other sessions may
move them under it; `stream_ordered` says that the gauges are the live sessions,
and that a selection which none of them moves under orders by these.
`stream_session` says what any one session does.
-/

namespace Flexd

open Lib

/-! ## The machine -/

/-- A connection of the listener. -/
inductive StreamSession where
  /-- Its task has not begun. -/
  | spawned (client : IpAddr)
  /-- Its least-conn sort has begun; whether a gauge has moved since. -/
  | sorting (client : IpAddr) (raced : Bool)
  /-- The servers it has still to try. -/
  | trying (left : List Nat)
  /-- It copies to and from a server. -/
  | relaying (idx : Nat)
  | ended
  /-- Its sort has panicked, and the task with it. -/
  | panicked
  deriving DecidableEq

/-- A sort has met a gauge that moved. -/
def StreamSession.race : StreamSession → StreamSession
  | .sorting client _ => .sorting client true
  | session => session

/-- An order that a sort of `n` servers may end in. -/
abbrev ServerOrder (n : Nat) := { order : List Nat // order.Perm (List.range n) }

structure StreamState where
  running : Bool := true
  pools : Pools
  sessions : List StreamSession := []

inductive StreamInput (n : Nat) where
  | shutdown
  | accepted (client : IpAddr)
  /-- A session goes on; `connects` is how its connection attempt ends, if it makes one. `raced` is
  where its sort ends if gauges have moved under it, in some order or in a panic: that is all
  `sort_by` promises for comparisons that are no total order. -/
  | session (i : Nat) (connects : Bool) (raced : Option (ServerOrder n))

/-- What a step of a session shows. -/
inductive SessionEvent where
  | order (servers : List Nat)
  | failed (idx : Nat)
  | relayed (idx : Nat)
  | finished
  | dropped
  | panicked
  deriving DecidableEq

/-- A gauge moves. -/
def SessionEvent.moves : SessionEvent → Bool
  | .relayed _ | .finished => true
  | _ => false

/-- `Balancer::for_upstream`. -/
def Balancer.forUpstream (u : UpstreamRef) : Pools := Balancer.add ∅ u

namespace StreamState

/-- A session goes on. -/
def sessionStep (hash : Hashers) (u : UpstreamRef) (pools : Pools) (connects : Bool)
    (raced : Option (ServerOrder u.servers.length)) :
    StreamSession → Pools × StreamSession × Option SessionEvent
  | .spawned client =>
    if u.strategy = .leastConn ∧ 2 ≤ u.servers.length then (pools, .sorting client false, none)
    else
      let (order, pools) := Balancer.candidates hash pools u client
      (pools, .trying order, some (.order order))
  | .sorting client false =>
    -- the gauges that the sort has read are still the gauges
    let (order, pools) := Balancer.candidates hash pools u client
    (pools, .trying order, some (.order order))
  | .sorting _ true =>
    match raced with
    | some order => (pools, .trying order, some (.order order))
    | none => (pools, .panicked, some .panicked)
  | .trying [] => (pools, .ended, some .dropped)
  | .trying (idx :: left) =>
    match u.servers[idx]? with
    | none => (pools, .trying left, none)
    | some _ =>
      if connects then (Balancer.track pools u idx, .relaying idx, some (.relayed idx))
      else (pools, .trying left, some (.failed idx))
  | .relaying idx => (Balancer.release pools u idx, .ended, some .finished)
  | .ended => (pools, .ended, none)
  | .panicked => (pools, .panicked, none)

def step (hash : Hashers) (u : UpstreamRef) (s : StreamState) :
    StreamInput u.servers.length → StreamState × Option (Nat × SessionEvent)
  | .shutdown => ({ s with running := false }, none)
  | .accepted client =>
    if s.running then ({ s with sessions := s.sessions ++ [.spawned client] }, none) else (s, none)
  | .session i connects raced =>
    match s.sessions[i]? with
    | none => (s, none)
    | some session =>
      let (pools, session, event) := sessionStep hash u s.pools connects raced session
      let sessions := s.sessions.set i session
      ({ s with
          pools
          sessions := if event.any (·.moves) then sessions.map StreamSession.race else sessions },
        event.map (i, ·))

/-- `accept_stream_loop`, with the sessions it has started. -/
def machine (hash : Hashers) (u : UpstreamRef) :
    Machine StreamState (StreamInput u.servers.length) (Option (Nat × SessionEvent)) :=
  ⟨step hash u⟩

def init (u : UpstreamRef) : StreamState := { pools := Balancer.forUpstream u }

/-- How many sessions relay to a server. -/
def live (s : StreamState) (idx : Nat) : Nat := s.sessions.count (.relaying idx)

end StreamState

/-! ## The gauges count the sessions -/

/-- The guards that the sessions hold. -/
def guardsOf (u : UpstreamRef) (sessions : List StreamSession) : List (UpstreamRef × Nat) :=
  sessions.filterMap fun
    | .relaying idx => some (u, idx)
    | _ => none

theorem count_guardsOf (u : UpstreamRef) (sessions : List StreamSession) (idx : Nat) :
    (guardsOf u sessions).count (u, idx) = sessions.count (.relaying idx) := by
  induction sessions with
  | nil => rfl
  | cons session sessions ih =>
    cases session with
    | relaying k =>
      show ((u, k) :: guardsOf u sessions).count (u, idx) = _
      rw [List.count_cons, List.count_cons, ih]
      simp
    | spawned client => simpa [guardsOf, List.count_cons] using ih
    | sorting client raced => simpa [guardsOf, List.count_cons] using ih
    | trying left => simpa [guardsOf, List.count_cons] using ih
    | ended => simpa [guardsOf, List.count_cons] using ih
    | panicked => simpa [guardsOf, List.count_cons] using ih

theorem mem_guardsOf {u : UpstreamRef} {sessions : List StreamSession} {g : UpstreamRef × Nat}
    (h : g ∈ guardsOf u sessions) : g.1 = u := by
  obtain ⟨session, -, hg⟩ := List.mem_filterMap.mp h
  cases session <;> cases hg
  rfl

/-- A block with the one pool, whose balancer is that of the listener. -/
def poolBlock (u : UpstreamRef) : HttpBlock where
  listen := []
  upstreams := [u]

theorem forUpstream_eq_new (u : UpstreamRef) :
    Balancer.forUpstream u = Balancer.new (poolBlock u) := rfl

/-- Every guard of the pool is counted on a gauge of its own. -/
theorem countsFor_poolBlock (u : UpstreamRef) (idx : Nat) :
    CountsFor (poolBlock u) u (.track u idx) := by
  intro _ hlt
  refine ⟨rfl, ?_⟩
  simpa [gaugeCount, poolsOf, poolBlock, inlineUpstreams] using hlt

variable {hash : Hashers} {u : UpstreamRef} {s : StreamState}

/-- The gauges are the live sessions. -/
def SessionsCounted (u : UpstreamRef) (s : StreamState) : Prop :=
  Counted (poolBlock u) u ⟨s.pools, guardsOf u s.sessions⟩

theorem sessionsCounted_init (u : UpstreamRef) : SessionsCounted u (.init u) := by
  unfold SessionsCounted StreamState.init
  rw [forUpstream_eq_new]
  exact counted_init

/-- The same gauges, and sessions that relay to the same servers. -/
theorem counted_of_live {pools pools' : Pools} {sessions sessions' : List StreamSession}
    (h : Counted (poolBlock u) u ⟨pools, guardsOf u sessions⟩)
    (hgauges : gauges pools' u.name = gauges pools u.name)
    (hlive : ∀ idx, sessions'.count (.relaying idx) = sessions.count (.relaying idx)) :
    Counted (poolBlock u) u ⟨pools', guardsOf u sessions'⟩ where
  length := (congrArg (fun g => (g.map List.length).getD 0) hgauges).trans h.length
  guards g hg := by
    have := mem_guardsOf hg
    obtain ⟨v, idx⟩ := g
    obtain rfl : v = u := this
    exact countsFor_poolBlock v idx
  exact idx hidx := by
    have hexact := h.exact idx hidx
    unfold LoadState.load at hexact ⊢
    rw [count_guardsOf] at hexact ⊢
    rw [hlive, ← hexact]
    exact congrArg (fun g => (g.bind (·[idx]?)).getD 0) hgauges

/-- The sessions on a server after one of them has changed. -/
theorem count_set_session {sessions : List StreamSession} {i : Nat} {old : StreamSession}
    (h : sessions[i]? = some old) (new : StreamSession) (idx : Nat) :
    (sessions.set i new).count (.relaying idx) =
      sessions.count (.relaying idx) - (if old = .relaying idx then 1 else 0) +
        if new = .relaying idx then 1 else 0 := by
  obtain ⟨hlt, hget⟩ := List.getElem?_eq_some_iff.mp h
  rw [List.count_set hlt, hget]
  simp only [beq_iff_eq]

theorem race_eq_relaying {session : StreamSession} {idx : Nat} :
    session.race = .relaying idx ↔ session = .relaying idx := by
  cases session <;> simp [StreamSession.race]

/-- A sort that is raced relays to nobody, before and after. -/
theorem count_map_race (sessions : List StreamSession) (idx : Nat) :
    (sessions.map StreamSession.race).count (.relaying idx) = sessions.count (.relaying idx) := by
  rw [List.count_eq_countP, List.countP_map, List.count_eq_countP]
  exact List.countP_congr fun session _ => by simp [race_eq_relaying]

/-- **A session's step** moves no gauge, takes a guard, or drops one. -/
theorem sessionStep_cases (hash : Hashers) (u : UpstreamRef) (pools : Pools) (connects : Bool)
    (raced : Option (ServerOrder u.servers.length)) (session : StreamSession) :
    let r := StreamState.sessionStep hash u pools connects raced session
    (r.2.2.any (·.moves) = false ∧ gauges r.1 u.name = gauges pools u.name ∧
      (∀ idx, session ≠ .relaying idx) ∧ ∀ idx, r.2.1 ≠ .relaying idx) ∨
    (∃ idx, r = (Balancer.track pools u idx, .relaying idx, some (.relayed idx)) ∧
      ∀ idx, session ≠ .relaying idx) ∨
    ∃ idx, session = .relaying idx ∧
      r = (Balancer.release pools u idx, .ended, some .finished) := by
  have hpick (client : IpAddr) := gauges_candidates hash pools u client u.name
  cases session with
  | spawned client =>
    simp only [StreamState.sessionStep]
    split
    · exact .inl ⟨rfl, rfl, by simp, by simp⟩
    · exact .inl ⟨rfl, hpick client, by simp, by simp⟩
  | sorting client r =>
    cases r with
    | false => exact .inl ⟨rfl, hpick client, by simp, by simp [StreamState.sessionStep]⟩
    | true =>
      cases raced with
      | none => exact .inl ⟨rfl, rfl, by simp, by simp [StreamState.sessionStep]⟩
      | some order => exact .inl ⟨rfl, rfl, by simp, by simp [StreamState.sessionStep]⟩
  | trying left =>
    cases left with
    | nil => exact .inl ⟨rfl, rfl, by simp, by simp [StreamState.sessionStep]⟩
    | cons idx left =>
      cases hserver : u.servers[idx]? with
      | none => exact .inl (by simp [StreamState.sessionStep, hserver])
      | some server =>
        cases connects with
        | false => exact .inl (by simp [StreamState.sessionStep, hserver, SessionEvent.moves])
        | true => exact .inr (.inl ⟨idx, by simp [StreamState.sessionStep, hserver], by simp⟩)
  | relaying idx => exact .inr (.inr ⟨idx, rfl, rfl⟩)
  | ended => exact .inl ⟨rfl, rfl, by simp, by simp [StreamState.sessionStep]⟩
  | panicked => exact .inl ⟨rfl, rfl, by simp, by simp [StreamState.sessionStep]⟩

/-- A change of one gauge that goes with the change of a session. -/
theorem counted_modify {i : Nat} {new : StreamSession} {pools' : Pools} {k : Nat}
    {f : Nat → Nat} (h : SessionsCounted u s)
    (hgauges : gauges pools' u.name =
      if u.name = u.name then (gauges s.pools u.name).map (·.modify k f) else gauges s.pools u.name)
    (hlive : ∀ idx, (s.sessions.set i new).count (.relaying idx) =
      if k = idx then f (s.live idx) else s.live idx) :
    Counted (poolBlock u) u
      ⟨pools', guardsOf u ((s.sessions.set i new).map StreamSession.race)⟩ := by
  refine Counted.modify h (countsFor_poolBlock u k) hgauges ?_ fun idx => ?_
  · intro g hg
    rw [mem_guardsOf hg]
    exact countsFor_poolBlock u g.2
  · rw [count_guardsOf, count_map_race, hlive, LoadState.load, count_guardsOf]
    simp [StreamState.live]

theorem sessionsCounted_session (h : SessionsCounted u s) (i : Nat) (connects : Bool)
    (raced : Option (ServerOrder u.servers.length)) :
    SessionsCounted u (s.step hash u (.session i connects raced)).1 := by
  simp only [StreamState.step]
  cases hi : s.sessions[i]? with
  | none => exact h
  | some session =>
    have hset := count_set_session hi
    unfold SessionsCounted
    rcases sessionStep_cases hash u s.pools connects raced session with
      ⟨hmoves, hgauges, hold, hnew⟩ | ⟨k, hr, hold⟩ | ⟨k, rfl, hr⟩
    · simp only [hmoves, Bool.false_eq_true, if_false]
      refine counted_of_live h hgauges fun idx => ?_
      rw [hset, if_neg (hold idx), if_neg (hnew idx)]
      rfl
    · simp only [hr]
      refine counted_modify h (gauges_track s.pools u k u.name) fun idx => ?_
      rw [hset, if_neg (hold idx)]
      by_cases hk : k = idx <;> simp [hk, StreamState.live]
    · simp only [hr]
      refine counted_modify h (gauges_release s.pools u k u.name) fun idx => ?_
      rw [hset]
      by_cases hk : k = idx <;> simp [hk, StreamState.live]

theorem sessionsCounted_step (h : SessionsCounted u s) (i : StreamInput u.servers.length) :
    SessionsCounted u (s.step hash u i).1 := by
  cases i with
  | shutdown => exact h
  | session i connects raced => exact sessionsCounted_session h i connects raced
  | accepted client =>
    simp only [StreamState.step]
    split
    · refine counted_of_live h rfl fun idx => ?_
      rw [List.count_append]
      simp
    · exact h

theorem sessionsCounted_run (hash : Hashers) (u : UpstreamRef)
    (is : List (StreamInput u.servers.length)) :
    SessionsCounted u ((StreamState.machine hash u).run (.init u) is) :=
  Machine.run_inv (SessionsCounted u) (sessionsCounted_init u)
    (fun _ i h => sessionsCounted_step h i) is

/-! ## Selections -/

/-- A step of the session at `i`. -/
def StreamInput.isOf {n : Nat} (i : Nat) : StreamInput n → Bool
  | .session j _ _ => j = i
  | _ => false

/-- No gauge moves in a step. -/
def KeepsGauges (o : Option (Nat × SessionEvent)) : Prop := ∀ j e, o = some (j, e) → e.moves = false

/-- A session begins to sort. -/
theorem step_spawned (hash : Hashers) {i : Nat} {client : IpAddr}
    (hi : s.sessions[i]? = some (.spawned client)) (hs : u.strategy = .leastConn)
    (hn : 2 ≤ u.servers.length) {x : StreamInput u.servers.length} (hx : x.isOf i = true) :
    (s.step hash u x).1 = { s with sessions := s.sessions.set i (.sorting client false) } := by
  cases x with
  | session j connects raced =>
    obtain rfl : j = i := by simpa [StreamInput.isOf] using hx
    simp [StreamState.step, hi, StreamState.sessionStep, hs, hn]
  | _ => cases hx

/-- A session has sorted. -/
theorem step_sorting (hash : Hashers) {i : Nat} {client : IpAddr}
    (hi : s.sessions[i]? = some (.sorting client false)) {x : StreamInput u.servers.length}
    (hx : x.isOf i = true) :
    (s.step hash u x).2 = some (i, .order (Balancer.candidates hash s.pools u client).1) := by
  cases x with
  | session j connects raced =>
    obtain rfl : j = i := by simpa [StreamInput.isOf] using hx
    simp only [StreamState.step, hi]
    rfl
  | _ => cases hx

/-- A session that sorts goes on to, if no gauge moves and it takes no step itself, and no server
has other sessions. -/
theorem sorting_step (hash : Hashers) {i : Nat} {client : IpAddr}
    (hi : s.sessions[i]? = some (.sorting client false)) {x : StreamInput u.servers.length}
    (hx : x.isOf i = false) (ho : KeepsGauges (s.step hash u x).2) :
    (s.step hash u x).1.sessions[i]? = some (.sorting client false) ∧
      ∀ idx, (s.step hash u x).1.live idx = s.live idx := by
  cases x with
  | shutdown => exact ⟨hi, fun _ => rfl⟩
  | accepted client' =>
    simp only [StreamState.step]
    split
    · refine ⟨?_, fun idx => ?_⟩
      · rw [List.getElem?_append_left (List.getElem?_eq_some_iff.mp hi).1]
        exact hi
      · simp [StreamState.live, List.count_append]
    · exact ⟨hi, fun _ => rfl⟩
  | session j connects raced =>
    have hj : j ≠ i := by simpa [StreamInput.isOf] using hx
    simp only [StreamState.step] at ho ⊢
    cases hold : s.sessions[j]? with
    | none => exact ⟨hi, fun _ => rfl⟩
    | some session =>
      simp only [hold] at ho
      rcases sessionStep_cases hash u s.pools connects raced session with
        ⟨hmoves, -, hne, hne'⟩ | ⟨k, hr, -⟩ | ⟨k, -, hr⟩
      · simp only [hmoves, Bool.false_eq_true, if_false]
        refine ⟨by rw [List.getElem?_set_ne hj]; exact hi, fun idx => ?_⟩
        show (s.sessions.set j _).count _ = _
        rw [count_set_session hold, if_neg (hne idx), if_neg (hne' idx)]
        rfl
      · rw [hr] at ho
        cases ho j _ rfl
      · rw [hr] at ho
        cases ho j _ rfl

theorem sorting_run (hash : Hashers) {i : Nat} {client : IpAddr}
    {mid : List (StreamInput u.servers.length)}
    (hi : s.sessions[i]? = some (.sorting client false)) (hmid : ∀ x ∈ mid, x.isOf i = false)
    (ho : ∀ o ∈ (StreamState.machine hash u).outputs s mid, KeepsGauges o) :
    ((StreamState.machine hash u).run s mid).sessions[i]? = some (.sorting client false) ∧
      ∀ idx, ((StreamState.machine hash u).run s mid).live idx = s.live idx := by
  induction mid generalizing s with
  | nil => exact ⟨hi, fun _ => rfl⟩
  | cons x mid ih =>
    obtain ⟨hi', hlive⟩ := sorting_step hash hi (hmid x List.mem_cons_self)
      (ho _ List.mem_cons_self)
    obtain ⟨hrun, hlives⟩ := ih hi' (fun x hx => hmid x (List.mem_cons_of_mem _ hx))
      fun o hmem => ho o (List.mem_cons_of_mem _ hmem)
    exact ⟨hrun, fun idx => (hlives idx).trans (hlive idx)⟩

/-- Every server before another one has at most its sessions, per weight, and is the smaller index
where they are the same. -/
def OrderedByLive (u : UpstreamRef) (s : StreamState) (order : List Nat) : Prop :=
  order.Pairwise fun i j =>
    (s.live i + 1) * u.weightOf j ≤ (s.live j + 1) * u.weightOf i ∧
      ((s.live i + 1) * u.weightOf j = (s.live j + 1) * u.weightOf i → i < j)

theorem candidates_orderedByLive (hash : Hashers) (h : SessionsCounted u s)
    (hs : u.strategy = .leastConn)
    (client : IpAddr) : OrderedByLive u s (Balancer.candidates hash s.pools u client).1 := by
  have hordered : OrderedByLoad ⟨s.pools, guardsOf u s.sessions⟩ u
      (Balancer.candidates hash s.pools u client).1 := orderedByLoad_of_counted h hs client
  have hlive (idx : Nat) : LoadState.load ⟨s.pools, guardsOf u s.sessions⟩ u idx = s.live idx :=
    count_guardsOf u s.sessions idx
  unfold OrderedByLoad at hordered
  unfold OrderedByLive
  simpa only [hlive] using hordered

/-- **The gauges of a stream listener are its live sessions**, after any steps of its sessions. And
with least-conn a session whose selection no gauge moves under, whatever else happens between its
two steps, tries the servers in the order of the sessions they have, per weight. -/
theorem stream_ordered (hash : Hashers) (u : UpstreamRef)
    (is : List (StreamInput u.servers.length)) :
    let s := (StreamState.machine hash u).run (.init u) is
    (∀ idx < u.servers.length, gauge s.pools u.name idx = s.live idx) ∧
    (u.strategy = .leastConn → 2 ≤ u.servers.length →
      ∀ i client, s.sessions[i]? = some (.spawned client) → ∀ begun ended mid,
        begun.isOf i = true → ended.isOf i = true → (∀ x ∈ mid, x.isOf i = false) →
        (∀ o ∈ (StreamState.machine hash u).outputs s (begun :: mid), KeepsGauges o) →
        ∃ order, OrderedByLive u s order ∧
          (((StreamState.machine hash u).run s (begun :: mid)).step hash u ended).2 =
            some (i, .order order)) := by
  intro s
  have hcounted : SessionsCounted u s := sessionsCounted_run hash u is
  refine ⟨fun idx hidx => ?_, fun hs hn i client hi begun ended mid hbegun hended hmid hkeeps => ?_⟩
  · rw [hcounted.exact idx hidx]
    exact count_guardsOf u s.sessions idx
  · have hlt := (List.getElem?_eq_some_iff.mp hi).1
    have hbegin := step_spawned hash hi hs hn hbegun
    have hsorts : (s.step hash u begun).1.sessions[i]? = some (.sorting client false) := by
      rw [hbegin]
      exact List.getElem?_set_self hlt
    obtain ⟨hi', hlive⟩ := sorting_run hash hsorts hmid
      fun o ho => hkeeps o (List.mem_cons_of_mem _ ho)
    have hcounted' : SessionsCounted u ((StreamState.machine hash u).run s (begun :: mid)) := by
      rw [show (StreamState.machine hash u).run s (begun :: mid) =
        (StreamState.machine hash u).run (.init u) (is ++ begun :: mid) from
          (Machine.run_append ..).symm]
      exact sessionsCounted_run hash u _
    have hsame (idx : Nat) :
        ((StreamState.machine hash u).run s (begun :: mid)).live idx = s.live idx := by
      refine (hlive idx).trans ?_
      rw [hbegin]
      show (s.sessions.set i _).count _ = _
      rw [count_set_session hi]
      simp [StreamState.live]
    refine ⟨_, ?_, step_sorting hash hi' hended⟩
    have hordered := candidates_orderedByLive hash hcounted' hs client
    unfold OrderedByLive at hordered ⊢
    simp only [hsame] at hordered
    exact hordered

/-! ## What one session does -/

/-- What a run shows of the session at `i`. -/
def shown (i : Nat) (os : List (Option (Nat × SessionEvent))) : List SessionEvent :=
  os.filterMap fun
    | some (j, e) => if j = i then some e else none
    | none => none

/-- A session so far: it has tried the servers of its order in turn, none of which it could
connect to but the last. -/
inductive SessionTrace (n : Nat) : StreamSession → List SessionEvent → Prop where
  | spawned (client : IpAddr) : SessionTrace n (.spawned client) []
  | sorting (client : IpAddr) (raced : Bool) : SessionTrace n (.sorting client raced) []
  | trying (tried left : List Nat) (h : (tried ++ left).Perm (List.range n)) :
      SessionTrace n (.trying left) (.order (tried ++ left) :: tried.map .failed)
  | relaying (tried left : List Nat) (idx : Nat) (h : (tried ++ idx :: left).Perm (List.range n)) :
      SessionTrace n (.relaying idx)
        (.order (tried ++ idx :: left) :: (tried.map .failed ++ [.relayed idx]))
  | finished (tried left : List Nat) (idx : Nat) (h : (tried ++ idx :: left).Perm (List.range n)) :
      SessionTrace n .ended
        (.order (tried ++ idx :: left) :: (tried.map .failed ++ [.relayed idx, .finished]))
  | dropped (tried : List Nat) (h : tried.Perm (List.range n)) :
      SessionTrace n .ended (.order tried :: (tried.map .failed ++ [.dropped]))
  | panicked : SessionTrace n .panicked [.panicked]

/-- **One step** of a session. -/
theorem SessionTrace.step {session : StreamSession} {evs : List SessionEvent}
    (h : SessionTrace u.servers.length session evs) (hash : Hashers) (pools : Pools)
    (connects : Bool) (raced : Option (ServerOrder u.servers.length)) :
    SessionTrace u.servers.length (StreamState.sessionStep hash u pools connects raced session).2.1
      (evs ++ (StreamState.sessionStep hash u pools connects raced session).2.2.toList) := by
  cases h with
  | spawned client =>
    simp only [StreamState.sessionStep]
    split
    · exact .sorting client false
    · exact .trying [] _ (candidates_perm hash pools u client)
  | sorting client r =>
    cases r with
    | false => exact .trying [] _ (candidates_perm hash pools u client)
    | true =>
      cases raced with
      | none => exact .panicked
      | some order => exact .trying [] order.1 order.2
  | trying tried left hperm =>
    cases left with
    | nil =>
      rw [List.append_nil] at hperm ⊢
      exact .dropped tried hperm
    | cons idx left =>
      have hlt : idx < u.servers.length := by
        have hmem : idx ∈ tried ++ idx :: left := by simp
        simpa using hperm.mem_iff.mp hmem
      simp only [StreamState.sessionStep, List.getElem?_eq_getElem hlt]
      cases connects with
      | true => exact .relaying tried left idx hperm
      | false =>
        have hmove : tried ++ idx :: left = (tried ++ [idx]) ++ left := by simp
        rw [hmove] at hperm ⊢
        have := SessionTrace.trying (tried ++ [idx]) left hperm
        simpa using this
  | relaying tried left idx hperm =>
    have := SessionTrace.finished tried left idx hperm
    simpa [StreamState.sessionStep] using this
  | finished tried left idx hperm =>
    have := SessionTrace.finished tried left idx hperm
    simpa [StreamState.sessionStep] using this
  | dropped tried hperm =>
    have := SessionTrace.dropped tried hperm
    simpa [StreamState.sessionStep] using this
  | panicked => exact .panicked

/-- A gauge that moves changes nothing of what a session has done. -/
theorem SessionTrace.race {n : Nat} {session : StreamSession} {evs : List SessionEvent}
    (h : SessionTrace n session evs) : SessionTrace n session.race evs := by
  cases h with
  | sorting client raced => exact .sorting client true
  | spawned client => exact .spawned client
  | trying tried left hperm => exact .trying tried left hperm
  | relaying tried left idx hperm => exact .relaying tried left idx hperm
  | finished tried left idx hperm => exact .finished tried left idx hperm
  | dropped tried hperm => exact .dropped tried hperm
  | panicked => exact .panicked

/-- What a run keeps: every session with what was shown of it. -/
structure Sessions (u : UpstreamRef) (os : List (Option (Nat × SessionEvent))) (s : StreamState) :
    Prop where
  trace : ∀ i session, s.sessions[i]? = some session →
    SessionTrace u.servers.length session (shown i os)
  unborn : ∀ i, s.sessions.length ≤ i → shown i os = []

theorem shown_append (i : Nat) (os : List (Option (Nat × SessionEvent)))
    (o : Option (Nat × SessionEvent)) : shown i (os ++ [o]) = shown i os ++ shown i [o] :=
  List.filterMap_append

theorem shown_map (i j : Nat) (e : Option SessionEvent) :
    shown i [e.map (j, ·)] = if j = i then e.toList else [] := by
  cases e with
  | none => simp [shown]
  | some e => by_cases h : j = i <;> simp [shown, h]

variable {os : List (Option (Nat × SessionEvent))}

/-- A step that shows nothing and leaves the sessions alone. -/
theorem Sessions.quiet (h : Sessions u os s) : Sessions u (os ++ [none]) s := by
  have hquiet (k : Nat) : shown k (os ++ [none]) = shown k os := by
    rw [shown_append]
    exact List.append_nil _
  refine ⟨fun k session hk => ?_, fun k hk => ?_⟩
  · rw [hquiet]
    exact h.trace k session hk
  · rw [hquiet]
    exact h.unborn k hk

/-- A new session, of which nothing has been shown. -/
theorem Sessions.accepted (h : Sessions u os s) (client : IpAddr) :
    Sessions u os { s with sessions := s.sessions ++ [.spawned client] } := by
  refine ⟨fun k session hk => ?_, fun k hk => ?_⟩
  · rcases Nat.lt_trichotomy k s.sessions.length with hlt | rfl | hgt
    · simp only [List.getElem?_append_left hlt] at hk
      exact h.trace k session hk
    · simp only [List.getElem?_concat_length] at hk
      cases hk
      rw [h.unborn _ le_rfl]
      exact .spawned client
    · rw [List.getElem?_eq_none (by simp; omega)] at hk
      cases hk
  · rw [List.length_append] at hk
    exact h.unborn k (by omega)

theorem Sessions.race (h : Sessions u os s) :
    Sessions u os { s with sessions := s.sessions.map StreamSession.race } := by
  refine ⟨fun k session hk => ?_, fun k hk => h.unborn k (by simpa using hk)⟩
  simp only [List.getElem?_map] at hk
  obtain ⟨old, hold, rfl⟩ := Option.map_eq_some_iff.mp hk
  exact (h.trace k old hold).race

theorem Sessions.step (h : Sessions u os s) (hash : Hashers) (i : StreamInput u.servers.length) :
    Sessions u (os ++ [(s.step hash u i).2]) (s.step hash u i).1 := by
  cases i with
  | shutdown =>
    have hquiet := h.quiet
    exact ⟨hquiet.trace, hquiet.unborn⟩
  | accepted client =>
    simp only [StreamState.step]
    split
    · exact (h.accepted client).quiet
    · exact h.quiet
  | session j connects raced =>
    simp only [StreamState.step]
    cases hj : s.sessions[j]? with
    | none => exact h.quiet
    | some old =>
      have hlt := (List.getElem?_eq_some_iff.mp hj).1
      have hstep := (h.trace j old hj).step hash s.pools connects raced
      have hset : Sessions u (os ++ [(StreamState.sessionStep hash u s.pools connects raced
          old).2.2.map (j, ·)]) { s with
            pools := (StreamState.sessionStep hash u s.pools connects raced old).1
            sessions := s.sessions.set j
              (StreamState.sessionStep hash u s.pools connects raced old).2.1 } := by
        refine ⟨fun k session hk => ?_, fun k hk => ?_⟩
        · rw [shown_append, shown_map]
          by_cases hjk : j = k
          · subst hjk
            simp only [List.getElem?_set_self hlt, Option.some.injEq] at hk
            rw [if_pos rfl, ← hk]
            exact hstep
          · simp only [List.getElem?_set_ne hjk] at hk
            rw [if_neg hjk, List.append_nil]
            exact h.trace k session hk
        · simp only [List.length_set] at hk
          rw [shown_append, shown_map, if_neg (by omega), List.append_nil]
          exact h.unborn k hk
      simp only
      split
      · exact hset.race
      · exact hset

/-- **Every session**, after any steps of all of them: it tries the servers of its order in turn,
which has every server once, relays to the first that it connects to and to no other, and is
dropped only when all of them have failed. If its sort panics it has tried none. -/
theorem stream_session (hash : Hashers) (u : UpstreamRef)
    (is : List (StreamInput u.servers.length)) (i : Nat) (session : StreamSession)
    (h : ((StreamState.machine hash u).run (.init u) is).sessions[i]? = some session) :
    SessionTrace u.servers.length session
      (shown i ((StreamState.machine hash u).outputs (.init u) is)) := by
  have hinv : Sessions u ((StreamState.machine hash u).outputs (.init u) is)
      ((StreamState.machine hash u).run (.init u) is) := by
    refine Machine.run_outputs_inv (M := StreamState.machine hash u) (J := Sessions u)
      (I := fun _ => True) ?_ (fun os s i h _ => h.step hash i) (fun _ _ => trivial)
    exact ⟨by simp [StreamState.init], by simp [shown]⟩
  exact hinv.trace i session h

open Sample

/-- Its first server does not answer, and its second does. -/
theorem stream_session_failover :
    SessionTrace 2 (.relaying 1) [.order [0, 1], .failed 0, .relayed 1] :=
  stream_session zeroHash (pairPool .roundRobin)
    [.accepted (.v4 ⟨127, 0, 0, 1⟩), .session 0 false none, .session 0 false none,
      .session 0 true none] 0
    (.relaying 1) (by decide +kernel)

end Flexd

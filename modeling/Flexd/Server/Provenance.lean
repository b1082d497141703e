import Flexd.Server.Daemon

/-!
# Which configurations are served

`notify` forgets the files and the signals of a server, and `notify_step` makes
every step of the server a few steps of the machine of the reload
notifications. `Provenance` is the invariant of a run and what it has shown:
every block that is served, and every configuration on its way to one, is from
the configuration at the start or from one a SIGHUP has loaded, and all of
these are valid.
-/

namespace Flexd

open Lib

variable {ext : External} {s : DaemonState}

/-! ## Refinement -/

/-- The server as the reload notifications see it. -/
def DaemonState.notify (s : DaemonState) : NotifyState where
  snapshot := s.snapshot.toConfig
  config := s.config.toConfig
  channel := s.reload
  unsent := if s.signal = .swapped then 1 else 0
  signals := s.signal ≠ .notStarted
  loops := s.http.map (·.loop)

theorem spawned_eq_some {files : TlsFiles} {idx directive : Nat} {t : HttpTask}
    (h : s.spawned ext files idx directive = some t) :
    ∃ block loop, s.snapshot.http[idx]? = some block ∧
      (block.listen[directive]?).bind (HttpLoop.start ext files block idx) = some loop ∧
      t = { loop := ⟨loop, s.reload.subscribe, .waiting⟩, shut := s.shutdown.subscribe } := by
  unfold DaemonState.spawned at h
  split at h
  · cases h
  · next block hb =>
    obtain ⟨loop, hloop, rfl⟩ := Option.map_eq_some_iff.mp h
    exact ⟨block, loop, hb, hloop, rfl⟩

/-- **A step of the server** is a few of the notifications. -/
theorem notify_step (ext : External) (s : DaemonState) (i : DaemonInput) :
    ∃ js, (s.step ext i).1.notify = (NotifyState.machine ext).run s.notify js := by
  have h := step_steps ext s i
  generalize (s.step ext i).1 = s', (s.step ext i).2 = o at h
  cases h with
  | stutter => exact ⟨[], rfl⟩
  | spawn files idx directive t hsig ht =>
    obtain ⟨block, loop, hb, hloop, rfl⟩ := spawned_eq_some ht
    refine ⟨[.spawn files idx directive], ?_⟩
    simp only [Machine.run, NotifyState.machine, NotifyState.step, DaemonState.notify, hsig, hb,
      hloop, List.map_append, List.map_cons, List.map_nil]
    rfl
  | spawnSide kind hsig => exact ⟨[], rfl⟩
  | handle phase hsig hp =>
    refine ⟨[.handleSignals], ?_⟩
    rcases hp with rfl | rfl <;>
      simp [Machine.run, NotifyState.machine, NotifyState.step, DaemonState.notify, hsig]
  | terminate hsig => exact ⟨[], by simp [Machine.run, DaemonState.notify, hsig]⟩
  | hangup path hsig => exact ⟨[], by simp [Machine.run, DaemonState.notify, hsig]⟩
  | loaded path config hsig hv => exact ⟨[], by simp [Machine.run, DaemonState.notify, hsig]⟩
  | rejected path hsig => exact ⟨[], by simp [Machine.run, DaemonState.notify, hsig]⟩
  | swap config hsig =>
    refine ⟨[.write config.toConfig], ?_⟩
    simp [Machine.run, NotifyState.machine, NotifyState.step, DaemonState.notify, hsig]
  | send hsig =>
    refine ⟨[.send], ?_⟩
    simp [Machine.run, NotifyState.machine, NotifyState.step, DaemonState.notify, hsig]
  | http i ready files t e ht hrun he =>
    cases e with
    | moved poll =>
      -- the polls between two branches are no steps of the notifications
      have hkeep : (s.http.map (·.loop)).set i t.loop = s.http.map (·.loop) := by
        have hloop : (s.http.map (·.loop))[i]? = some t.loop := by simp [ht]
        obtain ⟨hlt, hget⟩ := List.getElem?_eq_some_iff.mp hloop
        rw [← hget, List.set_getElem_self hlt]
      refine ⟨[], ?_⟩
      simp [Machine.run, DaemonState.notify, HttpTask.after, List.map_set, hkeep]
    | loop e =>
      refine ⟨[.loop i e], ?_⟩
      simp [Machine.run, NotifyState.machine, NotifyState.step, DaemonState.notify, ht,
        HttpTask.after, List.map_set]
  | side i ready issued t t' o ht he =>
    by_cases ho : o = .renewed
    · refine ⟨[.renewed], ?_⟩
      simp [Machine.run, NotifyState.machine, NotifyState.step, DaemonState.notify, ho]
    · refine ⟨[], ?_⟩
      simp [Machine.run, DaemonState.notify, ho]

/-- **The server refines the reload notifications.** -/
theorem refines_notify (ext : External) (s : DaemonState) (is : List DaemonInput) :
    ∃ js, ((DaemonState.machine ext).run s is).notify =
      (NotifyState.machine ext).run s.notify js :=
  Machine.run_refines (J := fun _ => True) (fun _ _ _ => trivial)
    (fun s i _ => notify_step ext s i) trivial is

/-! ## Provenance -/

/-- The configurations that have been swapped in. -/
def swaps (os : List (Option DaemonEvent)) : List ConfigFile :=
  os.filterMap fun
    | some (.swapped config) => some config
    | _ => none

theorem swaps_append (os os' : List (Option DaemonEvent)) :
    swaps (os ++ os') = swaps os ++ swaps os' := List.filterMap_append

/-- **A listener's step**, as far as its block goes. -/
theorem LoopState.step_block (ext : External) (config : Config) (channel : Broadcast Unit)
    (l : LoopState) (e : LoopStep) :
    (l.step ext config channel e).loop.blockIdx = l.loop.blockIdx ∧
    ((l.step ext config channel e).loop.httpBlock = l.loop.httpBlock ∨
      ∃ read, l.phase = .read read ∧
        read.http[l.loop.blockIdx]? = some (l.step ext config channel e).loop.httpBlock) ∧
    ∀ read, (l.step ext config channel e).phase = .read read →
      read = config ∨ l.phase = .read read := by
  have hevent : ∀ e : AcceptEvent, (∀ config files, e ≠ .reload config files) →
      (l.event ext e).loop.blockIdx = l.loop.blockIdx ∧
      (l.event ext e).loop.httpBlock = l.loop.httpBlock ∧ (l.event ext e).phase = l.phase := by
    intro e he
    unfold LoopState.event
    split
    · exact ⟨HttpLoop.blockIdx_step _ _, HttpLoop.httpBlock_step_eq he, rfl⟩
    · exact ⟨rfl, rfl, rfl⟩
  have hshown : ∀ e : AcceptEvent, (∀ config files, e ≠ .reload config files) →
      (l.event ext e).loop.blockIdx = l.loop.blockIdx ∧
      ((l.event ext e).loop.httpBlock = l.loop.httpBlock ∨
        ∃ read, l.phase = .read read ∧
          read.http[l.loop.blockIdx]? = some (l.event ext e).loop.httpBlock) ∧
      ∀ read, (l.event ext e).phase = .read read → read = config ∨ l.phase = .read read := by
    intro e he
    obtain ⟨hidx, hblock, hphase⟩ := hevent e he
    exact ⟨hidx, .inl hblock, fun read hread => .inr (hphase ▸ hread)⟩
  cases e with
  | accepted conn => exact hshown _ (by simp)
  | acceptError => exact hshown _ (by simp)
  | shutdown => exact hshown _ (by simp)
  | recv =>
    simp only [LoopState.step]
    split
    · exact ⟨rfl, .inl rfl, by simp⟩
    · exact ⟨rfl, .inl rfl, fun _ h => .inr h⟩
  | read =>
    simp only [LoopState.step]
    split
    · exact ⟨rfl, .inl rfl, fun _ h => .inl (Phase.read.inj h).symm⟩
    · exact ⟨rfl, .inl rfl, fun _ h => .inr h⟩
  | apply files =>
    simp only [LoopState.step]
    split
    case h_2 => exact ⟨rfl, .inl rfl, fun _ h => .inr h⟩
    case h_1 read hphase =>
      refine ⟨HttpLoop.blockIdx_step _ _, ?_, by simp⟩
      cases hr : l.loop.running with
      | false =>
        rw [HttpLoop.step_of_not_running hr]
        exact .inl rfl
      | true =>
        rw [(HttpLoop.httpBlock_reload ext hr read files).2]
        cases hb : read.http[l.loop.blockIdx]? with
        | none => exact .inl rfl
        | some block => exact .inr ⟨read, hphase, hb⟩

/-- A listener whose block, and whatever it has read, is from one of the configurations. -/
structure LoopFrom (configs : List ConfigFile) (l : LoopState) : Prop where
  block : ∃ c ∈ configs, c.http[l.loop.blockIdx]? = some l.loop.httpBlock
  read : ∀ read, l.phase = .read read → ∃ c ∈ configs, c.toConfig = read

theorem LoopFrom.mono {configs more : List ConfigFile} {l : LoopState} (h : LoopFrom configs l) :
    LoopFrom (configs ++ more) l where
  block := by
    obtain ⟨c, hc, hb⟩ := h.block
    exact ⟨c, List.mem_append_left _ hc, hb⟩
  read read hread := by
    obtain ⟨c, hc, hb⟩ := h.read read hread
    exact ⟨c, List.mem_append_left _ hc, hb⟩

theorem LoopFrom.step {configs : List ConfigFile} {l : LoopState} (h : LoopFrom configs l)
    {config : ConfigFile} (hc : config ∈ configs) (channel : Broadcast Unit) (e : LoopStep) :
    LoopFrom configs (l.step ext config.toConfig channel e) := by
  obtain ⟨hidx, hblock, hread⟩ := LoopState.step_block ext config.toConfig channel l e
  constructor
  · rw [hidx]
    rcases hblock with hsame | ⟨read, hphase, hb⟩
    · rw [hsame]
      exact h.block
    · obtain ⟨c, hmem, rfl⟩ := h.read read hphase
      exact ⟨c, hmem, hb⟩
  · intro read hphase
    rcases hread read hphase with rfl | hphase
    · exact ⟨config, hc, rfl⟩
    · exact h.read read hphase

/-- The invariant of a run: the state with everything the run has shown. -/
structure Provenance (ext : External) (first : ConfigFile) (os : List (Option DaemonEvent))
    (s : DaemonState) : Prop where
  snapshot : s.snapshot = first
  current : s.config = ((swaps os).getLast?).getD first
  valid : ∀ c ∈ first :: swaps os, Validated ext c.toConfig
  loaded : ∀ c, s.signal = .loaded c → Validated ext c.toConfig
  loop : ∀ t ∈ s.http, LoopFrom (first :: swaps os) t.loop
  accepted : ∀ block conn, some (.accepted block conn) ∈ os →
    ∃ c ∈ first :: swaps os, block ∈ c.http

section Step

variable {first : ConfigFile} {os : List (Option DaemonEvent)}

theorem Provenance.current_mem (h : Provenance ext first os s) :
    s.config ∈ first :: swaps os := by
  rw [h.current]
  cases hl : (swaps os).getLast? with
  | none => exact List.mem_cons_self
  | some c => exact List.mem_cons_of_mem _ (List.mem_of_getLast? hl)

/-- A step that shows nothing and leaves the configurations as they are. -/
theorem Provenance.quiet {s' : DaemonState} {o : Option DaemonEvent} (h : Provenance ext first os s)
    (hkeep : s'.snapshot = s.snapshot ∧ s'.config = s.config)
    (hloaded : ∀ c, s'.signal = .loaded c → Validated ext c.toConfig)
    (hloop : ∀ t ∈ s'.http, LoopFrom (first :: swaps os) t.loop)
    (hswap : swaps [o] = [])
    (haccepted : ∀ block conn, o = some (.accepted block conn) →
      ∃ c ∈ first :: swaps os, block ∈ c.http) : Provenance ext first (os ++ [o]) s' := by
  have hsame : swaps (os ++ [o]) = swaps os := by rw [swaps_append, hswap, List.append_nil]
  refine ⟨by rw [hkeep.1, h.snapshot], ?_, ?_, hloaded, ?_, ?_⟩
  · rw [hkeep.2, hsame, h.current]
  · rw [hsame]
    exact h.valid
  · rw [hsame]
    exact hloop
  · rw [hsame]
    intro block conn hmem
    rcases List.mem_append.mp hmem with hmem | hmem
    · exact h.accepted block conn hmem
    · exact haccepted block conn (List.mem_singleton.mp hmem).symm

/-- A step that shows nothing at all. -/
theorem Provenance.silent {s' : DaemonState} (h : Provenance ext first os s)
    (hkeep : s'.snapshot = s.snapshot ∧ s'.config = s.config)
    (hloaded : ∀ c, s'.signal = .loaded c → Validated ext c.toConfig)
    (hloop : ∀ t ∈ s'.http, LoopFrom (first :: swaps os) t.loop) :
    Provenance ext first (os ++ [none]) s' :=
  h.quiet hkeep hloaded hloop rfl (by simp)

/-- A listener starts with the block of its index in the configuration of the start. -/
theorem Provenance.spawned (h : Provenance ext first os s) {files : TlsFiles}
    {idx directive : Nat} {t : HttpTask} (ht : s.spawned ext files idx directive = some t) :
    LoopFrom (first :: swaps os) t.loop := by
  obtain ⟨block, loop, hb, hloop, rfl⟩ := spawned_eq_some ht
  obtain ⟨listen, -, hstart⟩ := Option.bind_eq_some_iff.mp hloop
  obtain ⟨-, hblock, hidx, -⟩ := HttpLoop.start_spec hstart
  refine ⟨⟨first, List.mem_cons_self, ?_⟩, by simp⟩
  show first.http[loop.blockIdx]? = some loop.httpBlock
  rw [hidx, hblock, ← h.snapshot]
  exact hb

/-- A swap adds the configuration that has been loaded. -/
theorem Provenance.swapped (h : Provenance ext first os s) {config : ConfigFile}
    (hsig : s.signal = .loaded config) :
    Provenance ext first (os ++ [some (.swapped config)])
      { s with config, signal := .swapped } := by
  have hswaps : swaps (os ++ [some (.swapped config)]) = swaps os ++ [config] :=
    swaps_append _ _
  refine ⟨h.snapshot, ?_, ?_, by simp, ?_, ?_⟩
  · rw [hswaps, List.getLast?_append]
    rfl
  · intro c hc
    rw [hswaps, ← List.cons_append] at hc
    rcases List.mem_append.mp hc with hc | hc
    · exact h.valid c hc
    · rw [List.mem_singleton.mp hc]
      exact h.loaded config hsig
  · intro t ht
    rw [hswaps, ← List.cons_append]
    exact (h.loop t ht).mono
  · intro block conn hmem
    rw [hswaps, ← List.cons_append]
    rcases List.mem_append.mp hmem with hmem | hmem
    · obtain ⟨c, hc, hb⟩ := h.accepted block conn hmem
      exact ⟨c, List.mem_append_left _ hc, hb⟩
    · cases List.mem_singleton.mp hmem

/-- **Every step** keeps the invariant. -/
theorem Provenance.step (h : Provenance ext first os s) (i : DaemonInput) :
    Provenance ext first (os ++ [(s.step ext i).2]) (s.step ext i).1 := by
  have hstep := step_steps ext s i
  generalize (s.step ext i).1 = s', (s.step ext i).2 = o at hstep
  cases hstep with
  | stutter => exact h.silent ⟨rfl, rfl⟩ h.loaded h.loop
  | spawn files idx directive t hsig ht =>
    refine h.silent ⟨rfl, rfl⟩ h.loaded ?_
    intro u hu
    rcases List.mem_append.mp hu with hu | hu
    · exact h.loop u hu
    · rw [List.mem_singleton.mp hu]
      exact h.spawned ht
  | spawnSide kind hsig => exact h.silent ⟨rfl, rfl⟩ h.loaded h.loop
  | handle phase hsig hp =>
    refine h.silent ⟨rfl, rfl⟩ ?_ h.loop
    rcases hp with rfl | rfl <;> simp
  | terminate hsig => exact h.quiet ⟨rfl, rfl⟩ (by simp) h.loop rfl (by simp)
  | hangup path hsig => exact h.silent ⟨rfl, rfl⟩ (by simp) h.loop
  | loaded path config hsig hv =>
    refine h.silent ⟨rfl, rfl⟩ ?_ h.loop
    rintro c ⟨⟩
    exact hv
  | rejected path hsig => exact h.silent ⟨rfl, rfl⟩ (by simp) h.loop
  | swap config hsig => exact h.swapped hsig
  | send hsig => exact h.silent ⟨rfl, rfl⟩ (by simp) h.loop
  | http i ready files t e ht hrun he =>
    have hmem := List.mem_of_getElem? ht
    refine h.quiet ⟨rfl, rfl⟩ h.loaded ?_ ?_ ?_
    · intro u hu
      rcases List.mem_or_eq_of_mem_set hu with hu | rfl
      · exact h.loop u hu
      · cases e with
        | moved poll => exact h.loop t hmem
        | loop e => exact (h.loop t hmem).step h.current_mem _ _
    · cases e with
      | moved poll => rfl
      | loop e => cases e <;> rfl
    · intro block conn ho
      -- what a listener accepts with is the block it has
      obtain ⟨c, hc, hb⟩ := (h.loop t hmem).block
      have hblock : t.loop.loop.httpBlock = block := by
        unfold HttpTask.event at ho
        split at ho
        · cases ho
          rfl
        · cases ho
      exact ⟨c, hc, hblock ▸ List.mem_of_getElem? hb⟩
  | side i ready issued t t' o ht he =>
    refine h.quiet ⟨rfl, rfl⟩ h.loaded h.loop ?_ ?_
    · split <;> rfl
    · intro block conn ho
      split at ho <;> cases ho

end Step

theorem provenance_run {first : ConfigFile} (hv : Validated ext first.toConfig)
    (is : List DaemonInput) :
    Provenance ext first ((DaemonState.machine ext).outputs (.init first) is)
      ((DaemonState.machine ext).run (.init first) is) := by
  refine Machine.run_outputs_inv (M := DaemonState.machine ext) (J := Provenance ext first)
    (I := fun _ => True) ?_ ?_ (fun _ _ => trivial)
  case refine_2 =>
    intro os s i h _
    exact h.step i
  refine ⟨rfl, rfl, ?_, by simp [DaemonState.init], by simp [DaemonState.init], by simp⟩
  intro c hc
  rw [List.mem_singleton.mp hc]
  exact hv

/-! ## Every run -/

section Run

variable {env : LoadEnv} {args : Args} {s₀ : DaemonState}

/-- **Only what has been loaded and found valid is served**: in every run of a started server,
every listener's block, and the block of every connection it accepts, is from the configuration
at the start or one a SIGHUP swapped in, and all of these are valid. -/
theorem daemon_serves_validated (h : start ext env args = .ok (.serving s₀))
    (is : List DaemonInput) :
    let os := (DaemonState.machine ext).outputs s₀ is
    let s := (DaemonState.machine ext).run s₀ is
    (∀ c ∈ s₀.config :: swaps os, Validated ext c.toConfig) ∧
    (∀ t ∈ s.http, ∃ c ∈ s₀.config :: swaps os,
      c.http[t.loop.loop.blockIdx]? = some t.loop.loop.httpBlock) ∧
    ∀ block conn, some (.accepted block conn) ∈ os →
      ∃ c ∈ s₀.config :: swaps os, block ∈ c.http := by
  obtain ⟨first, hv, rfl⟩ := start_eq_serving h
  have hinv := provenance_run hv is
  exact ⟨hinv.valid, fun t ht => (hinv.loop t ht).block, hinv.accepted⟩

/-- **Every reload arrives**: in every run, unless a SIGHUP is between its swap and its
announcement, a listener with nothing pending and nothing in hand serves the block of its index in
the last configuration that was swapped in. -/
theorem daemon_follows_last_reload (h : start ext env args = .ok (.serving s₀))
    (is : List DaemonInput) :
    let os := (DaemonState.machine ext).outputs s₀ is
    let s := (DaemonState.machine ext).run s₀ is
    s.signal ≠ .swapped → ∀ t ∈ s.http, t.running = true → ¬ s.reload.Pending t.loop.next →
      t.loop.phase = .waiting →
      ∀ block, (((swaps os).getLast?).getD s₀.config).http[t.loop.loop.blockIdx]? = some block →
        t.loop.loop.httpBlock = block := by
  intro os s hsig t ht hrun hpend hphase block hb
  obtain ⟨first, hv, rfl⟩ := start_eq_serving h
  have hcur : s.config = ((swaps os).getLast?).getD first := (provenance_run hv is).current
  have hinv : NotifyInv s.notify := by
    obtain ⟨js, hjs⟩ := refines_notify ext (.init first) is
    show NotifyInv ((DaemonState.machine ext).run (.init first) is).notify
    rw [hjs]
    exact Machine.run_inv NotifyInv (notifyInv_init first.toConfig) (fun _ i h => h.step i) js
  have hl := hinv.loop t.loop (List.mem_map_of_mem ht)
  rcases hl.fresh hrun with h0 | h0 | h0
  · simp [DaemonState.notify, hsig] at h0
  · exact absurd h0 hpend
  · unfold LoopState.Current at h0
    rw [hphase] at h0
    refine h0 block ?_
    show s.config.http[t.loop.loop.blockIdx]? = some block
    rw [hcur]
    exact hb

end Run

namespace Sample

/-- A SIGHUP brings a started server the other block, which its listener takes up. -/
def reloaded : List DaemonInput :=
  [.spawn noFiles 0 0, .handleSignals true, .hangup, .load (fileEnv betaBlock), .swap, .send,
    .http 0 .pending noFiles, .http 0 .pending noFiles, .http 0 .pending noFiles,
    .http 0 .pending noFiles, .http 0 .pending noFiles, .http 0 .pending noFiles,
    .http 0 (.conn plainConn) noFiles]

end Sample

open Sample

theorem daemon_serves_validated_reloaded :
    some (.accepted betaBlock plainConn) ∈
      (DaemonState.machine .sample).outputs alphaDaemon reloaded ∧
    ∃ c ∈ alphaDaemon.config :: swaps ((DaemonState.machine .sample).outputs alphaDaemon reloaded),
      betaBlock ∈ c.http := by
  have hmem : some (.accepted betaBlock plainConn) ∈
      (DaemonState.machine .sample).outputs alphaDaemon reloaded :=
    List.mem_of_getElem? (i := 12) rfl
  have hstart : start .sample (fileEnv alphaBlock) {} = .ok (.serving alphaDaemon) := rfl
  exact ⟨hmem, (daemon_serves_validated hstart reloaded).2.2 betaBlock plainConn hmem⟩

theorem daemon_follows_last_reload_reloaded :
    ∃ t ∈ ((DaemonState.machine .sample).run alphaDaemon reloaded).http,
      t.loop.loop.httpBlock = betaBlock := by
  have hstart : start .sample (fileEnv alphaBlock) {} = .ok (.serving alphaDaemon) := rfl
  have hsig : ((DaemonState.machine .sample).run alphaDaemon reloaded).signal ≠ .swapped := by
    show SignalPhase.waiting ≠ .swapped
    simp
  refine ⟨⟨⟨.tcp ⟨alphaBlock, 0, false, none⟩ ⟨true, betaBlock, none⟩, 1, .waiting⟩, 0, .shutdown⟩,
    List.mem_singleton.mpr rfl, ?_⟩
  exact daemon_follows_last_reload hstart reloaded hsig _ (List.mem_singleton.mpr rfl) rfl
    (Nat.lt_irrefl 1) rfl betaBlock rfl

end Flexd

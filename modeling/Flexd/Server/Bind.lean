import Flexd.Config.Load
import Flexd.Lib.Precedes
import Flexd.Resolver
import Flexd.Security.Privilege
import Flexd.Server.HttpLoop

/-!
# Starting the server

`Server::run` binds every socket of the configuration, drops its privileges,
starts the listeners that need no issued certificate, and then goes through the
blocks with ACME: it waits for a block's certificate and starts the block's
listeners and renewals. The signal handler comes last. `run_unprivileged` says
under which credentials all this happens, and `run_serves` which sockets are
served, and after what.
-/

namespace Flexd

open Lib

/-! ## Sockets -/

/-- `listen_addr`: the configured address, or all of IPv4. -/
def listenAddr (listen : ListenDirective) : SocketAddr :=
  ⟨(listen.address.bind parseIp).getD (.v4 ⟨0, 0, 0, 0⟩), listen.port⟩

inductive SocketUse where
  | http (isTls : Bool)
  | quic
  | stream
  | mail
  deriving DecidableEq

def SocketUse.isTcp : SocketUse → Bool
  | .http _ => true
  | _ => false

/-- A socket to bind: for which block, and for which of its listen directives. -/
structure ListenSocket where
  use : SocketUse
  idx : Nat
  directive : Nat
  addr : SocketAddr
  deriving DecidableEq

/-- What a listen directive of an HTTP block binds, none where its protocol is unknown. -/
def Protocol.socketUse (p : Protocol) : Option SocketUse :=
  match p.tcpListener with
  | some isTls => some (.http isTls)
  | none => if p.isQuic then some .quic else none

def httpSockets (block : HttpBlock) (idx : Nat) : List ListenSocket :=
  block.listen.zipIdx.filterMap fun (listen, j) =>
    listen.protocol.socketUse.map fun use => ⟨use, idx, j, listenAddr listen⟩

namespace Config

/-- Every socket, in the order in which they are bound. -/
def sockets (config : Config) : List ListenSocket :=
  config.http.zipIdx.flatMap (fun (block, idx) => httpSockets block idx) ++
    (config.stream.zipIdx.map (fun (sb, i) => ⟨.stream, i, 0, listenAddr sb.listen⟩) ++
      config.mail.elim [] fun mail =>
        mail.listen.zipIdx.map fun (listen, j) => ⟨.mail, 0, j, listenAddr listen⟩)

/-- The block has an ACME manager. -/
def isAcme (config : Config) (idx : Nat) : Bool := ((config.http[idx]?).bind acmeManager).isSome

/-- The keys of `acme_managers`. -/
def acmeBlocks (config : Config) : List Nat :=
  (List.range config.http.length).filter config.isAcme

/-- The QUIC socket of a block is used. -/
def servesQuic (config : Config) (idx : Nat) : Bool :=
  (config.http[idx]?).any fun block => block.http3 && (config.isAcme idx || block.ssl.isSome)

/-- The socket is served at once. -/
def servedNow (config : Config) (s : ListenSocket) : Bool :=
  match s.use with
  | .http isTls => !(isTls && config.isAcme s.idx)
  | .quic => config.servesQuic s.idx && !config.isAcme s.idx
  | .stream | .mail => true

/-- The socket is served once its block has a certificate. -/
def deferred (config : Config) (s : ListenSocket) : Bool :=
  match s.use with
  | .http isTls => isTls && config.isAcme s.idx
  | .quic => config.servesQuic s.idx && config.isAcme s.idx
  | .stream | .mail => false

end Config

/-! ## Running -/

/-- What `Server::run` meets: whether an address can be bound beside the ones that are, the
system and its user database, and whether a block's `ensure_cert` succeeds. -/
structure RunEnv where
  bind : List SocketAddr → SocketAddr → Bool
  kernel : Kernel
  fromName : Text → Option (Option User)
  ensureCert : Nat → Bool

inductive Deed where
  | pidFile (path : Text)
  | bound (s : ListenSocket)
  | serving (s : ListenSocket)
  | ensured (idx : Nat)
  | renewing (idx : Nat)
  | signals
  deriving DecidableEq

inductive RunError where
  | bind (addr : SocketAddr)
  | drop (e : DropError)
  | acme (idx : Nat)
  deriving DecidableEq

/-- Bind sockets in turn: the ones that are bound, and the address that could not be. -/
def bindAll (bind : List SocketAddr → SocketAddr → Bool) :
    List SocketAddr → List ListenSocket → List ListenSocket × Option SocketAddr
  | _, [] => ([], none)
  | used, s :: rest =>
    if bind used s.addr then
      let r := bindAll bind (used ++ [s.addr]) rest
      (s :: r.1, r.2)
    else ([], some s.addr)

/-- The loop over the deferred listeners: what it removes for a block, and what it leaves. -/
def takeBlock (idx : Nat) : List ListenSocket → List ListenSocket × List ListenSocket
  | [] => ([], [])
  | s :: rest =>
    let r := takeBlock idx rest
    if s.idx ≠ idx then (r.1, s :: r.2) else (s :: r.1, r.2)

/-- The blocks with ACME, in the order of the map: what is done, and the block that fails. -/
def serveAcme (ensureCert : Nat → Bool) :
    List Nat → List ListenSocket → List ListenSocket → List Deed × Option Nat
  | [], _, _ => ([], none)
  | idx :: rest, tls, quic =>
    if ensureCert idx then
      let r := serveAcme ensureCert rest (takeBlock idx tls).2 (takeBlock idx quic).2
      (.ensured idx :: (((takeBlock idx tls).1 ++ (takeBlock idx quic).1).map .serving ++
        .renewing idx :: r.1), r.2)
    else ([], some idx)

/-- What follows the drop: the streams, the mail listeners, the HTTP listeners over TCP and over
QUIC, the blocks with ACME, and the signal handler. -/
def serveAll (env : RunEnv) (order : List Nat) (config : Config) (sockets : List ListenSocket) :
    List Deed × Option Nat :=
  let now (use : SocketUse → Bool) := sockets.filter fun s => config.servedNow s && use s.use
  let later (use : SocketUse → Bool) := sockets.filter fun s => config.deferred s && use s.use
  let r := serveAcme env.ensureCert order (later SocketUse.isTcp) (later (· = .quic))
  ((now (· = .stream) ++ (now (· = .mail) ++ (now SocketUse.isTcp ++ now (· = .quic)))).map
    .serving ++ (r.1 ++ if r.2.isNone then [.signals] else []), r.2)

/-- Drop privileges, if a user is configured. -/
def RunEnv.drop (env : RunEnv) (config : ConfigFile) (c : Creds) : Except DropError Unit × Creds :=
  match config.global.user with
  | some name => dropPrivileges env.kernel env.fromName name c
  | none => (.ok (), c)

/-- `Server::run` up to its wait for the tasks: what it does, under which credentials. `order` is
the order in which the map of ACME managers is iterated. -/
def Server.run (env : RunEnv) (order : List Nat) (config : ConfigFile) (c : Creds) :
    List (Deed × Creds) × Except RunError Unit :=
  let opened := bindAll env.bind [] config.sockets
  let opening :=
    (config.global.pidFile.toList.map Deed.pidFile ++ opened.1.map Deed.bound).map (·, c)
  match opened.2 with
  | some addr => (opening, .error (.bind addr))
  | none =>
    match env.drop config c with
    | (.error e, _) => (opening, .error (.drop e))
    | (.ok (), c) =>
      let served := serveAll env order config.toConfig opened.1
      (opening ++ served.1.map (·, c),
        match served.2 with
        | some idx => .error (.acme idx)
        | none => .ok ())

namespace Sample

/-- A server with ACME, a plain listener and a TLS one. -/
def acmeFile : ConfigFile where
  http := [{
    listen := [{ port := 80 }, { port := 443, protocol := .tls }]
    serverName := ["example.com".toList]
    ssl := some { acme := some {
      enabled := true
      email := "a@b".toList
      challengeTypes := ["http-01".toList]
      agreeTos := true } } }]
  global := { user := some "www".toList }

/-- A system where everything that is permitted succeeds. -/
def runEnv : RunEnv where
  bind used addr := !used.any (· = addr)
  kernel := ⟨Creds.apply, fun _ _ => .inr rfl⟩
  fromName name := some (if name = "www".toList then some ⟨33, 33⟩ else none)
  ensureCert _ := true

def root : Creds := ⟨0, 0, 0, 0, 0, 0, [0]⟩

end Sample

open Sample

/-! ## Binding -/

variable {env : RunEnv} {order : List Nat} {config : ConfigFile} {c : Creds}

theorem bindAll_eq (bind : List SocketAddr → SocketAddr → Bool) (used : List SocketAddr)
    (ss : List ListenSocket) (h : (bindAll bind used ss).2 = none) :
    (bindAll bind used ss).1 = ss := by
  induction ss generalizing used with
  | nil => rfl
  | cons s rest ih =>
    unfold bindAll at h ⊢
    split at h
    · next hb =>
      rw [if_pos hb]
      exact congrArg (s :: ·) (ih _ h)
    · cases h

/-- The loop that removes a block's listeners is a filter. -/
theorem takeBlock_eq (idx : Nat) (ss : List ListenSocket) :
    takeBlock idx ss = (ss.filter (·.idx = idx), ss.filter (·.idx ≠ idx)) := by
  induction ss with
  | nil => rfl
  | cons s rest ih =>
    unfold takeBlock
    rw [ih]
    by_cases h : s.idx = idx <;> simp [h]

/-! ## Serving -/

/-- The sockets that are served, as often as they are. -/
def servedSockets (ds : List Deed) : List ListenSocket :=
  ds.filterMap fun
    | .serving s => some s
    | _ => none

@[simp] theorem servedSockets_append (ds ds' : List Deed) :
    servedSockets (ds ++ ds') = servedSockets ds ++ servedSockets ds' :=
  List.filterMap_append

@[simp] theorem servedSockets_serving (ss : List ListenSocket) :
    servedSockets (ss.map .serving) = ss := by
  simp [servedSockets, List.filterMap_map]

@[simp] theorem servedSockets_bound (ss : List ListenSocket) :
    servedSockets (ss.map .bound) = [] := by
  simp [servedSockets, List.filterMap_map]

@[simp] theorem servedSockets_ensured (idx : Nat) (ds : List Deed) :
    servedSockets (.ensured idx :: ds) = servedSockets ds := rfl

@[simp] theorem servedSockets_renewing (idx : Nat) (ds : List Deed) :
    servedSockets (.renewing idx :: ds) = servedSockets ds := rfl

theorem mem_servedSockets {ds : List Deed} {s : ListenSocket} :
    s ∈ servedSockets ds ↔ .serving s ∈ ds := by
  unfold servedSockets
  rw [List.mem_filterMap]
  constructor
  · rintro ⟨d, hd, hs⟩
    cases d <;> simp at hs
    exact hs ▸ hd
  · exact fun h => ⟨_, h, rfl⟩

theorem count_filter_ite (p : ListenSocket → Bool) (s : ListenSocket) (ss : List ListenSocket) :
    (ss.filter p).count s = if p s then ss.count s else 0 := by
  split
  · next h => exact List.count_filter h
  · next h => exact List.count_eq_zero.mpr fun hs => h (List.mem_filter.mp hs).2

/-- The blocks with ACME serve their sockets, up to the first that gets no certificate. -/
theorem count_serveAcme (ensureCert : Nat → Bool) (order : List Nat) (tls quic : List ListenSocket)
    (s : ListenSocket) :
    (servedSockets (serveAcme ensureCert order tls quic).1).count s =
      if s.idx ∈ order.takeWhile ensureCert then (tls ++ quic).count s else 0 := by
  induction order generalizing tls quic with
  | nil => rfl
  | cons idx rest ih =>
    unfold serveAcme
    by_cases he : ensureCert idx = true
    · rw [if_pos he, List.takeWhile_cons_of_pos he]
      simp only [takeBlock_eq, servedSockets_ensured, servedSockets_append, servedSockets_serving,
        servedSockets_renewing, List.count_append, ih, count_filter_ite]
      by_cases hs : s.idx = idx
      · simp [hs]
      · simp [hs]
    · rw [if_neg he, List.takeWhile_cons_of_neg he]
      rfl

theorem serveAcme_snd (ensureCert : Nat → Bool) (order : List Nat) (tls quic : List ListenSocket) :
    (serveAcme ensureCert order tls quic).2 = none ↔ ∀ idx ∈ order, ensureCert idx = true := by
  induction order generalizing tls quic with
  | nil => simp [serveAcme]
  | cons idx rest ih =>
    unfold serveAcme
    by_cases he : ensureCert idx = true
    · simp [he, ih]
    · simp [he]

/-- A socket whose block is gone through is served after the block's certificate is there. -/
theorem precedes_serveAcme (ensureCert : Nat → Bool) (order : List Nat)
    (tls quic : List ListenSocket) (s : ListenSocket) :
    Precedes (· = Deed.ensured s.idx) (· = .serving s) (serveAcme ensureCert order tls quic).1 := by
  induction order generalizing tls quic with
  | nil => exact precedes_nil
  | cons idx rest ih =>
    unfold serveAcme
    split
    · rw [precedes_cons (by simp)]
      by_cases hs : s.idx = idx
      · exact .inl (by rw [hs])
      · have hno (ss : List ListenSocket) :
            Deed.serving s ∉ (takeBlock idx ss).1.map Deed.serving := by
          simp [takeBlock_eq, hs]
        refine .inr (precedes_append.mpr ⟨precedes_of_forall_not ?_, .inr ?_⟩)
        · rintro d hd rfl
          rw [List.map_append, List.mem_append] at hd
          exact hd.elim (hno tls) (hno quic)
        · exact (precedes_cons (by simp)).mpr (.inr (ih _ _))
    · exact precedes_nil

theorem count_serveAll (env : RunEnv) (order : List Nat) (config : Config) (ss : List ListenSocket)
    (s : ListenSocket) :
    (servedSockets (serveAll env order config ss).1).count s =
      if config.servedNow s = true ∨
          config.deferred s = true ∧ s.idx ∈ order.takeWhile env.ensureCert then ss.count s
      else 0 := by
  have hsignals (r : Option Nat) : servedSockets (if r.isNone then [.signals] else []) = [] := by
    split <;> rfl
  unfold serveAll
  simp only [servedSockets_append, servedSockets_serving, hsignals, List.append_nil,
    List.count_append, count_serveAcme, count_filter_ite]
  obtain ⟨use, idx, directive, addr⟩ := s
  cases use with
  | http isTls =>
    cases isTls <;> cases hacme : config.isAcme idx <;>
      simp [Config.servedNow, Config.deferred, SocketUse.isTcp, hacme]
  | quic =>
    cases hquic : config.servesQuic idx <;> cases hacme : config.isAcme idx <;>
      simp [Config.servedNow, Config.deferred, SocketUse.isTcp, hacme, hquic]
  | stream => simp [Config.servedNow, Config.deferred, SocketUse.isTcp]
  | mail => simp [Config.servedNow, Config.deferred, SocketUse.isTcp]

theorem serveAll_snd (env : RunEnv) (order : List Nat) (config : Config) (ss : List ListenSocket) :
    (serveAll env order config ss).2 = none ↔ ∀ idx ∈ order, env.ensureCert idx = true :=
  serveAcme_snd _ _ _ _

/-- A deferred socket is served after its block's certificate is there. -/
theorem precedes_serveAll (env : RunEnv) (order : List Nat) (config : Config)
    (ss : List ListenSocket) {s : ListenSocket} (hs : config.deferred s = true) :
    Precedes (· = Deed.ensured s.idx) (· = .serving s) (serveAll env order config ss).1 := by
  have hnow : config.servedNow s = false := by
    obtain ⟨use, idx, directive, addr⟩ := s
    cases use <;> simp_all [Config.deferred, Config.servedNow]
  unfold serveAll
  refine precedes_append.mpr ⟨precedes_of_forall_not ?_, .inr (precedes_append.mpr
    ⟨precedes_serveAcme _ _ _ _ s, .inr (precedes_of_forall_not ?_)⟩)⟩
  · rintro d hd rfl
    simp [hnow] at hd
  · rintro d hd rfl
    split at hd <;> simp at hd

/-! ## Every socket once -/

theorem httpSockets_idx {block : HttpBlock} {idx : Nat} {s : ListenSocket}
    (h : s ∈ httpSockets block idx) : s.idx = idx ∧ s.use ≠ .stream ∧ s.use ≠ .mail := by
  simp only [httpSockets, List.mem_filterMap, Option.map_eq_some_iff] at h
  obtain ⟨⟨listen, j⟩, -, use, huse, rfl⟩ := h
  refine ⟨rfl, ?_, ?_⟩ <;> rintro rfl <;>
    · simp only [Protocol.socketUse] at huse
      split at huse
      · cases huse
      · split at huse <;> cases huse

theorem pairwise_zipIdx {α : Type*} (l : List α) : l.zipIdx.Pairwise (fun p q => p.2 ≠ q.2) :=
  List.pairwise_map.mp (List.nodup_zipIdx_map_snd l)

theorem nodup_httpSockets (block : HttpBlock) (idx : Nat) : (httpSockets block idx).Nodup := by
  refine List.pairwise_filterMap.mpr ((pairwise_zipIdx _).imp fun hne s hs s' hs' => ?_)
  simp only [Option.map_eq_some_iff] at hs hs'
  obtain ⟨use, -, rfl⟩ := hs
  obtain ⟨use', -, rfl⟩ := hs'
  exact fun h => hne (congrArg ListenSocket.directive h)

theorem nodup_sockets (config : Config) : config.sockets.Nodup := by
  have hstream : (config.stream.zipIdx.map fun (sb, i) =>
      (⟨.stream, i, 0, listenAddr sb.listen⟩ : ListenSocket)).Nodup :=
    List.pairwise_map.mpr ((pairwise_zipIdx _).imp fun hne h => hne (congrArg ListenSocket.idx h))
  have hmail (mail : MailBlock) : (mail.listen.zipIdx.map fun (listen, j) =>
      (⟨.mail, 0, j, listenAddr listen⟩ : ListenSocket)).Nodup :=
    List.pairwise_map.mpr ((pairwise_zipIdx _).imp fun hne h =>
      hne (congrArg ListenSocket.directive h))
  have hhttp : (config.http.zipIdx.flatMap fun (block, idx) => httpSockets block idx).Nodup := by
    refine List.nodup_flatMap.mpr ⟨fun p _ => nodup_httpSockets p.1 p.2, ?_⟩
    refine (pairwise_zipIdx _).imp fun hne s hs hs' => ?_
    exact hne ((httpSockets_idx hs).1.symm.trans (httpSockets_idx hs').1)
  refine List.nodup_append'.mpr ⟨hhttp, List.nodup_append'.mpr ⟨hstream, ?_, ?_⟩, ?_⟩
  · cases config.mail with
    | none => exact List.nodup_nil
    | some mail => exact hmail mail
  · intro s hs hs'
    obtain ⟨p, -, rfl⟩ := List.mem_map.mp hs
    cases hm : config.mail with
    | none => simp [hm] at hs'
    | some mail => simp [hm] at hs'
  · intro s hs hs'
    obtain ⟨p, -, hs⟩ := List.mem_flatMap.mp hs
    obtain ⟨-, hstream, hmail⟩ := httpSockets_idx hs
    rcases List.mem_append.mp hs' with hs' | hs'
    · obtain ⟨q, -, rfl⟩ := List.mem_map.mp hs'
      exact hstream rfl
    · cases hm : config.mail with
      | none => simp [hm] at hs'
      | some m =>
        rw [hm] at hs'
        obtain ⟨q, -, rfl⟩ := List.mem_map.mp hs'
        exact hmail rfl

/-! ## The run -/

/-- Every socket can be bound, and privileges are dropped if they are to be. -/
def RunEnv.Opens (env : RunEnv) (config : ConfigFile) (c : Creds) : Prop :=
  (bindAll env.bind [] config.sockets).2 = none ∧ (env.drop config c).1 = .ok ()

instance : Decidable (env.Opens config c) := inferInstanceAs (Decidable (_ ∧ _))

/-- What the process has done while it still has its privileges. -/
def RunEnv.opening (env : RunEnv) (config : ConfigFile) : List Deed :=
  config.global.pidFile.toList.map .pidFile ++ (bindAll env.bind [] config.sockets).1.map .bound

/-- **The two phases of a run**: if everything opens, the listeners are served with what the drop
leaves, and otherwise nothing is. -/
theorem run_eq (env : RunEnv) (order : List Nat) (config : ConfigFile) (c : Creds) :
    (env.Opens config c ∧
      (Server.run env order config c).1 = (env.opening config).map (·, c) ++
        (serveAll env order config.toConfig config.sockets).1.map (·, (env.drop config c).2) ∧
      ((Server.run env order config c).2 = .ok () ↔
        (serveAll env order config.toConfig config.sockets).2 = none)) ∨
    (¬ env.Opens config c ∧ (Server.run env order config c).1 = (env.opening config).map (·, c) ∧
      (Server.run env order config c).2 ≠ .ok ()) := by
  cases hb : (bindAll env.bind [] config.sockets).2 with
  | some addr =>
    have hrun : Server.run env order config c =
        ((env.opening config).map (·, c), .error (.bind addr)) := by
      simp only [Server.run, RunEnv.opening, hb]
    rw [hrun]
    exact .inr ⟨fun h => (nomatch h.1.symm.trans hb), rfl, nofun⟩
  | none =>
    rcases hd : env.drop config c with ⟨e | ⟨⟩, c'⟩
    · have hrun : Server.run env order config c =
          ((env.opening config).map (·, c), .error (.drop e)) := by
        simp only [Server.run, RunEnv.opening, hb, hd]
      rw [hrun]
      refine .inr ⟨fun h => ?_, rfl, nofun⟩
      rw [RunEnv.Opens, hd] at h
      cases h.2
    · have hrun : Server.run env order config c = ((env.opening config).map (·, c) ++
            (serveAll env order config.toConfig config.sockets).1.map (·, c'),
          match (serveAll env order config.toConfig config.sockets).2 with
          | some idx => .error (.acme idx)
          | none => .ok ()) := by
        simp only [Server.run, RunEnv.opening, hb, hd, bindAll_eq _ _ _ hb]
      rw [hrun]
      refine .inl ⟨⟨hb, by rw [hd]⟩, rfl, ?_⟩
      cases (serveAll env order config.toConfig config.sockets).2 with
      | none => exact iff_of_true rfl rfl
      | some idx => exact iff_of_false nofun nofun

/-- What `Server::run` does before it drops privileges. -/
def Deed.opens : Deed → Bool
  | .pidFile _ | .bound _ => true
  | _ => false

theorem opens_of_mem_opening {d : Deed} (h : d ∈ env.opening config) : d.opens = true := by
  rcases List.mem_append.mp h with h | h <;>
    · obtain ⟨-, -, rfl⟩ := List.mem_map.mp h
      rfl

theorem opens_of_mem_serveAcme {ensureCert : Nat → Bool} {tls quic : List ListenSocket} {d : Deed}
    (h : d ∈ (serveAcme ensureCert order tls quic).1) : d.opens = false := by
  induction order generalizing tls quic with
  | nil => cases h
  | cons idx rest ih =>
    unfold serveAcme at h
    split at h
    · rcases List.mem_cons.mp h with rfl | h
      · rfl
      · rcases List.mem_append.mp h with h | h
        · obtain ⟨s, -, rfl⟩ := List.mem_map.mp h
          rfl
        · rcases List.mem_cons.mp h with rfl | h
          · rfl
          · exact ih h
    · cases h

theorem opens_of_mem_serveAll {config : Config} {ss : List ListenSocket} {d : Deed}
    (h : d ∈ (serveAll env order config ss).1) : d.opens = false := by
  rcases List.mem_append.mp h with h | h
  · obtain ⟨s, -, rfl⟩ := List.mem_map.mp h
    rfl
  · rcases List.mem_append.mp h with h | h
    · exact opens_of_mem_serveAcme h
    · split at h
      · rw [List.mem_singleton.mp h]
        rfl
      · cases h

/-- **A server started as root, with a user to drop to, does as root what it opens and nothing
else.** Only the PID file is written and sockets are bound with the credentials it has; all that
follows is done as that user, once every socket is bound, and no call that the process makes then
gives it other credentials. -/
theorem run_unprivileged (env : RunEnv) (order : List Nat) (config : ConfigFile) (c : Creds)
    {name : Text} {user : User} (hc : c.privileged = true)
    (hname : config.global.user = some name) (huser : env.fromName name = some (some user))
    (hu : user.uid ≠ 0) :
    ∃ opening rest, (Server.run env order config c).1 = opening ++ rest ∧
      (∀ d ∈ opening, d.1.opens = true ∧ d.2 = c) ∧
      (∀ d ∈ rest, d.1.opens = false ∧
        ∀ calls, env.kernel.run d.2 calls = .confined user.uid user.gid) ∧
      (rest ≠ [] → ∀ s ∈ config.sockets, (.bound s, c) ∈ opening) := by
  have hopening : ∀ d ∈ (env.opening config).map (·, c), d.1.opens = true ∧ d.2 = c := by
    intro d hd
    obtain ⟨d', hd', rfl⟩ := List.mem_map.mp hd
    exact ⟨opens_of_mem_opening hd', rfl⟩
  rcases run_eq env order config c with ⟨⟨hbind, hdrop⟩, hrun, -⟩ | ⟨-, hrun, -⟩
  · refine ⟨_, _, hrun, hopening, fun d hd => ?_, fun _ s hs => ?_⟩
    · obtain ⟨d', hd', rfl⟩ := List.mem_map.mp hd
      refine ⟨opens_of_mem_serveAll hd', fun calls => ?_⟩
      have hspec : dropPrivileges env.kernel env.fromName name c =
          (.ok (), (env.drop config c).2) := by
        rw [← hdrop]
        unfold RunEnv.drop
        rw [hname]
      rcases dropPrivileges_spec hspec with ⟨hno, -⟩ | ⟨-, user', huser', hconf⟩
      · exact absurd (hc.symm.trans hno) (by decide)
      · obtain rfl : user = user' := by
          rw [huser] at huser'
          exact Option.some.inj (Option.some.inj huser')
        show env.kernel.run (env.drop config c).2 calls = _
        rw [hconf]
        exact run_confined env.kernel hu calls
    · refine List.mem_map.mpr ⟨.bound s, List.mem_append_right _ (List.mem_map_of_mem ?_), rfl⟩
      rwa [bindAll_eq _ _ _ hbind]
  · exact ⟨_, [], by rw [hrun, List.append_nil], hopening, by simp, by simp⟩

theorem run_unprivileged_www :
    root.privileged = true ∧ acmeFile.global.user = some "www".toList ∧
    runEnv.fromName "www".toList = some (some ⟨33, 33⟩) ∧
    ∃ opening rest, (Server.run runEnv [0] acmeFile root).1 = opening ++ rest ∧
      (∀ d ∈ opening, d.1.opens = true ∧ d.2 = root) ∧
      (∀ d ∈ rest, d.1.opens = false ∧
        ∀ calls, runEnv.kernel.run d.2 calls = .confined 33 33) ∧
      (rest ≠ [] → ∀ s ∈ acmeFile.sockets, (.bound s, root) ∈ opening) :=
  ⟨rfl, rfl, rfl, run_unprivileged runEnv [0] acmeFile root rfl rfl rfl (by decide)⟩

theorem servedSockets_opening (env : RunEnv) (config : ConfigFile) :
    servedSockets (env.opening config) = [] := by
  refine List.eq_nil_iff_forall_not_mem.mpr fun s hs => ?_
  exact Bool.noConfusion (opens_of_mem_opening (mem_servedSockets.mp hs))

theorem deeds_eq (env : RunEnv) (order : List Nat) (config : ConfigFile) (c : Creds) :
    (env.Opens config c ∧ (Server.run env order config c).1.map Prod.fst =
      env.opening config ++ (serveAll env order config.toConfig config.sockets).1) ∨
    (¬ env.Opens config c ∧
      (Server.run env order config c).1.map Prod.fst = env.opening config) := by
  have hfst (ds : List Deed) (c : Creds) : (ds.map (·, c)).map Prod.fst = ds := by
    simp [List.map_map, Function.comp_def]
  rcases run_eq env order config c with ⟨hopens, hrun, -⟩ | ⟨hopens, hrun, -⟩
  · exact .inl ⟨hopens, by rw [hrun, List.map_append, hfst, hfst]⟩
  · exact .inr ⟨hopens, by rw [hrun, hfst]⟩

/-- A run serves every socket it is to serve as often as it is bound. -/
theorem count_run (env : RunEnv) (order : List Nat) (config : ConfigFile) (c : Creds)
    (s : ListenSocket) :
    (servedSockets ((Server.run env order config c).1.map Prod.fst)).count s =
      if env.Opens config c ∧ (config.servedNow s = true ∨
          config.deferred s = true ∧ s.idx ∈ order.takeWhile env.ensureCert) then
        config.sockets.count s
      else 0 := by
  rcases deeds_eq env order config c with ⟨hopens, hrun⟩ | ⟨hopens, hrun⟩
  · simp only [hrun, servedSockets_append, servedSockets_opening, List.nil_append, count_serveAll,
      hopens, true_and]
  · simp only [hrun, servedSockets_opening, hopens, false_and, if_false, List.count_nil]

theorem mem_acmeBlocks_of_deferred {config : Config} {s : ListenSocket}
    (h : config.deferred s = true) : s.idx ∈ config.acmeBlocks := by
  have hacme : config.isAcme s.idx = true := by
    unfold Config.deferred at h
    split at h
    · exact (Bool.and_eq_true _ _ ▸ h).2
    · exact (Bool.and_eq_true _ _ ▸ h).2
    · cases h
    · cases h
  refine List.mem_filter.mpr ⟨List.mem_range.mpr ?_, hacme⟩
  by_contra hlt
  simp [Config.isAcme, List.getElem?_eq_none (Nat.le_of_not_lt hlt)] at hacme

/-- A run goes well if everything opens and every certificate is there. -/
theorem run_ok_iff (env : RunEnv) {order : List Nat} {config : ConfigFile} (c : Creds)
    (horder : order.Perm config.acmeBlocks) : (Server.run env order config c).2 = .ok () ↔
      env.Opens config c ∧ ∀ idx ∈ config.acmeBlocks, env.ensureCert idx = true := by
  have hall : (∀ idx ∈ config.acmeBlocks, env.ensureCert idx = true) ↔
      ∀ idx ∈ order, env.ensureCert idx = true := by
    simp only [horder.mem_iff]
  rcases run_eq env order config c with ⟨hopens, -, hok⟩ | ⟨hopens, -, hok⟩
  · rw [hok, serveAll_snd, hall, and_iff_right hopens]
  · exact iff_of_false hok fun h => hopens h.1

/-- A socket is served after every socket has been bound, and after its certificate is there. -/
theorem precedes_run (env : RunEnv) (order : List Nat) (config : ConfigFile) (c : Creds)
    (s : ListenSocket) :
    let deeds := (Server.run env order config c).1.map Prod.fst
    (∀ s' ∈ config.sockets, Precedes (· = .bound s') (· = .serving s) deeds) ∧
      (config.deferred s = true → Precedes (· = .ensured s.idx) (· = .serving s) deeds) := by
  intro deeds
  have hno : ∀ d ∈ env.opening config, ¬ d = .serving s := by
    rintro d hd rfl
    exact Bool.noConfusion (opens_of_mem_opening hd)
  rcases deeds_eq env order config c with ⟨hopens, hrun⟩ | ⟨-, hrun⟩
  · have hbound : ∀ s' ∈ config.sockets, .bound s' ∈ env.opening config := fun s' hs' => by
      refine List.mem_append_right _ (List.mem_map_of_mem ?_)
      rwa [bindAll_eq _ _ _ hopens.1]
    refine ⟨fun s' hs' => ?_, fun hs => ?_⟩
    · show Precedes _ _ ((Server.run env order config c).1.map Prod.fst)
      rw [hrun]
      exact precedes_append.mpr ⟨precedes_of_forall_not hno, .inl ⟨_, hbound s' hs', rfl⟩⟩
    · show Precedes _ _ ((Server.run env order config c).1.map Prod.fst)
      rw [hrun]
      exact precedes_append.mpr
        ⟨precedes_of_forall_not hno, .inr (precedes_serveAll env order _ _ hs)⟩
  · have hnone (p : Deed → Prop) : Precedes p (· = .serving s) deeds := by
      show Precedes _ _ ((Server.run env order config c).1.map Prod.fst)
      rw [hrun]
      exact precedes_of_forall_not hno
    exact ⟨fun s' _ => hnone _, fun _ => hnone _⟩

/-- **Which sockets a run serves, and when**, in whatever order the map of managers is gone
through. Each is served at most once, and after every socket has been bound: one that needs no
issued certificate when everything opens, and one that does after its block's certificate is
there, if those of all blocks before it are. The run goes well if everything opens and every
certificate is there, and then it serves all there is to serve. -/
theorem run_serves (env : RunEnv) (order : List Nat) (config : ConfigFile) (c : Creds)
    (horder : order.Perm config.acmeBlocks) :
    let deeds := (Server.run env order config c).1.map Prod.fst
    (servedSockets deeds).Nodup ∧
    (∀ s, s ∈ servedSockets deeds ↔ s ∈ config.sockets ∧ env.Opens config c ∧
      (config.servedNow s = true ∨
        config.deferred s = true ∧ s.idx ∈ order.takeWhile env.ensureCert)) ∧
    (∀ s, (∀ s' ∈ config.sockets, Precedes (· = .bound s') (· = .serving s) deeds) ∧
      (config.deferred s = true →
        Precedes (· = .ensured s.idx) (· = .serving s) deeds)) ∧
    ((Server.run env order config c).2 = .ok () ↔
      env.Opens config c ∧ ∀ idx ∈ config.acmeBlocks, env.ensureCert idx = true) ∧
    ((Server.run env order config c).2 = .ok () → (servedSockets deeds).Perm
      (config.sockets.filter fun s => config.servedNow s || config.deferred s)) := by
  intro deeds
  have hcount (s : ListenSocket) := count_run env order config c s
  refine ⟨?_, fun s => ?_, precedes_run env order config c, run_ok_iff env c horder,
    fun hrun => ?_⟩
  · refine List.nodup_iff_count_le_one.mpr fun s => (hcount s).trans_le ?_
    split
    · exact List.nodup_iff_count_le_one.mp (nodup_sockets _) s
    · exact Nat.zero_le 1
  · rw [← List.count_pos_iff, hcount s]
    split
    · next h => rw [List.count_pos_iff, and_iff_left h]
    · next h => exact iff_of_false (Nat.lt_irrefl 0) fun hs => h hs.2
  · obtain ⟨hopens, hall⟩ := (run_ok_iff env c horder).mp hrun
    refine List.perm_iff_count.mpr fun s => (hcount s).trans ?_
    rw [count_filter_ite]
    have htake : config.deferred s = true → s.idx ∈ order.takeWhile env.ensureCert := fun h => by
      rw [List.takeWhile_eq_self_iff.mpr fun idx hidx => hall idx (horder.mem_iff.mp hidx)]
      exact horder.mem_iff.mpr (mem_acmeBlocks_of_deferred h)
    simp only [hopens, true_and, and_iff_left_of_imp htake, Bool.or_eq_true]

example : (Server.run runEnv [0] acmeFile root).2 = .ok () := by decide
example : servedSockets ((Server.run { runEnv with ensureCert := fun _ => false } [0] acmeFile
    root).1.map Prod.fst) = [⟨.http false, 0, 0, ⟨.v4 ⟨0, 0, 0, 0⟩, 80⟩⟩] := by decide

theorem run_serves_www :
    [0].Perm acmeFile.acmeBlocks ∧
    ((Server.run runEnv [0] acmeFile root).2 = .ok () ↔
      runEnv.Opens acmeFile root ∧ ∀ idx ∈ acmeFile.acmeBlocks, runEnv.ensureCert idx = true) := by
  have horder : [0].Perm acmeFile.acmeBlocks := by decide
  exact ⟨horder, (run_serves runEnv [0] acmeFile root horder).2.2.2.1⟩

end Flexd

import EpsilonDB.Lib.Runs
import Mathlib.Algebra.BigOperators.Fin
import Mathlib.Algebra.Order.BigOperators.Group.Finset
import Mathlib.Data.List.Nodup

/-!
# Acceptors, workers and the stop of the HTTP server (`httpd/epsilon_http.c`)

Each listener has a thread that accepts, each connection a detached thread that serves it. The
workers are linked into a list and counted under the lock of the server. Stopping clears `running`,
shuts down what is linked, closes the listeners, joins the acceptors and waits until the count is
zero; then the server is freed.

- `HttpServer`: the fields under the lock, where each thread is, and the descriptors of the process.
- `HttpServer.step`: the sections of `accept_main`, `conn_main` and `edb_http_stop` as the steps of
  any number of threads, and what the rest of the process does with its own descriptors.
- `Change`, `change_of_step`: what a step can do.
- `Handed`, `Owned`, `Phased`, `kept_change`: the invariant, of the threads and the list, of the
  descriptors, and of the stop.
- `server_accounted`: in every run the count is that of the list and never above the limit, every
  `close` hits a descriptor of the server and none twice, and once the server is freed no thread
  is left and no descriptor is.
- `stop_returns`: a stop is never stuck, and takes a bounded number of steps.
- `shut_own`: it shuts down only connections of the server exactly when no worker is between
  `close` and the removal from the list.
-/

namespace EpsilonDB

/-- `EDB_HTTP_MAX_WORKERS`. -/
def maxWorkers : Nat := 128

/-- How far a connection has come. -/
inductive ConnStage where
  /-- `accept` returned it -/
  | accepted
  /-- it has a context -/
  | holding
  /-- its context is linked, and its thread is about to be created -/
  | registered
  /-- there is no thread for it, and its context is not linked any more -/
  | unlinked
  /-- it is one too many, or the server stops -/
  | refused (stopping : Bool)
  /-- at the head of the loop of its worker -/
  | check (keepAlive : Bool)
  /-- in `parse_request_full` -/
  | reading
  /-- in the handler, or writing the response -/
  | serving
  /-- the loop is left -/
  | closing
  /-- the descriptor is closed, and the context still linked -/
  | closed
deriving DecidableEq

/-- An acceptor has the connection. -/
def ConnStage.withAcceptor : ConnStage → Bool
  | .accepted | .holding | .registered | .unlinked | .refused _ => true
  | _ => false

/-- The context is in the list. -/
def ConnStage.linked : ConnStage → Bool
  | .registered | .check _ | .reading | .serving | .closing | .closed => true
  | _ => false

theorem ConnStage.withAcceptor_or_linked (stage : ConnStage) :
    stage.withAcceptor = true ∨ stage.linked = true := by
  cases stage <;> simp [ConnStage.withAcceptor, ConnStage.linked]

/-- Where an acceptor is. -/
inductive Acceptor where
  /-- at the head of the loop -/
  | check
  /-- in `accept` -/
  | accepting
  /-- `accept` failed -/
  | failed
  /-- with the connection that was accepted -/
  | busy (t : Nat)
  | done
deriving DecidableEq

/-- Where `edb_http_stop` is. -/
inductive Stopping where
  | idle
  /-- the first section is done -/
  | flagged
  /-- the listeners are closed and so many acceptors joined -/
  | joining (k : Nat)
  /-- it returned -/
  | freed
deriving DecidableEq

/-- What a descriptor of the process stands for. -/
inductive Owner (n : Nat) where
  | free
  /-- some other part of the process has it -/
  | other
  | listener (i : Fin n)
  /-- the connection that was accepted as number `t` -/
  | conn (t : Nat)
deriving DecidableEq

/-- A connection: its descriptor and how far it has come. -/
structure Conn where
  fd : Nat
  stage : ConnStage
deriving DecidableEq

/-- `edb_http_server` with `n` listeners, its threads, and the descriptors of the process. The
connections are numbered as they are accepted. -/
structure HttpServer (n : Nat) where
  running : Bool := true
  nworkers : Nat := 0
  workers : List Nat := []
  acceptor : Fin n → Acceptor := fun _ => .check
  conn : Nat → Option Conn := fun _ => none
  accepted : Nat := 0
  stop : Stopping := .idle
  listenFd : Fin n → Nat
  owner : Nat → Owner n
  /-- what each `close` hit -/
  closes : List (Owner n) := []
  /-- what each `shutdown` of a worker's descriptor hit -/
  shutdowns : List (Nat × Owner n) := []

namespace HttpServer

variable {n : Nat}

/-- `close(fd)`. -/
def closeFd (s : HttpServer n) (fd : Nat) : HttpServer n :=
  { s with
    owner := Function.update s.owner fd .free
    closes := s.owner fd :: s.closes }

/-- The connection goes on to another stage. -/
def setStage (s : HttpServer n) (t : Nat) (c : Conn) (stage : ConnStage) : HttpServer n :=
  { s with conn := Function.update s.conn t (some { c with stage }) }

/-- The context is freed. -/
def dropConn (s : HttpServer n) (t : Nat) : HttpServer n :=
  { s with conn := Function.update s.conn t none }

def setAcceptor (s : HttpServer n) (i : Fin n) (a : Acceptor) : HttpServer n :=
  { s with acceptor := Function.update s.acceptor i a }

/-- `accept` returns a descriptor. -/
def takeConn (s : HttpServer n) (i : Fin n) (fd : Nat) : HttpServer n :=
  { s.setAcceptor i (.busy s.accepted) with
    conn := Function.update s.conn s.accepted (some ⟨fd, .accepted⟩)
    owner := Function.update s.owner fd (.conn s.accepted)
    accepted := s.accepted + 1 }

/-- A context is linked. -/
def link (s : HttpServer n) (t : Nat) (c : Conn) : HttpServer n :=
  { s.setStage t c .registered with
    workers := t :: s.workers
    nworkers := s.nworkers + 1 }

inductive Label (n : Nat) where
  /-- an acceptor reads `running` -/
  | look (i : Fin n)
  | accept (i : Fin n) (fd : Nat)
  /-- it may at any time, also where the number of the listener is in use again -/
  | acceptFails (i : Fin n)
  | alloc (i : Fin n) (ok : Bool)
  | register (i : Fin n)
  | refuse (i : Fin n)
  | spawn (i : Fin n) (ok : Bool)
  | unspawn (i : Fin n)
  /-- a worker reads `running` -/
  | turn (t : Nat)
  | read (t : Nat) (ok : Bool)
  | answer (t : Nat) (keepAlive : Bool)
  | close (t : Nat)
  | unlink (t : Nat)
  | stop
  /-- the listeners, one by one in the source, are closed in one step -/
  | closeListeners
  | join
  /-- the wait for the workers ends -/
  | free
  /-- another part of the process opens or closes a descriptor -/
  | otherOpens (fd : Nat)
  | otherCloses (fd : Nat)
deriving DecidableEq

/-- The threads of the server take the step. -/
def Label.ofServer : Label n → Bool
  | .otherOpens _ | .otherCloses _ => false
  | _ => true

/-- The connection an acceptor has, in some stage. -/
def held (s : HttpServer n) (i : Fin n) (stage : ConnStage) : Option (Nat × Conn) :=
  match s.acceptor i with
  | .busy t =>
    match s.conn t with
    | some c => if c.stage = stage then some (t, c) else none
    | none => none
  | _ => none

/-- A connection in some stage. -/
def at? (s : HttpServer n) (t : Nat) (stage : ConnStage) : Option Conn :=
  (s.conn t).filter fun c => c.stage = stage

/-- `accept_main`, up to the registration. -/
def register (s : HttpServer n) (t : Nat) (c : Conn) : HttpServer n :=
  if !s.running || decide (maxWorkers ≤ s.nworkers) then s.setStage t c (.refused !s.running)
  else s.link t c

/-- `--` on a `size_t`. -/
def sizePred (k : Nat) : Nat := if 0 < k then k - 1 else 2 ^ 64 - 1

/-- `accept_main`, when there is no thread for the connection. -/
def unregister (s : HttpServer n) (t : Nat) (c : Conn) : HttpServer n :=
  { s.setStage t c .unlinked with
    workers := s.workers.erase t
    nworkers := sizePred s.nworkers }

/-- The end of `conn_main`. -/
def unlink (s : HttpServer n) (t : Nat) : HttpServer n :=
  { s.dropConn t with
    workers := s.workers.erase t
    nworkers := if 0 < s.nworkers then s.nworkers - 1 else s.nworkers }

/-- The first section of `edb_http_stop`. -/
def flag (s : HttpServer n) : HttpServer n :=
  { s with
    running := false
    stop := .flagged
    shutdowns := s.workers.filterMap fun t => (s.conn t).map fun c => (t, s.owner c.fd) }

/-- The listeners are closed, one after the other. -/
def closeListeners (s : HttpServer n) : HttpServer n :=
  { (List.ofFn s.listenFd).foldl closeFd s with stop := .joining 0 }

/-- One step of a thread, or of the rest of the process. -/
def step (s : HttpServer n) : Label n → Option (HttpServer n)
  | .look i =>
    match s.acceptor i with
    | .check => some (s.setAcceptor i (if s.running then .accepting else .done))
    | .failed => some (s.setAcceptor i (if s.running then .check else .done))
    | _ => none
  | .accept i fd =>
    -- the number of a closed listener may have been taken by another part
    if s.acceptor i = .accepting ∧ s.owner (s.listenFd i) ≠ .free ∧ s.owner fd = .free then
      some (s.takeConn i fd)
    else none
  | .acceptFails i =>
    if s.acceptor i = .accepting then some (s.setAcceptor i .failed) else none
  | .alloc i ok =>
    (s.held i .accepted).map fun (t, c) =>
      if ok then s.setStage t c .holding
      else ((s.closeFd c.fd).dropConn t).setAcceptor i .check
  | .register i => (s.held i .holding).map fun (t, c) => s.register t c
  | .refuse i =>
    match s.acceptor i with
    | .busy t =>
      match s.conn t with
      | some ⟨fd, .refused stopping⟩ =>
        some (((s.closeFd fd).dropConn t).setAcceptor i (if stopping then .done else .check))
      | _ => none
    | _ => none
  | .spawn i ok =>
    (s.held i .registered).map fun (t, c) =>
      if ok then (s.setStage t c (.check true)).setAcceptor i .check else s.unregister t c
  | .unspawn i =>
    (s.held i .unlinked).map fun (t, c) => ((s.closeFd c.fd).dropConn t).setAcceptor i .check
  | .turn t =>
    match s.conn t with
    | some ⟨fd, .check keepAlive⟩ =>
      some (s.setStage t ⟨fd, .check keepAlive⟩
        (if !keepAlive || !s.running then .closing else .reading))
    | _ => none
  | .read t ok =>
    (s.at? t .reading).map fun c => s.setStage t c (if ok then .serving else .closing)
  | .answer t keepAlive => (s.at? t .serving).map fun c => s.setStage t c (.check keepAlive)
  | .close t => (s.at? t .closing).map fun c => (s.closeFd c.fd).setStage t c .closed
  | .unlink t => (s.at? t .closed).map fun _ => s.unlink t
  | .stop => if s.stop = .idle then some s.flag else none
  | .closeListeners => if s.stop = .flagged then some s.closeListeners else none
  | .join =>
    match s.stop with
    | .joining k =>
      if h : k < n then
        if s.acceptor ⟨k, h⟩ = .done then some { s with stop := .joining (k + 1) } else none
      else none
    | _ => none
  | .free =>
    if s.stop = .joining n ∧ s.nworkers = 0 then some { s with stop := .freed } else none
  | .otherOpens fd =>
    if s.owner fd = .free then some { s with owner := Function.update s.owner fd .other }
    else none
  | .otherCloses fd =>
    if s.owner fd = .other then some { s with owner := Function.update s.owner fd .free }
    else none

/-! ## What a step can do -/

end HttpServer

/-- How many steps there may be for a connection once the server stops. -/
def ConnStage.left : ConnStage → Nat
  | .closed => 1
  | .closing | .unlinked | .refused _ => 2
  | .check _ | .holding => 3
  | .serving | .accepted => 4
  | .reading | .registered => 5

theorem ConnStage.one_lt_left {stage : ConnStage} (h : stage.withAcceptor = true) : 1 < stage.left := by
  cases stage <;> simp_all [ConnStage.withAcceptor, ConnStage.left]

/-- How many steps there may be for an acceptor that has no connection. -/
def Acceptor.left : Acceptor → Nat
  | .accepting => 5
  | .check | .failed => 1
  | .busy _ | .done => 0

/-- The acceptor has a connection. -/
def Acceptor.isBusy : Acceptor → Bool
  | .busy _ => true
  | _ => false

namespace HttpServer

variable {s s' : HttpServer n} {l : Label n}

/-- **What a step can do**, with what it finds. Once `running` is cleared every step of a thread
brings it nearer to its end. -/
inductive Change (s : HttpServer n) : Bool → HttpServer n → Prop where
  | acceptor {i : Fin n} {a : Acceptor} (hfound : (s.acceptor i).isBusy = false)
      (hundone : s.acceptor i ≠ .done) (ha : a.isBusy = false)
      (hleft : s.running = false → a.left < (s.acceptor i).left) :
      Change s true (s.setAcceptor i a)
  | accept {i : Fin n} {fd : Nat} (hfound : s.acceptor i = .accepting) (hfd : s.owner fd = .free) :
      Change s true (s.takeConn i fd)
  | goesOn {t : Nat} {c : Conn} {stage : ConnStage} (hfound : s.conn t = some c)
      (hacceptor : stage.withAcceptor = c.stage.withAcceptor)
      (hlinked : stage.linked = c.stage.linked) (hopen : c.stage ≠ .closed)
      (hopen' : stage ≠ .closed) (hleft : s.running = false → stage.left < c.stage.left) :
      Change s true (s.setStage t c stage)
  | registers {t : Nat} {c : Conn} (hfound : s.conn t = some c) (hstage : c.stage = .holding)
      (hrunning : s.running = true) (hfew : s.nworkers < maxWorkers) :
      Change s true (s.link t c)
  | handsOver {i : Fin n} {t : Nat} {c : Conn} (hi : s.acceptor i = .busy t)
      (hfound : s.conn t = some c) (hstage : c.stage = .registered) :
      Change s true ((s.setStage t c (.check true)).setAcceptor i .check)
  | unregisters {t : Nat} {c : Conn} (hfound : s.conn t = some c)
      (hstage : c.stage = .registered) : Change s true (s.unregister t c)
  | drops {i : Fin n} {t : Nat} {c : Conn} {a : Acceptor} (hi : s.acceptor i = .busy t)
      (hfound : s.conn t = some c) (hacceptor : c.stage.withAcceptor)
      (hlinked : c.stage.linked = false) (ha : a = .check ∨ a = .done) :
      Change s true (((s.closeFd c.fd).dropConn t).setAcceptor i a)
  | closes {t : Nat} {c : Conn} (hfound : s.conn t = some c) (hstage : c.stage = .closing) :
      Change s true ((s.closeFd c.fd).setStage t c .closed)
  | unlinks {t : Nat} {c : Conn} (hfound : s.conn t = some c) (hstage : c.stage = .closed) :
      Change s true (s.unlink t)
  | flag (hstop : s.stop = .idle) : Change s true s.flag
  | closeListeners (hstop : s.stop = .flagged) : Change s true s.closeListeners
  | joins {k : Nat} (hstop : s.stop = .joining k) (hk : k < n)
      (hdone : s.acceptor ⟨k, hk⟩ = .done) :
      Change s true { s with stop := .joining (k + 1) }
  | frees (hstop : s.stop = .joining n) (hnone : s.nworkers = 0) :
      Change s true { s with stop := .freed }
  | otherOpens {fd : Nat} (hfd : s.owner fd = .free) :
      Change s false { s with owner := Function.update s.owner fd .other }
  | otherCloses {fd : Nat} (hfd : s.owner fd = .other) :
      Change s false { s with owner := Function.update s.owner fd .free }

theorem of_held {i : Fin n} {stage : ConnStage} {t : Nat} {c : Conn}
    (h : s.held i stage = some (t, c)) :
    s.acceptor i = .busy t ∧ s.conn t = some c ∧ c.stage = stage := by
  unfold held at h
  split at h
  · next t' hi =>
    split at h
    · next c' hc =>
      split at h
      · next hstage =>
        cases h
        exact ⟨hi, hc, hstage⟩
      · cases h
    · cases h
  · cases h

theorem of_at {t : Nat} {stage : ConnStage} {c : Conn} (h : s.at? t stage = some c) :
    s.conn t = some c ∧ c.stage = stage := by
  obtain ⟨hc, hstage⟩ := Option.filter_eq_some_iff.mp h
  exact ⟨hc, of_decide_eq_true hstage⟩

theorem change_of_step (h : step s l = some s') : Change s l.ofServer s' := by
  cases l with
  | look i =>
    -- the flag is read anew before every accept: it sends the acceptor on or out of its loop
    simp only [step] at h
    split at h
    · next hi =>
      cases h
      refine .acceptor (by rw [hi]; rfl) (by rw [hi]; nofun) (by split <;> rfl) fun hr => ?_
      rw [hr, hi]
      decide
    · next hi =>
      cases h
      refine .acceptor (by rw [hi]; rfl) (by rw [hi]; nofun) (by split <;> rfl) fun hr => ?_
      rw [hr, hi]
      decide
    · cases h
  | accept i fd =>
    simp only [step] at h
    split at h
    · next hc =>
      cases h
      exact .accept hc.1 hc.2.2
    · cases h
  | acceptFails i =>
    simp only [step] at h
    split at h
    · next hi =>
      cases h
      exact .acceptor (by rw [hi]; rfl) (by rw [hi]; nofun) rfl fun _ => by rw [hi]; decide
    · cases h
  | alloc i ok =>
    -- without memory for the thread's argument the new descriptor is dropped at once
    obtain ⟨⟨t, c⟩, hheld, rfl⟩ := Option.map_eq_some_iff.mp h
    obtain ⟨hi, hc, hstage⟩ := of_held hheld
    cases ok with
    | true =>
      exact .goesOn hc (by rw [hstage]; rfl) (by rw [hstage]; rfl) (by rw [hstage]; nofun) nofun
        fun _ => by rw [hstage]; decide
    | false => exact .drops hi hc (by rw [hstage]; rfl) (by rw [hstage]; rfl) (.inl rfl)
  | register i =>
    -- under the lock: refused when the server stops or the list is full, else entered in it
    obtain ⟨⟨t, c⟩, hheld, rfl⟩ := Option.map_eq_some_iff.mp h
    obtain ⟨-, hc, hstage⟩ := of_held hheld
    simp only [register]
    split
    · exact .goesOn hc (by rw [hstage]; rfl) (by rw [hstage]; rfl) (by rw [hstage]; nofun) nofun
        fun _ => by rw [hstage]; exact Nat.lt_succ_self 2
    · next hno =>
      simp only [Bool.or_eq_true, Bool.not_eq_true', decide_eq_true_eq, not_or, not_le,
        Bool.not_eq_false] at hno
      exact .registers hc hstage hno.1 hno.2
  | refuse i =>
    simp only [step] at h
    split at h
    · next t hi =>
      split at h
      · next fd stopping hc =>
        cases h
        exact .drops hi hc rfl rfl (by cases stopping <;> simp)
      · cases h
    · cases h
  | spawn i ok =>
    -- a thread that cannot be started leaves the acceptor an entry to take off the list again
    obtain ⟨⟨t, c⟩, hheld, rfl⟩ := Option.map_eq_some_iff.mp h
    obtain ⟨hi, hc, hstage⟩ := of_held hheld
    cases ok with
    | true => exact .handsOver hi hc hstage
    | false => exact .unregisters hc hstage
  | unspawn i =>
    obtain ⟨⟨t, c⟩, hheld, rfl⟩ := Option.map_eq_some_iff.mp h
    obtain ⟨hi, hc, hstage⟩ := of_held hheld
    exact .drops hi hc (by rw [hstage]; rfl) (by rw [hstage]; rfl) (.inl rfl)
  | turn t =>
    -- a connection that was shut down meanwhile goes to its end whatever the flag says
    simp only [step] at h
    split at h
    · next fd keepAlive hc =>
      cases h
      refine .goesOn hc (by split <;> rfl) (by split <;> rfl) nofun (by split <;> nofun)
        fun hr => ?_
      rw [hr, Bool.not_false, Bool.or_true, if_pos rfl]
      exact Nat.lt_succ_self 2
    · cases h
  | read t ok =>
    -- what was read decides the stage only; the connection stays with its thread
    obtain ⟨c, hat, rfl⟩ := Option.map_eq_some_iff.mp h
    obtain ⟨hc, hstage⟩ := of_at hat
    refine .goesOn hc ?_ ?_ (by rw [hstage]; nofun) (by split <;> nofun) fun _ => ?_ <;>
      rw [hstage] <;> cases ok <;> decide
  | answer t keepAlive =>
    obtain ⟨c, hat, rfl⟩ := Option.map_eq_some_iff.mp h
    obtain ⟨hc, hstage⟩ := of_at hat
    exact .goesOn hc (by rw [hstage]; rfl) (by rw [hstage]; rfl) (by rw [hstage]; nofun) nofun
      fun _ => by rw [hstage]; exact Nat.lt_succ_self 3
  | close t =>
    obtain ⟨c, hat, rfl⟩ := Option.map_eq_some_iff.mp h
    obtain ⟨hc, hstage⟩ := of_at hat
    exact .closes hc hstage
  | unlink t =>
    obtain ⟨c, hat, rfl⟩ := Option.map_eq_some_iff.mp h
    obtain ⟨hc, hstage⟩ := of_at hat
    exact .unlinks hc hstage
  | stop =>
    simp only [step] at h
    split at h
    · next hidle =>
      cases h
      exact .flag hidle
    · cases h
  | closeListeners =>
    simp only [step] at h
    split at h
    · next hstop =>
      cases h
      exact .closeListeners hstop
    · cases h
  | join =>
    -- the stopper waits for the acceptors one by one
    simp only [step] at h
    split at h
    · next k hstop =>
      split at h
      · next hk =>
        split at h
        · next hdone =>
          cases h
          exact .joins hstop hk hdone
        · cases h
      · cases h
    · cases h
  | free =>
    simp only [step] at h
    split at h
    · next hc =>
      cases h
      exact .frees hc.1 hc.2
    · cases h
  | otherOpens fd =>
    -- the numbers of descriptors are shared with the rest of the process
    simp only [step] at h
    split at h
    · next hfd =>
      cases h
      exact .otherOpens hfd
    · cases h
  | otherCloses fd =>
    simp only [step] at h
    split at h
    · next hfd =>
      cases h
      exact .otherCloses hfd
    · cases h

/-! ## The connections and the list -/

/-- Some acceptor has to go on with the connection. -/
def awaits (s : HttpServer n) (t : Nat) : Bool := (s.conn t).any (·.stage.withAcceptor)

/-- The context of the connection is in the list. -/
def links (s : HttpServer n) (t : Nat) : Bool := (s.conn t).any (·.stage.linked)

/-- The listeners are not closed yet. -/
def Listening (s : HttpServer n) : Prop := s.stop = .idle ∨ s.stop = .flagged

/-- The connections, who has them, and the list and the count of their contexts. -/
structure Handed (s : HttpServer n) : Prop where
  busy_iff : ∀ t, s.awaits t = true ↔ ∃ i, s.acceptor i = .busy t
  busy_inj : ∀ i j t, s.acceptor i = .busy t → s.acceptor j = .busy t → i = j
  linked_iff : ∀ t, t ∈ s.workers ↔ s.links t = true
  nodup : s.workers.Nodup
  count : s.nworkers = s.workers.length
  bound : s.nworkers ≤ maxWorkers
  fresh : ∀ t, s.accepted ≤ t → s.conn t = none

theorem any_update (p : Conn → Bool) (f : Nat → Option Conn) (t : Nat) (v : Option Conn) :
    (fun t' => (Function.update f t v t').any p) =
      Function.update (fun t' => (f t').any p) t (v.any p) := by
  funext t'
  by_cases h : t' = t
  · rw [h, Function.update_self, Function.update_self]
  · rw [Function.update_of_ne h, Function.update_of_ne h]

theorem awaits_update {t : Nat} {v : Option Conn} (h : s'.conn = Function.update s.conn t v) :
    s'.awaits = Function.update s.awaits t (v.any (·.stage.withAcceptor)) := by
  show (fun t' => (s'.conn t').any _) = _
  rw [h]
  exact any_update _ _ _ _

theorem links_update {t : Nat} {v : Option Conn} (h : s'.conn = Function.update s.conn t v) :
    s'.links = Function.update s.links t (v.any (·.stage.linked)) := by
  show (fun t' => (s'.conn t').any _) = _
  rw [h]
  exact any_update _ _ _ _

theorem awaits_of_conn {t : Nat} {c : Conn} (h : s.conn t = some c) :
    s.awaits t = c.stage.withAcceptor := by
  rw [awaits, h, Option.any_some]

theorem links_of_conn {t : Nat} {c : Conn} (h : s.conn t = some c) :
    s.links t = c.stage.linked := by
  rw [links, h, Option.any_some]

theorem Handed.lt_accepted (h : Handed s) {t : Nat} {c : Conn} (hc : s.conn t = some c) :
    t < s.accepted := by
  by_contra hle
  rw [h.fresh t (not_lt.mp hle)] at hc
  cases hc

/-- The connection of an acceptor is there. -/
theorem Handed.conn_of_busy (h : Handed s) {i : Fin n} {t : Nat} (hi : s.acceptor i = .busy t) :
    ∃ c, s.conn t = some c ∧ c.stage.withAcceptor = true :=
  (Option.any_eq_true _ _).mp ((h.busy_iff t).mpr ⟨i, hi⟩)

/-- Neither the acceptors nor the list see the step. -/
theorem Handed.congr (h : Handed s) (hacceptor : s'.acceptor = s.acceptor)
    (hworkers : s'.workers = s.workers) (hcount : s'.nworkers = s.nworkers)
    (haccepted : s'.accepted = s.accepted) (hawaits : s'.awaits = s.awaits)
    (hlinks : s'.links = s.links) (hconn : ∀ t, s.conn t = none → s'.conn t = none) :
    Handed s' where
  busy_iff := by rw [hawaits, hacceptor]; exact h.busy_iff
  busy_inj := by rw [hacceptor]; exact h.busy_inj
  linked_iff := by rw [hworkers, hlinks]; exact h.linked_iff
  nodup := by rw [hworkers]; exact h.nodup
  count := by rw [hcount, hworkers]; exact h.count
  bound := by rw [hcount]; exact h.bound
  fresh t ht := hconn t (h.fresh t (haccepted ▸ ht))

/-- A connection goes to a stage in which it has the same acceptor and place in the list. -/
theorem Handed.goesOn (h : Handed s) {t : Nat} {c c' : Conn} (hc : s.conn t = some c)
    (hconn : s'.conn = Function.update s.conn t (some c')) (hacceptor : s'.acceptor = s.acceptor)
    (hworkers : s'.workers = s.workers) (hcount : s'.nworkers = s.nworkers)
    (haccepted : s'.accepted = s.accepted)
    (hawaits : c'.stage.withAcceptor = c.stage.withAcceptor)
    (hlinks : c'.stage.linked = c.stage.linked) : Handed s' := by
  refine h.congr hacceptor hworkers hcount haccepted ?_ ?_ fun t' ht' => ?_
  · rw [awaits_update hconn, Option.any_some, hawaits, ← awaits_of_conn hc,
      Function.update_eq_self]
  · rw [links_update hconn, Option.any_some, hlinks, ← links_of_conn hc, Function.update_eq_self]
  · have hne : t' ≠ t := by
      rintro rfl
      rw [hc] at ht'
      cases ht'
    rw [hconn, Function.update_of_ne hne, ht']

/-- An acceptor is done with its connection. -/
theorem Handed.leaves (h : Handed s) {i : Fin n} {t : Nat} {a : Acceptor} {v : Option Conn}
    (hi : s.acceptor i = .busy t) (ha : a.isBusy = false)
    (hconn : s'.conn = Function.update s.conn t v)
    (hv : v.any (·.stage.withAcceptor) = false)
    (hlinks : v.any (·.stage.linked) = s.links t)
    (hacceptor : s'.acceptor = Function.update s.acceptor i a)
    (hworkers : s'.workers = s.workers) (hcount : s'.nworkers = s.nworkers)
    (haccepted : s'.accepted = s.accepted) : Handed s' := by
  obtain ⟨c, hc, -⟩ := h.conn_of_busy hi
  -- the acceptor lets go of its thread, and no other one had it
  have hbusy : ∀ j t', s'.acceptor j = .busy t' ↔ j ≠ i ∧ s.acceptor j = .busy t' := by
    intro j t'
    rw [hacceptor]
    by_cases hj : j = i
    · subst hj
      rw [Function.update_self]
      exact iff_of_false (by rintro rfl; cases ha) fun hno => hno.1 rfl
    · rw [Function.update_of_ne hj, and_iff_right hj]
  constructor
  · intro t'
    rw [awaits_update hconn, hv]
    by_cases ht : t' = t
    · subst ht
      rw [Function.update_self]
      refine iff_of_false nofun ?_
      rintro ⟨j, hj⟩
      obtain ⟨hne, hj⟩ := (hbusy j t').mp hj
      exact hne (h.busy_inj j i t' hj hi)
    · rw [Function.update_of_ne ht, h.busy_iff]
      refine exists_congr fun j => ?_
      rw [hbusy, and_iff_right_of_imp]
      rintro hj rfl
      exact ht (Acceptor.busy.inj (hj.symm.trans hi))
  · intro j k t' hj hk
    exact h.busy_inj j k t' ((hbusy j t').mp hj).2 ((hbusy k t').mp hk).2
  · rw [links_update hconn, hlinks, Function.update_eq_self, hworkers]
    exact h.linked_iff
  · rw [hworkers]
    exact h.nodup
  · rw [hcount, hworkers]
    exact h.count
  · rw [hcount]
    exact h.bound
  · intro t' ht'
    rw [haccepted] at ht'
    have hlt := h.lt_accepted hc
    rw [hconn, Function.update_of_ne (by omega), h.fresh t' ht']

/-- A context is taken from the list. -/
theorem Handed.unlinks (h : Handed s) {t : Nat} {c : Conn} {v : Option Conn}
    (hc : s.conn t = some c) (hlinked : c.stage.linked = true)
    (hconn : s'.conn = Function.update s.conn t v)
    (hawaits : v.any (·.stage.withAcceptor) = c.stage.withAcceptor)
    (hlinks : v.any (·.stage.linked) = false) (hacceptor : s'.acceptor = s.acceptor)
    (hworkers : s'.workers = s.workers.erase t) (hcount : s'.nworkers + 1 = s.nworkers)
    (haccepted : s'.accepted = s.accepted) : Handed s' := by
  have hmem : t ∈ s.workers := (h.linked_iff t).mpr (by rw [links_of_conn hc, hlinked])
  constructor
  · rw [awaits_update hconn, hawaits, ← awaits_of_conn hc, Function.update_eq_self, hacceptor]
    exact h.busy_iff
  · rw [hacceptor]
    exact h.busy_inj
  · intro t'
    rw [hworkers, links_update hconn, hlinks, h.nodup.mem_erase_iff, h.linked_iff]
    by_cases ht : t' = t
    · rw [ht, Function.update_self]
      exact iff_of_false (fun hno => hno.1 rfl) nofun
    · rw [Function.update_of_ne ht, and_iff_right ht]
  · rw [hworkers]
    exact h.nodup.erase t
  · have hlen := List.length_erase_of_mem hmem
    have hold := h.count
    rw [hworkers]
    omega
  · have hold := h.bound
    omega
  · intro t' ht'
    rw [haccepted] at ht'
    have hlt := h.lt_accepted hc
    rw [hconn, Function.update_of_ne (by omega), h.fresh t' ht']

theorem Handed.registers (h : Handed s) {t : Nat} {c : Conn} (hc : s.conn t = some c)
    (hstage : c.stage = .holding) (hfew : s.nworkers < maxWorkers) :
    Handed (s.link t c) := by
  have hconn : (s.setStage t c .registered).conn =
      Function.update s.conn t (some { c with stage := .registered }) := rfl
  have hnot : t ∉ s.workers := by
    rw [h.linked_iff, links_of_conn hc, hstage]
    nofun
  constructor
  · intro t'
    refine Iff.trans ?_ (h.busy_iff t')
    show (s.setStage t c .registered).awaits t' = true ↔ _
    rw [awaits_update hconn, Option.any_some, show ConnStage.registered.withAcceptor = s.awaits t by
      rw [awaits_of_conn hc, hstage]; rfl, Function.update_eq_self]
  · exact h.busy_inj
  · intro t'
    show t' ∈ t :: s.workers ↔ (s.setStage t c .registered).links t' = true
    rw [links_update hconn, Option.any_some, List.mem_cons, h.linked_iff]
    by_cases ht : t' = t
    · rw [ht, Function.update_self]
      exact iff_of_true (.inl rfl) rfl
    · rw [Function.update_of_ne ht, or_iff_right ht]
  · exact List.nodup_cons.mpr ⟨hnot, h.nodup⟩
  · show s.nworkers + 1 = (t :: s.workers).length
    rw [h.count, List.length_cons]
  · exact hfew
  · intro t' ht'
    have hlt := h.lt_accepted hc
    have hle : s.accepted ≤ t' := ht'
    show Function.update s.conn t _ t' = none
    rw [Function.update_of_ne (by omega), h.fresh t' hle]

theorem Handed.accept (h : Handed s) {i : Fin n} {fd : Nat}
    (hi : s.acceptor i = .accepting) :
    Handed (s.takeConn i fd) := by
  -- the new thread's number was never used, so nobody waits for it and nothing links it
  have hnone := h.fresh s.accepted le_rfl
  have hfree : ∀ j, s.acceptor j ≠ .busy s.accepted := by
    intro j hj
    obtain ⟨c, hc, -⟩ := h.conn_of_busy hj
    rw [hnone] at hc
    cases hc
  have hbusy : ∀ j t, Function.update s.acceptor i (.busy s.accepted) j = .busy t ↔
      (j = i ∧ t = s.accepted) ∨ s.acceptor j = .busy t := by
    intro j t
    by_cases hj : j = i
    · subst hj
      rw [Function.update_self, Acceptor.busy.injEq, hi]
      simp [eq_comm]
    · rw [Function.update_of_ne hj]
      simp [hj]
  have hconn : (s.takeConn i fd).conn =
      Function.update s.conn s.accepted (some ⟨fd, .accepted⟩) := rfl
  have hacceptor : (s.takeConn i fd).acceptor =
      Function.update s.acceptor i (.busy s.accepted) := rfl
  constructor
  · intro t
    simp only [awaits_update hconn, hacceptor, hbusy]
    by_cases ht : t = s.accepted
    · rw [ht, Function.update_self]
      exact iff_of_true rfl ⟨i, .inl ⟨rfl, rfl⟩⟩
    · rw [Function.update_of_ne ht, h.busy_iff]
      simp [ht]
  · intro j k t hj hk
    rw [hacceptor, hbusy] at hj hk
    rcases hj with ⟨rfl, rfl⟩ | hj
    · exact hk.elim (fun hk => hk.1.symm) fun hk => absurd hk (hfree k)
    · rcases hk with ⟨rfl, rfl⟩ | hk
      · exact absurd hj (hfree j)
      · exact h.busy_inj j k t hj hk
  · intro t
    rw [links_update hconn, show (s.takeConn i fd).workers = s.workers from rfl, h.linked_iff]
    by_cases ht : t = s.accepted
    · rw [ht, Function.update_self, links, hnone]
      rfl
    · rw [Function.update_of_ne ht]
  · exact h.nodup
  · exact h.count
  · exact h.bound
  · intro t ht
    have hle : s.accepted + 1 ≤ t := ht
    rw [hconn, Function.update_of_ne (by omega), h.fresh t (by omega)]

/-- The descriptors are closed, and nothing else changes. -/
theorem foldl_closeFd {fds : List Nat} (hfds : fds.Nodup) (s : HttpServer n) :
    fds.foldl closeFd s =
      { s with
        owner := fun fd => if fd ∈ fds then .free else s.owner fd
        closes := (fds.map s.owner).reverse ++ s.closes } := by
  induction fds generalizing s with
  | nil => simp
  | cons fd fds ih =>
    obtain ⟨hnot, hfds⟩ := List.nodup_cons.mp hfds
    have hmap : fds.map (Function.update s.owner fd .free) = fds.map s.owner :=
      List.map_congr_left fun x hx => Function.update_of_ne (by rintro rfl; exact hnot hx) _ _
    rw [List.foldl_cons, ih hfds, closeFd, List.map_cons, List.reverse_cons, List.append_assoc]
    simp only [hmap, List.singleton_append]
    congr 1
    funext x
    by_cases hx : x = fd
    · rw [hx, Function.update_self, if_neg hnot, if_pos List.mem_cons_self]
    · simp only [Function.update_of_ne hx, List.mem_cons, hx, false_or]

theorem closeListeners_eq (hinj : Function.Injective s.listenFd) :
    s.closeListeners =
      { s with
        owner := fun fd => if fd ∈ List.ofFn s.listenFd then .free else s.owner fd
        closes := ((List.ofFn s.listenFd).map s.owner).reverse ++ s.closes
        stop := .joining 0 } := by
  rw [closeListeners, foldl_closeFd (List.nodup_ofFn.mpr hinj)]

theorem handed_change {b : Bool} (hinj : Listening s → Function.Injective s.listenFd)
    (h : Handed s) (hstep : Change s b s') : Handed s' := by
  cases hstep with
  | @acceptor i a hfound hundone ha hleft =>
    -- an acceptor between connections was not busy and is not busy afterwards
    have hbusy : ∀ j t, (s.setAcceptor i a).acceptor j = .busy t ↔ s.acceptor j = .busy t := by
      intro j t
      show Function.update s.acceptor i a j = _ ↔ _
      by_cases hj : j = i
      · subst hj
        rw [Function.update_self]
        exact iff_of_false (by rintro rfl; cases ha) fun hno => by rw [hno] at hfound; cases hfound
      · rw [Function.update_of_ne hj]
    constructor
    · simp only [hbusy]
      exact h.busy_iff
    · simp only [hbusy]
      exact h.busy_inj
    · exact h.linked_iff
    · exact h.nodup
    · exact h.count
    · exact h.bound
    · exact h.fresh
  | accept hfound hfd => exact h.accept hfound
  | goesOn hfound hacceptor hlinked =>
    exact h.goesOn hfound rfl rfl rfl rfl rfl hacceptor hlinked
  | registers hfound hstage hrunning hfew => exact h.registers hfound hstage hfew
  | handsOver hi hfound hstage =>
    exact h.leaves hi rfl rfl rfl (by rw [links_of_conn hfound, hstage]; rfl) rfl rfl rfl rfl
  | @unregisters t c hfound hstage =>
    -- the entry comes off the list again, and the count with it
    refine h.unlinks hfound (by rw [hstage]; rfl) rfl (by rw [hstage]; rfl) rfl rfl rfl ?_ rfl
    have hpos : 0 < s.workers.length := List.length_pos_of_mem
      ((h.linked_iff t).mpr (by rw [links_of_conn hfound, hstage]; rfl))
    have hcount := h.count
    show sizePred s.nworkers + 1 = s.nworkers
    rw [sizePred, if_pos (by omega)]
    omega
  | drops hi hfound hacceptor hlinked ha =>
    -- the descriptor is closed before it was on the list
    refine h.leaves hi ?_ rfl rfl ?_ rfl rfl rfl rfl
    · rcases ha with rfl | rfl <;> rfl
    · rw [links_of_conn hfound, hlinked]
      rfl
  | closes hfound hstage =>
    exact h.goesOn hfound rfl rfl rfl rfl rfl (by rw [hstage]; rfl) (by rw [hstage]; rfl)
  | @unlinks t c hfound hstage =>
    -- the worker takes itself off the list, so the count is above zero
    refine h.unlinks hfound (by rw [hstage]; rfl) rfl (by rw [hstage]; rfl) rfl rfl rfl ?_ rfl
    have hpos : 0 < s.workers.length := List.length_pos_of_mem
      ((h.linked_iff t).mpr (by rw [links_of_conn hfound, hstage]; rfl))
    have hcount := h.count
    show (if 0 < s.nworkers then s.nworkers - 1 else s.nworkers) + 1 = s.nworkers
    split <;> omega
  | closeListeners hstop =>
    rw [closeListeners_eq (hinj (.inr hstop))]
    exact h.congr rfl rfl rfl rfl rfl rfl fun _ ht => ht
  | flag hstop | joins hstop hk hdone | frees hstop hnone | otherOpens hfd | otherCloses hfd =>
    exact h.congr rfl rfl rfl rfl rfl rfl fun _ ht => ht

/-! ## The descriptors -/

/-- The descriptor of a connection that is not closed. -/
def heldFd (s : HttpServer n) (t : Nat) : Option Nat :=
  ((s.conn t).filter (·.stage ≠ .closed)).map (·.fd)

/-- Whose the descriptors are, and what was closed. -/
structure Owned (s : HttpServer n) : Prop where
  conn_iff : ∀ fd t, s.owner fd = .conn t ↔ s.heldFd t = some fd
  listener_iff : ∀ fd i, s.owner fd = .listener i ↔ Listening s ∧ s.listenFd i = fd
  closes_nodup : s.closes.Nodup
  closes_conn : ∀ t, .conn t ∈ s.closes ↔ t < s.accepted ∧ s.heldFd t = none
  closes_listener : ∀ i, .listener i ∈ s.closes ↔ ¬ Listening s
  closes_free : .free ∉ s.closes
  closes_other : .other ∉ s.closes

theorem heldFd_update {t : Nat} {v : Option Conn} (h : s'.conn = Function.update s.conn t v) :
    s'.heldFd = Function.update s.heldFd t ((v.filter (·.stage ≠ .closed)).map (·.fd)) := by
  funext t'
  rw [heldFd, h]
  by_cases ht : t' = t
  · rw [ht, Function.update_self, Function.update_self]
  · rw [Function.update_of_ne ht, Function.update_of_ne ht, heldFd]

theorem heldFd_of_open {t : Nat} {c : Conn} (h : s.conn t = some c) (hopen : c.stage ≠ .closed) :
    s.heldFd t = some c.fd := by
  rw [heldFd, h, Option.filter_some, if_pos (decide_eq_true hopen)]
  rfl

/-- An open connection goes to another stage in which it is open. -/
theorem heldFd_setStage {t : Nat} {c : Conn} {stage : ConnStage} (hc : s.conn t = some c)
    (hopen : c.stage ≠ .closed) (hopen' : stage ≠ .closed)
    (h : s'.conn = Function.update s.conn t (some { c with stage })) : s'.heldFd = s.heldFd := by
  rw [heldFd_update h, Option.filter_some, if_pos (decide_eq_true hopen'), Option.map_some,
    ← heldFd_of_open hc hopen, Function.update_eq_self]

theorem Owned.injective (h : Owned s) (hl : Listening s) : Function.Injective s.listenFd := by
  intro i j hij
  have hi := (h.listener_iff _ i).mpr ⟨hl, rfl⟩
  have hj := (h.listener_iff _ j).mpr ⟨hl, rfl⟩
  rw [hij, hj] at hi
  exact (Owner.listener.inj hi).symm

theorem Owned.congr (h : Owned s) (hheld : s'.heldFd = s.heldFd) (howner : s'.owner = s.owner)
    (hcloses : s'.closes = s.closes) (haccepted : s'.accepted = s.accepted)
    (hlisten : s'.listenFd = s.listenFd) (hl : Listening s' ↔ Listening s) : Owned s' where
  conn_iff := by rw [hheld, howner]; exact h.conn_iff
  listener_iff := by rw [howner, hlisten, hl]; exact h.listener_iff
  closes_nodup := by rw [hcloses]; exact h.closes_nodup
  closes_conn := by rw [hcloses, haccepted, hheld]; exact h.closes_conn
  closes_listener := by rw [hcloses, hl]; exact h.closes_listener
  closes_free := by rw [hcloses]; exact h.closes_free
  closes_other := by rw [hcloses]; exact h.closes_other

/-- A connection is closed. -/
theorem Owned.closeConn (h : Owned s) {t : Nat} {c : Conn} {v : Option Conn}
    (hc : s.conn t = some c) (hopen : c.stage ≠ .closed) (hlt : t < s.accepted)
    (hconn : s'.conn = Function.update s.conn t v)
    (hv : v.filter (·.stage ≠ .closed) = none)
    (howner : s'.owner = Function.update s.owner c.fd .free)
    (hcloses : s'.closes = s.owner c.fd :: s.closes) (haccepted : s'.accepted = s.accepted)
    (hlisten : s'.listenFd = s.listenFd) (hstop : s'.stop = s.stop) : Owned s' := by
  have hheld := heldFd_of_open hc hopen
  -- the descriptor is the connection's own, so the one that is closed
  have hmine := (h.conn_iff c.fd t).mpr hheld
  have hheld' : s'.heldFd = Function.update s.heldFd t none := by
    rw [heldFd_update hconn, hv]
    rfl
  have hl : Listening s' ↔ Listening s := by rw [Listening, Listening, hstop]
  rw [hmine] at hcloses
  constructor
  · intro fd t'
    rw [howner, hheld']
    by_cases hfd : fd = c.fd
    · subst hfd
      rw [Function.update_self]
      refine iff_of_false nofun fun hno => ?_
      by_cases ht : t' = t
      · rw [ht, Function.update_self] at hno
        cases hno
      · rw [Function.update_of_ne ht, ← h.conn_iff, hmine] at hno
        exact ht (Owner.conn.inj hno).symm
    · rw [Function.update_of_ne hfd, h.conn_iff]
      by_cases ht : t' = t
      · rw [ht, Function.update_self, hheld]
        exact iff_of_false (fun hno => hfd (Option.some.inj hno).symm) nofun
      · rw [Function.update_of_ne ht]
  · intro fd i
    rw [howner, hlisten, hl, ← h.listener_iff]
    by_cases hfd : fd = c.fd
    · rw [hfd, Function.update_self, hmine]
      exact iff_of_false nofun nofun
    · rw [Function.update_of_ne hfd]
  · rw [hcloses, List.nodup_cons, h.closes_conn, hheld]
    exact ⟨fun hno => (nomatch hno.2), h.closes_nodup⟩
  -- it is closed once: before this step the connection held it, and now it holds none
  · intro t'
    rw [hcloses, haccepted, hheld', List.mem_cons, h.closes_conn, Owner.conn.injEq]
    by_cases ht : t' = t
    · rw [ht, Function.update_self]
      exact iff_of_true (.inl rfl) ⟨hlt, rfl⟩
    · rw [Function.update_of_ne ht, or_iff_right ht]
  · intro i
    rw [hcloses, hl, ← h.closes_listener i, List.mem_cons]
    exact or_iff_right nofun
  · rw [hcloses, List.mem_cons]
    exact fun hno => hno.elim nofun h.closes_free
  · rw [hcloses, List.mem_cons]
    exact fun hno => hno.elim nofun h.closes_other

/-- Another part of the process takes a free descriptor, or gives back its own. -/
theorem Owned.others (h : Owned s) {fd : Nat} {o : Owner n}
    (hfd : s.owner fd = .free ∨ s.owner fd = .other) (ho : o = .free ∨ o = .other) :
    Owned { s with owner := Function.update s.owner fd o } := by
  have hsame : ∀ (x : Owner n), x ≠ .free → x ≠ .other → ∀ fd',
      Function.update s.owner fd o fd' = x ↔ s.owner fd' = x := by
    intro x hfree hother fd'
    by_cases hne : fd' = fd
    · rw [hne, Function.update_self]
      refine iff_of_false ?_ ?_
      · rcases ho with rfl | rfl
        exacts [hfree.symm, hother.symm]
      · rcases hfd with hfd | hfd <;> rw [hfd]
        exacts [hfree.symm, hother.symm]
    · rw [Function.update_of_ne hne]
  constructor
  · exact fun fd' t => (hsame (.conn t) nofun nofun fd').trans (h.conn_iff fd' t)
  · exact fun fd' i => (hsame (.listener i) nofun nofun fd').trans (h.listener_iff fd' i)
  · exact h.closes_nodup
  · exact h.closes_conn
  · exact h.closes_listener
  · exact h.closes_free
  · exact h.closes_other

theorem Owned.accept (h : Owned s) (hfresh : s.conn s.accepted = none) {i : Fin n} {fd : Nat}
    (hfd : s.owner fd = .free) :
    Owned (s.takeConn i fd) := by
  -- a number that was free belongs to nobody, so no other owner changes
  have hnone : s.heldFd s.accepted = none := by rw [heldFd, hfresh]; rfl
  have hheld' : (s.takeConn i fd).heldFd = Function.update s.heldFd s.accepted (some fd) := by
    have hconn : (s.takeConn i fd).conn =
        Function.update s.conn s.accepted (some ⟨fd, .accepted⟩) := rfl
    rw [heldFd_update hconn]
    rfl
  have howner : (s.takeConn i fd).owner = Function.update s.owner fd (.conn s.accepted) := rfl
  have hcloses : (s.takeConn i fd).closes = s.closes := rfl
  have hl : Listening (s.takeConn i fd) ↔ Listening s := Iff.rfl
  constructor
  · intro fd' t
    rw [howner, hheld']
    by_cases hne : fd' = fd
    · subst hne
      rw [Function.update_self, Owner.conn.injEq]
      by_cases ht : t = s.accepted
      · rw [ht, Function.update_self]
        exact iff_of_true rfl rfl
      · rw [Function.update_of_ne ht, ← h.conn_iff, hfd]
        exact iff_of_false (Ne.symm ht) nofun
    · rw [Function.update_of_ne hne, h.conn_iff]
      by_cases ht : t = s.accepted
      · rw [ht, Function.update_self, hnone]
        exact iff_of_false nofun fun hno => hne (Option.some.inj hno).symm
      · rw [Function.update_of_ne ht]
  · intro fd' j
    have hlisten : (s.takeConn i fd).listenFd = s.listenFd := rfl
    rw [howner, hlisten, hl, ← h.listener_iff]
    by_cases hne : fd' = fd
    · rw [hne, Function.update_self, hfd]
      exact iff_of_false nofun nofun
    · rw [Function.update_of_ne hne]
  · rw [hcloses]
    exact h.closes_nodup
  · intro t
    have haccepted : (s.takeConn i fd).accepted = s.accepted + 1 := rfl
    rw [hcloses, haccepted, hheld', h.closes_conn]
    by_cases ht : t = s.accepted
    · rw [ht, Function.update_self]
      exact iff_of_false (fun hno => absurd hno.1 (lt_irrefl _)) nofun
    · rw [Function.update_of_ne ht]
      exact and_congr_left fun _ => by omega
  · rw [hcloses, hl]
    exact h.closes_listener
  · rw [hcloses]
    exact h.closes_free
  · rw [hcloses]
    exact h.closes_other

theorem Owned.closeListeners (h : Owned s) (hstop : s.stop = .flagged) :
    Owned s.closeListeners := by
  have hl : Listening s := .inr hstop
  have hmine : ∀ i, s.owner (s.listenFd i) = .listener i := fun i =>
    (h.listener_iff _ i).mpr ⟨hl, rfl⟩
  have hmap : (List.ofFn s.listenFd).map s.owner = List.ofFn Owner.listener := by
    rw [List.map_ofFn]
    exact congrArg _ (funext hmine)
  rw [closeListeners_eq (h.injective hl), hmap]
  have hnot : ¬ Listening ({ s with
      owner := fun fd => if fd ∈ List.ofFn s.listenFd then .free else s.owner fd
      closes := (List.ofFn Owner.listener).reverse ++ s.closes
      stop := .joining 0 } : HttpServer n) := by
    rintro (hno | hno) <;> cases hno
  constructor
  · intro fd t
    refine Iff.trans ?_ (h.conn_iff fd t)
    show (if fd ∈ List.ofFn s.listenFd then _ else s.owner fd) = _ ↔ _
    split
    · next hmem =>
      obtain ⟨i, rfl⟩ := List.mem_ofFn.mp hmem
      rw [hmine]
      exact iff_of_false nofun nofun
    · rfl
  · intro fd i
    refine iff_of_false ?_ fun hno => hnot hno.1
    show (if fd ∈ List.ofFn s.listenFd then _ else s.owner fd) ≠ _
    split
    · nofun
    · next hmem =>
      intro hno
      exact hmem (List.mem_ofFn.mpr ⟨i, ((h.listener_iff fd i).mp hno).2⟩)
  · refine List.nodup_append.mpr ⟨List.nodup_reverse.mpr (List.nodup_ofFn.mpr fun i j hij =>
      Owner.listener.inj hij), h.closes_nodup, ?_⟩
    rintro o ho o' ho' rfl
    obtain ⟨i, rfl⟩ := List.mem_ofFn.mp (List.mem_reverse.mp ho)
    exact (h.closes_listener i).mp ho' hl
  · intro t
    show _ ∈ (List.ofFn Owner.listener).reverse ++ s.closes ↔ _
    rw [List.mem_append, List.mem_reverse, List.mem_ofFn]
    exact (or_iff_right (by rintro ⟨i, hi⟩; cases hi)).trans (h.closes_conn t)
  · intro i
    refine iff_of_true ?_ hnot
    exact List.mem_append_left _ (List.mem_reverse.mpr (List.mem_ofFn.mpr ⟨i, rfl⟩))
  · rw [List.mem_append, List.mem_reverse, List.mem_ofFn]
    rintro (⟨i, hi⟩ | hno)
    · cases hi
    · exact h.closes_free hno
  · rw [List.mem_append, List.mem_reverse, List.mem_ofFn]
    rintro (⟨i, hi⟩ | hno)
    · cases hi
    · exact h.closes_other hno

theorem owned_change {b : Bool} (hh : Handed s) (h : Owned s) (hstep : Change s b s') :
    Owned s' := by
  cases hstep with
  | acceptor | frees hstop | joins hstop =>
    refine h.congr rfl rfl rfl rfl rfl ?_
    first
    | rfl
    | simp [Listening, hstop]
  | accept hfound hfd => exact h.accept (hh.fresh _ le_rfl) hfd
  | goesOn hfound hacceptor hlinked hopen hopen' =>
    exact h.congr (heldFd_setStage hfound hopen hopen' rfl) rfl rfl rfl rfl Iff.rfl
  | registers hfound hstage | handsOver hi hfound hstage | unregisters hfound hstage =>
    exact h.congr (heldFd_setStage hfound (by rw [hstage]; nofun) (by nofun) rfl) rfl rfl rfl rfl
      Iff.rfl
  | drops hi hfound hacceptor hlinked ha =>
    refine h.closeConn hfound ?_ (hh.lt_accepted hfound) rfl rfl rfl rfl rfl rfl rfl
    intro hno
    rw [hno] at hacceptor
    cases hacceptor
  | closes hfound hstage =>
    exact h.closeConn hfound (by rw [hstage]; nofun) (hh.lt_accepted hfound) rfl rfl rfl rfl rfl
      rfl rfl
  | @unlinks t c hfound hstage =>
    refine h.congr ?_ rfl rfl rfl rfl Iff.rfl
    have hnone : s.heldFd t = none := by
      rw [heldFd, hfound, Option.filter_some, hstage]
      rfl
    have hconn : (s.unlink t).conn = Function.update s.conn t none := rfl
    rw [heldFd_update hconn, Option.filter_none, Option.map_none, ← hnone,
      Function.update_eq_self]
  | flag hstop => exact h.congr rfl rfl rfl rfl rfl (iff_of_true (.inr rfl) (.inl hstop))
  | closeListeners hstop => exact h.closeListeners hstop
  | otherOpens hfd => exact h.others (.inl hfd) (.inr rfl)
  | otherCloses hfd => exact h.others (.inr hfd) (.inl rfl)

/-! ## The stop -/

/-- How far the stop has come. -/
structure Phased (s : HttpServer n) : Prop where
  running_iff : s.running = true ↔ s.stop = .idle
  joined : ∀ k, s.stop = .joining k → k ≤ n ∧ ∀ i : Fin n, i < k → s.acceptor i = .done
  freed : s.stop = .freed → (∀ i, s.acceptor i = .done) ∧ s.workers = []

/-- The invariant. -/
structure Kept (s : HttpServer n) : Prop where
  handed : Handed s
  owned : Owned s
  phased : Phased s

/-- Where no acceptor has a connection and none is linked there is none. -/
theorem Handed.conn_eq_none (h : Handed s) (hdone : ∀ i, s.acceptor i = .done)
    (hworkers : s.workers = []) (t : Nat) : s.conn t = none := by
  by_contra hne
  obtain ⟨c, hc⟩ := Option.ne_none_iff_exists'.mp hne
  rcases c.stage.withAcceptor_or_linked with hstage | hstage
  · rw [← awaits_of_conn hc, h.busy_iff] at hstage
    obtain ⟨i, hi⟩ := hstage
    rw [hdone i] at hi
    cases hi
  · rw [← links_of_conn hc, ← h.linked_iff, hworkers] at hstage
    cases hstage

/-- Once the server is freed its threads are gone. -/
theorem Kept.no_change (h : Kept s) (hfreed : s.stop = .freed) : ¬ Change s true s' := by
  obtain ⟨hdone, hworkers⟩ := h.phased.freed hfreed
  have hnone := h.handed.conn_eq_none hdone hworkers
  intro hstep
  cases hstep with
  | acceptor hfound hundone => exact hundone (hdone _)
  | accept hfound =>
    rw [hdone] at hfound
    cases hfound
  | goesOn hfound | registers hfound | unregisters hfound | closes hfound | unlinks hfound =>
    rw [hnone] at hfound
    cases hfound
  | handsOver hi | drops hi =>
    rw [hdone] at hi
    cases hi
  | flag hstop | closeListeners hstop | joins hstop | frees hstop =>
    rw [hfreed] at hstop
    cases hstop

/-- Acceptors that are done stay so. -/
theorem Phased.congr (h : Phased s) (hrunning : s'.running = s.running)
    (hstop : s'.stop = s.stop) (hnot : s.stop ≠ .freed)
    (hdone : ∀ i, s.acceptor i = .done → s'.acceptor i = .done) : Phased s' where
  running_iff := by rw [hrunning, hstop]; exact h.running_iff
  joined k hk := by
    obtain ⟨hle, hall⟩ := h.joined k (hstop ▸ hk)
    exact ⟨hle, fun i hi => hdone i (hall i hi)⟩
  freed hfreed := absurd (hstop ▸ hfreed) hnot

theorem done_setAcceptor {i : Fin n} {a : Acceptor} (hi : s.acceptor i ≠ .done) :
    ∀ j, s.acceptor j = .done → Function.update s.acceptor i a j = .done := by
  intro j hj
  rw [Function.update_of_ne (by rintro rfl; exact hi hj), hj]

theorem phased_change (h : Kept s) (hstep : Change s true s') : Phased s' := by
  have hnot : s.stop ≠ .freed := fun hfreed => h.no_change hfreed hstep
  have hp := h.phased
  cases hstep with
  | acceptor hfound hundone => exact hp.congr rfl rfl hnot (done_setAcceptor hundone)
  | accept hfound => exact hp.congr rfl rfl hnot (done_setAcceptor (by rw [hfound]; nofun))
  | handsOver hi | drops hi =>
    exact hp.congr rfl rfl hnot (done_setAcceptor (by rw [hi]; nofun))
  | goesOn | registers | unregisters | closes | unlinks =>
    exact hp.congr rfl rfl hnot fun _ hj => hj
  | flag hstop =>
    -- nobody has joined anything yet
    constructor
    · exact iff_of_false nofun nofun
    · nofun
    · nofun
  | closeListeners hstop =>
    -- the stopper begins with the first acceptor
    rw [closeListeners_eq (h.owned.injective (.inr hstop))]
    constructor
    · refine iff_of_false (fun hr => ?_) nofun
      have hidle := hp.running_iff.mp hr
      rw [hstop] at hidle
      cases hidle
    · rintro k hk
      cases hk
      exact ⟨Nat.zero_le n, nofun⟩
    · nofun
  | @joins k hstop hk hdone =>
    -- one more acceptor is known to be done
    constructor
    · refine iff_of_false (fun hr => ?_) nofun
      have hidle := hp.running_iff.mp hr
      rw [hstop] at hidle
      cases hidle
    · rintro k' hk'
      cases hk'
      refine ⟨hk, fun i hi => ?_⟩
      rcases Nat.lt_succ_iff_lt_or_eq.mp hi with hlt | heq
      · exact (hp.joined k hstop).2 i hlt
      · rwa [show i = ⟨k, hk⟩ from Fin.ext heq]
    · nofun
  | frees hstop hnone =>
    -- all acceptors are joined, and the count says that no worker is left
    constructor
    · refine iff_of_false (fun hr => ?_) nofun
      have hidle := hp.running_iff.mp hr
      rw [hstop] at hidle
      cases hidle
    · nofun
    · intro _
      have hcount := h.handed.count
      rw [hnone] at hcount
      exact ⟨fun i => (hp.joined n hstop).2 i i.isLt, List.eq_nil_of_length_eq_zero hcount.symm⟩

/-- **Every step keeps the invariant.** -/
theorem kept_change {b : Bool} (h : Kept s) (hstep : Change s b s') : Kept s' := by
  refine ⟨handed_change h.owned.injective h.handed hstep, owned_change h.handed h.owned hstep, ?_⟩
  cases b with
  | true => exact phased_change h hstep
  | false =>
    have hp := h.phased
    cases hstep with
    | otherOpens | otherCloses => exact ⟨hp.running_iff, hp.joined, hp.freed⟩

/-- The server as `edb_http_start` and `edb_http_start_admin` leave it. -/
structure Started (s : HttpServer n) : Prop where
  running : s.running = true
  nworkers : s.nworkers = 0
  workers : s.workers = []
  acceptor : ∀ i, s.acceptor i = .check
  conn : ∀ t, s.conn t = none
  stop : s.stop = .idle
  closes : s.closes = []
  shutdowns : s.shutdowns = []
  accepted : s.accepted = 0
  listener_iff : ∀ fd i, s.owner fd = .listener i ↔ s.listenFd i = fd
  not_conn : ∀ fd t, s.owner fd ≠ .conn t

theorem Started.kept (h : Started s) : Kept s where
  handed := by
    constructor
    · intro t
      rw [awaits, h.conn]
      refine iff_of_false nofun ?_
      rintro ⟨i, hi⟩
      rw [h.acceptor] at hi
      cases hi
    · intro i j t hi
      rw [h.acceptor] at hi
      cases hi
    · intro t
      rw [h.workers, links, h.conn]
      exact iff_of_false nofun nofun
    · rw [h.workers]
      exact List.nodup_nil
    · rw [h.nworkers, h.workers]
      rfl
    · rw [h.nworkers]
      exact Nat.zero_le _
    · exact fun t _ => h.conn t
  owned := by
    have hl : Listening s := .inl h.stop
    constructor
    · intro fd t
      rw [heldFd, h.conn]
      exact iff_of_false (h.not_conn fd t) nofun
    · exact fun fd i => (h.listener_iff fd i).trans (and_iff_right hl).symm
    · rw [h.closes]
      exact List.nodup_nil
    · intro t
      rw [h.closes, h.accepted]
      exact iff_of_false nofun fun hno => absurd hno.1 (Nat.not_lt_zero t)
    · intro i
      rw [h.closes]
      exact iff_of_false nofun (not_not_intro hl)
    · rw [h.closes]
      nofun
    · rw [h.closes]
      nofun
  phased := by
    constructor
    · exact iff_of_true h.running h.stop
    · intro k hk
      rw [h.stop] at hk
      cases hk
    · intro hfreed
      rw [h.stop] at hfreed
      cases hfreed

theorem kept_step (h : Kept s) (hstep : step s l = some s') : Kept s' :=
  kept_change h (change_of_step hstep)

theorem kept_run {s₀ : HttpServer n} {ls : List (Label n)} (hs : s₀.Started)
    (hrun : Runs.run step s₀ ls = some s) : Kept s :=
  Runs.of_throughout (Runs.throughout_of_inv (fun _ _ _ h => kept_step h) hs.kept ls) hrun

/-- **The threads, the count and the descriptors.** Whatever the acceptors, the workers, the stop
and the rest of the process do in whatever order, the count is that of the list and within the
limit; every `close` hits a descriptor of the server, and none twice. Once the server is freed no
thread is left, every connection that was accepted is closed, and every listener. -/
theorem server_accounted {s₀ : HttpServer n} {ls : List (Label n)} (hs : s₀.Started)
    (hrun : Runs.run step s₀ ls = some s) :
    (s.nworkers = s.workers.length ∧ s.nworkers ≤ maxWorkers) ∧
      (s.closes.Nodup ∧ .free ∉ s.closes ∧ .other ∉ s.closes) ∧
      (s.stop = .freed →
        ((∀ i, s.acceptor i = .done) ∧ ∀ t, s.conn t = none) ∧
          (∀ t, .conn t ∈ s.closes ↔ t < s.accepted) ∧ (∀ i, .listener i ∈ s.closes) ∧
            ∀ fd, s.owner fd = .free ∨ s.owner fd = .other) := by
  have h := kept_run hs hrun
  refine ⟨⟨h.handed.count, h.handed.bound⟩,
    ⟨h.owned.closes_nodup, h.owned.closes_free, h.owned.closes_other⟩, fun hfreed => ?_⟩
  obtain ⟨hdone, hworkers⟩ := h.phased.freed hfreed
  have hnone := h.handed.conn_eq_none hdone hworkers
  have hheld : ∀ t, s.heldFd t = none := by
    intro t
    rw [heldFd, hnone]
    rfl
  have hl : ¬ Listening s := by
    rintro (hno | hno) <;> rw [hfreed] at hno <;> cases hno
  refine ⟨⟨hdone, hnone⟩, fun t => (h.owned.closes_conn t).trans (and_iff_left (hheld t)),
    fun i => (h.owned.closes_listener i).mpr hl, fun fd => ?_⟩
  cases howner : s.owner fd with
  | free => exact .inl rfl
  | other => exact .inr rfl
  | listener i => exact absurd ((h.owned.listener_iff fd i).mp howner).1 hl
  | conn t =>
    have hfd := (h.owned.conn_iff fd t).mp howner
    rw [hheld] at hfd
    cases hfd

/-! ## The stop returns -/

def connLeft : Option Conn → Nat
  | some c => c.stage.left
  | none => 0

/-- How many steps the stop itself has left. -/
def stopLeft (n : Nat) : Stopping → Nat
  | .idle => n + 3
  | .flagged => n + 2
  | .joining k => n + 1 - k
  | .freed => 0

/-- Steps the acceptors have left, and steps there are for the connections. -/
def acceptorsLeft (s : HttpServer n) : Nat := ∑ i, (s.acceptor i).left

def connsLeft (s : HttpServer n) : Nat := ∑ t ∈ Finset.range s.accepted, connLeft (s.conn t)

/-- How many steps the threads have left once the server stops. -/
def left (s : HttpServer n) : Nat := s.acceptorsLeft + s.connsLeft + stopLeft n s.stop

theorem sum_update {ι α : Type} [DecidableEq ι] (S : Finset ι) (g : ι → α) (w : α → Nat) {i : ι}
    (hi : i ∈ S) (v : α) :
    ∑ j ∈ S, w (Function.update g i v j) + w (g i) = ∑ j ∈ S, w (g j) + w v := by
  have hrest : ∑ j ∈ S.erase i, w (Function.update g i v j) = ∑ j ∈ S.erase i, w (g j) :=
    Finset.sum_congr rfl fun j hj => by rw [Function.update_of_ne (Finset.ne_of_mem_erase hj)]
  rw [← Finset.sum_erase_add S _ hi, ← Finset.sum_erase_add S (fun j => w (g j)) hi, hrest,
    Function.update_self]
  omega

theorem acceptorsLeft_update {i : Fin n} {a : Acceptor}
    (h : s'.acceptor = Function.update s.acceptor i a) :
    s'.acceptorsLeft + (s.acceptor i).left = s.acceptorsLeft + a.left := by
  rw [acceptorsLeft, h]
  exact sum_update _ _ Acceptor.left (Finset.mem_univ i) a

theorem connsLeft_update {t : Nat} {v : Option Conn} (ht : t < s.accepted)
    (h : s'.conn = Function.update s.conn t v) (haccepted : s'.accepted = s.accepted) :
    s'.connsLeft + connLeft (s.conn t) = s.connsLeft + connLeft v := by
  rw [connsLeft, h, haccepted]
  exact sum_update _ _ connLeft (Finset.mem_range.mpr ht) v

theorem connsLeft_takeConn {i : Fin n} {fd : Nat} :
    (s.takeConn i fd).connsLeft = s.connsLeft + 4 := by
  have hold : ∀ t ∈ Finset.range s.accepted, connLeft (Function.update s.conn s.accepted
      (some ⟨fd, .accepted⟩) t) = connLeft (s.conn t) := fun t ht => by
    rw [Function.update_of_ne (Finset.mem_range.mp ht).ne]
  have hconn : (s.takeConn i fd).conn s.accepted = some ⟨fd, .accepted⟩ := by
    show Function.update s.conn s.accepted _ s.accepted = _
    rw [Function.update_self]
  have hnew : connLeft ((s.takeConn i fd).conn s.accepted) = 4 := by
    rw [hconn]
    rfl
  show ∑ t ∈ Finset.range (s.accepted + 1), _ = _
  rw [Finset.sum_range_succ, hnew]
  exact congrArg (· + 4) (Finset.sum_congr rfl hold)

/-- The threads lose more than they get. -/
theorem left_lt {a a' c c' : Nat} (hacceptors : s'.acceptorsLeft + a = s.acceptorsLeft + a')
    (hconns : s'.connsLeft + c = s.connsLeft + c') (hstop : s'.stop = s.stop)
    (hlt : a' + c' < a + c) : s'.left < s.left := by
  rw [left, left, hstop]
  omega

/-- **Once the server stops** every step of a thread leaves fewer of them. -/
theorem left_change (h : Kept s) (hstop : s.stop ≠ .idle) (hstep : Change s true s') :
    s'.left < s.left := by
  have hrunning : s.running = false := by
    rw [← Bool.not_eq_true, h.phased.running_iff]
    exact hstop
  -- a connection goes from one stage to another, and no acceptor moves
  have hconn : ∀ {t c v} {s' : HttpServer n}, s.conn t = some c →
      s'.conn = Function.update s.conn t v → s'.acceptor = s.acceptor →
      s'.accepted = s.accepted → s'.stop = s.stop → connLeft v < c.stage.left →
      s'.left < s.left := by
    intro t c v s' hc hconn hacceptor haccepted hstop hlt
    have hconns := connsLeft_update (h.handed.lt_accepted hc) hconn haccepted
    rw [hc] at hconns
    have hacceptors : s'.acceptorsLeft + 0 = s.acceptorsLeft + 0 := by
      rw [acceptorsLeft, hacceptor]
      rfl
    refine left_lt hacceptors hconns hstop ?_
    rw [Nat.zero_add, Nat.zero_add]
    exact hlt
  -- an acceptor gets rid of its connection
  have hleaves : ∀ {i t c v a} {s' : HttpServer n}, s.acceptor i = .busy t → s.conn t = some c →
      s'.conn = Function.update s.conn t v → s'.acceptor = Function.update s.acceptor i a →
      s'.accepted = s.accepted → s'.stop = s.stop → a.left + connLeft v < c.stage.left →
      s'.left < s.left := by
    intro i t c v a s' hi hc hconn hacceptor haccepted hstop hlt
    have hconns := connsLeft_update (h.handed.lt_accepted hc) hconn haccepted
    have hacceptors := acceptorsLeft_update hacceptor
    rw [hc] at hconns
    rw [hi] at hacceptors
    refine left_lt hacceptors hconns hstop ?_
    rw [show (Acceptor.busy t).left = 0 from rfl, Nat.zero_add]
    exact hlt
  cases hstep with
  | @acceptor i a hfound hundone ha hleft =>
    have hacceptor : (s.setAcceptor i a).acceptor = Function.update s.acceptor i a := rfl
    have hacceptors := acceptorsLeft_update hacceptor
    have hconns : (s.setAcceptor i a).connsLeft + 0 = s.connsLeft + 0 := rfl
    exact left_lt hacceptors hconns rfl (hleft hrunning)
  | @accept i fd hfound hfd =>
    have hacceptor : (s.takeConn i fd).acceptor =
        Function.update s.acceptor i (.busy s.accepted) := rfl
    have hacceptors := acceptorsLeft_update hacceptor
    have hconns : (s.takeConn i fd).connsLeft + 0 = s.connsLeft + 4 := connsLeft_takeConn
    refine left_lt hacceptors hconns rfl ?_
    rw [hfound]
    exact (by decide : 4 < 5)
  | goesOn hfound hacceptor hlinked hopen hopen' hleft =>
    exact hconn hfound rfl rfl rfl rfl (hleft hrunning)
  | registers hfound hstage hr =>
    rw [hrunning] at hr
    cases hr
  | handsOver hi hfound hstage =>
    exact hleaves hi hfound rfl rfl rfl rfl (by rw [hstage]; exact (by decide : 4 < 5))
  | unregisters hfound hstage =>
    exact hconn hfound rfl rfl rfl rfl (by rw [hstage]; exact (by decide : 2 < 5))
  | drops hi hfound hacceptor hlinked ha =>
    refine hleaves hi hfound rfl rfl rfl rfl ((?_ : _ ≤ 1).trans_lt
      (ConnStage.one_lt_left hacceptor))
    rcases ha with rfl | rfl
    · exact le_rfl
    · exact zero_le_one
  | closes hfound hstage =>
    exact hconn hfound rfl rfl rfl rfl (by rw [hstage]; exact (by decide : 1 < 2))
  | unlinks hfound hstage =>
    exact hconn hfound rfl rfl rfl rfl (by rw [hstage]; decide)
  | flag hidle => exact absurd hidle hstop
  | closeListeners hflagged =>
    rw [closeListeners_eq (h.owned.injective (.inr hflagged))]
    show s.acceptorsLeft + s.connsLeft + stopLeft n (.joining 0) < s.left
    rw [left, hflagged, stopLeft, stopLeft]
    omega
  | @joins k hjoining hk =>
    show s.acceptorsLeft + s.connsLeft + stopLeft n (.joining (k + 1)) < s.left
    rw [left, hjoining, stopLeft, stopLeft]
    omega
  | frees hjoining =>
    show s.acceptorsLeft + s.connsLeft + stopLeft n .freed < s.left
    rw [left, hjoining, stopLeft, stopLeft]
    omega

/-- A server that stops goes on to stop, and the rest of the process has no part in it. -/
theorem stopping_step (h : Kept s) (hstop : s.stop ≠ .idle) (hstep : step s l = some s') :
    s'.stop ≠ .idle ∧ s'.left + (if l.ofServer then 1 else 0) ≤ s.left := by
  have hrunning : s.running = false := by
    rw [← Bool.not_eq_true, h.phased.running_iff]
    exact hstop
  have hchange := change_of_step hstep
  have hnot : s'.stop ≠ .idle := by
    generalize l.ofServer = b at hchange
    cases hchange with
    | acceptor | accept | goesOn | registers | handsOver | unregisters | drops | closes |
        unlinks | otherOpens | otherCloses => exact hstop
    | flag | joins | frees => nofun
    | closeListeners hflagged =>
      rw [closeListeners_eq (h.owned.injective (.inr hflagged))]
      nofun
  refine ⟨hnot, ?_⟩
  cases hl : l.ofServer with
  | true =>
    rw [hl] at hchange
    exact left_change h hstop hchange
  | false =>
    rw [hl] at hchange
    cases hchange with
    | otherOpens | otherCloses => exact le_rfl

/-- Some thread can go on until the server is freed. -/
theorem can_step (h : Kept s) (hstop : s.stop ≠ .idle) (hnot : s.stop ≠ .freed) :
    ∃ l : Label n, l.ofServer = true ∧ (step s l).isSome = true := by
  have hheld : ∀ {i t c stage}, s.acceptor i = .busy t → s.conn t = some c → c.stage = stage →
      s.held i stage = some (t, c) := by
    intro i t c stage hi hc hstage
    simp only [held, hi, hc, if_pos hstage]
  have hat : ∀ {t c stage}, s.conn t = some c → c.stage = stage → s.at? t stage = some c := by
    intro t c stage hc hstage
    rw [at?, hc, Option.filter_some, if_pos (decide_eq_true hstage)]
  -- once the acceptors are done the stopper goes on, or waits for a worker that can
  by_cases hdone : ∀ i, s.acceptor i = .done
  · cases hworkers : s.workers with
    | nil =>
      cases hs : s.stop with
      | idle => exact absurd hs hstop
      | freed => exact absurd hs hnot
      | flagged => exact ⟨.closeListeners, rfl, by rw [step, if_pos hs]; rfl⟩
      | joining k =>
        obtain ⟨hle, -⟩ := h.phased.joined k hs
        rcases hle.lt_or_eq with hlt | rfl
        · refine ⟨.join, rfl, ?_⟩
          simp only [step, hs, dif_pos hlt, if_pos (hdone ⟨k, hlt⟩), Option.isSome_some]
        · have hcount : s.nworkers = 0 := by
            rw [h.handed.count, hworkers]
            rfl
          exact ⟨.free, rfl, by rw [step, if_pos ⟨hs, hcount⟩]; rfl⟩
    | cons t ts =>
      -- a worker on the list is not waiting for its acceptor, so it has a stage of its own to leave
      have hlinked := (h.handed.linked_iff t).mp (by rw [hworkers]; exact List.mem_cons_self)
      obtain ⟨c, hc, hlinked⟩ := (Option.any_eq_true _ _).mp hlinked
      have hnone : c.stage.withAcceptor = false := by
        rw [← Bool.not_eq_true, ← awaits_of_conn hc, h.handed.busy_iff]
        rintro ⟨i, hi⟩
        rw [hdone i] at hi
        cases hi
      obtain ⟨fd, stage⟩ := c
      cases stage with
      | check keepAlive => exact ⟨.turn t, rfl, by simp only [step, hc, Option.isSome_some]⟩
      | reading => exact ⟨.read t false, rfl, by simp only [step, hat hc rfl]; rfl⟩
      | serving => exact ⟨.answer t false, rfl, by simp only [step, hat hc rfl]; rfl⟩
      | closing => exact ⟨.close t, rfl, by simp only [step, hat hc rfl]; rfl⟩
      | closed => exact ⟨.unlink t, rfl, by simp only [step, hat hc rfl]; rfl⟩
      | registered => cases hnone
      | accepted | holding | unlinked | refused => cases hlinked
  -- an acceptor that is not done can look at the flag, fail to accept or finish its connection
  · obtain ⟨i, hi⟩ := not_forall.mp hdone
    cases ha : s.acceptor i with
    | done => exact absurd ha hi
    | check => exact ⟨.look i, rfl, by simp only [step, ha, Option.isSome_some]⟩
    | failed => exact ⟨.look i, rfl, by simp only [step, ha, Option.isSome_some]⟩
    | accepting => exact ⟨.acceptFails i, rfl, by simp only [step, if_pos ha, Option.isSome_some]⟩
    | busy t =>
      obtain ⟨⟨fd, stage⟩, hc, hwith⟩ := h.handed.conn_of_busy ha
      cases stage with
      | accepted => exact ⟨.alloc i true, rfl, by simp only [step, hheld ha hc rfl]; rfl⟩
      | holding => exact ⟨.register i, rfl, by simp only [step, hheld ha hc rfl]; rfl⟩
      | registered => exact ⟨.spawn i true, rfl, by simp only [step, hheld ha hc rfl]; rfl⟩
      | unlinked => exact ⟨.unspawn i, rfl, by simp only [step, hheld ha hc rfl]; rfl⟩
      | refused stopping => exact ⟨.refuse i, rfl, by simp only [step, ha, hc, Option.isSome_some]⟩
      | check | reading | serving | closing | closed => cases hwith

/-- **`edb_http_stop` returns.** Once it has cleared `running` the threads take no more than
`left` steps, whatever they are and whatever else the process does; and until the server is freed
one of them can go on, as `accept` and `recv` return on what was shut down. -/
theorem stop_returns {s₀ : HttpServer n} {ls ls' : List (Label n)} (hs : s₀.Started)
    (hrun : Runs.run step s₀ ls = some s) (hstop : s.stop ≠ .idle)
    (hrun' : Runs.run step s ls' = some s') :
    ls'.countP Label.ofServer ≤ s.left ∧
      (s'.stop ≠ .freed → ∃ l : Label n, l.ofServer = true ∧ (step s' l).isSome = true) := by
  have h := kept_run hs hrun
  clear hrun hs
  induction ls' generalizing s with
  | nil =>
    obtain rfl : s = s' := Option.some.inj hrun'
    exact ⟨Nat.zero_le _, can_step h hstop⟩
  | cons l ls' ih =>
    rw [Runs.run] at hrun'
    split at hrun'
    · cases hrun'
    · next t ht =>
      obtain ⟨hstop', hleft⟩ := stopping_step h hstop ht
      obtain ⟨hcount, hgo⟩ := ih hstop' hrun' (kept_step h ht)
      refine ⟨?_, hgo⟩
      rw [List.countP_cons]
      omega

/-! ## Whose descriptors are shut down -/

/-- **Whose descriptors the stop shuts down**: those of its own connections, exactly when no
worker has closed its descriptor and is still in the list. The number of such a worker's may be
that of a file or a socket of another part of the process by then. -/
theorem shut_own {s₀ : HttpServer n} {ls : List (Label n)} (hs : s₀.Started)
    (hrun : Runs.run step s₀ ls = some s) (hstop : step s .stop = some s') :
    (∀ p ∈ s'.shutdowns, p.2 = .conn p.1) ↔ ∀ t ∈ s.workers, s.heldFd t ≠ none := by
  have h := kept_run hs hrun
  obtain rfl : s.flag = s' := by
    rw [step] at hstop
    split at hstop
    · exact Option.some.inj hstop
    · cases hstop
  have hown : ∀ {t c}, s.conn t = some c → (s.owner c.fd = .conn t ↔ s.heldFd t ≠ none) := by
    intro t c hc
    rw [h.owned.conn_iff]
    by_cases hopen : c.stage = .closed
    · have hnone : s.heldFd t = none := by
        rw [heldFd, hc, Option.filter_some, hopen]
        rfl
      rw [hnone]
      exact iff_of_false nofun (not_not_intro rfl)
    · rw [heldFd_of_open hc hopen]
      exact iff_of_true rfl nofun
  constructor
  · intro hshut t ht
    obtain ⟨c, hc, -⟩ := (Option.any_eq_true _ _).mp ((h.handed.linked_iff t).mp ht)
    refine (hown hc).mp (hshut (t, s.owner c.fd) ?_)
    exact List.mem_filterMap.mpr ⟨t, ht, by rw [hc]; rfl⟩
  · intro hheld p hp
    obtain ⟨t, ht, hp⟩ := List.mem_filterMap.mp hp
    obtain ⟨c, hc, rfl⟩ := Option.map_eq_some_iff.mp hp
    exact (hown hc).mpr (hheld t ht)

/-! ## A server with one listener -/

def oneListener : HttpServer 1 where
  listenFd _ := 3
  owner fd := if fd = 3 then .listener 0 else if fd < 3 then .other else .free

theorem oneListener_started : oneListener.Started where
  running := rfl
  nworkers := rfl
  workers := rfl
  acceptor _ := rfl
  conn _ := rfl
  stop := rfl
  closes := rfl
  shutdowns := rfl
  accepted := rfl
  listener_iff fd i := by
    rw [Fin.fin_one_eq_zero i]
    show (if fd = 3 then _ else _) = _ ↔ 3 = fd
    split
    · next h => exact iff_of_true rfl h.symm
    · next h =>
      refine iff_of_false ?_ (Ne.symm h)
      split <;> nofun
  not_conn fd t := by
    show (if fd = 3 then _ else _) ≠ _
    split
    · nofun
    · split <;> nofun

/-- A connection is accepted, serves a request and is closed. -/
def oneRequest : List (Label 1) :=
  [.look 0, .accept 0 4, .alloc 0 true, .register 0, .spawn 0 true, .turn 0, .read 0 true,
    .answer 0 false, .turn 0, .close 0]

/-- The server stops while the next connection is on its way. -/
def oneStop : List (Label 1) :=
  [.unlink 0, .look 0, .accept 0 4, .stop, .alloc 0 true, .closeListeners, .register 0, .refuse 0,
    .join, .free]

/-- Another part of the process gets the descriptor before the stop begins. -/
def oneTaken : List (Label 1) := oneRequest ++ [.otherOpens 4]

/-- The server after some steps. -/
def after (s : HttpServer 1) (ls : List (Label 1)) : HttpServer 1 := (Runs.run step s ls).getD s

theorem run_after (s : HttpServer 1) (ls : List (Label 1))
    (h : (Runs.run step s ls).isSome = true) : Runs.run step s ls = some (s.after ls) :=
  (Option.getD_of_ne_none (Option.isSome_iff_ne_none.mp h) s).symm

theorem oneStop_accounted :
    (∀ t, .conn t ∈ (oneListener.after (oneRequest ++ oneStop)).closes ↔ t < 2) ∧
      ∀ fd, (oneListener.after (oneRequest ++ oneStop)).owner fd = .free ∨
        (oneListener.after (oneRequest ++ oneStop)).owner fd = .other := by
  have hrun := run_after oneListener (oneRequest ++ oneStop) (by decide)
  obtain ⟨-, hconn, -, howner⟩ := (server_accounted oneListener_started hrun).2.2 (by decide)
  exact ⟨hconn, howner⟩

theorem oneStop_returns :
    (oneStop.drop 4).countP Label.ofServer ≤
      (oneListener.after (oneRequest ++ oneStop.take 4)).left := by
  have hrun := run_after oneListener (oneRequest ++ oneStop.take 4) (by decide)
  have hrest := run_after (oneListener.after (oneRequest ++ oneStop.take 4)) (oneStop.drop 4)
    (by decide)
  obtain ⟨hcount, -⟩ := stop_returns oneListener_started hrun (by decide) hrest
  exact hcount

theorem oneTaken_shut :
    ¬ ∀ p ∈ (oneListener.after (oneTaken ++ [.stop])).shutdowns, p.2 = .conn p.1 := by
  have hstop : step (oneListener.after oneTaken) .stop =
      some (oneListener.after (oneTaken ++ [.stop])) := rfl
  rw [shut_own oneListener_started (run_after oneListener oneTaken (by decide)) hstop]
  exact fun h => h 0 (by decide) (by decide)

end HttpServer

end EpsilonDB

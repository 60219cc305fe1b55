import Testings.StepSystem
import Testings.XorProxyKey
import Mathlib.Logic.Function.Basic
import Mathlib.Data.List.Nodup

/-!
# The multi-client proxy with cleanup

The client table of `udp_xor_proxy_multi_cleanup.c`, the main loop cut at each
use of the record that `get_client` returned, and the cleanup thread cut
between its clock reading and its sweep. The kernel gives a descriptor that is
not open at the time; it may have been open before. A fault of `xor_buffer` or
a use of a record that is freed has no defined outcome: there is no such step.
-/

set_option autoImplicit false

namespace Testings.XorProxy

open Python

structure SockaddrIn where
  sinFamily : BitVec 16
  sinPort : BitVec 16
  sAddr : BitVec 32
  deriving DecidableEq

def addrEqual (a b : SockaddrIn) : Bool :=
  a.sinFamily == b.sinFamily && a.sinPort == b.sinPort && a.sAddr == b.sAddr

structure Client where
  addr : SockaddrIn
  remoteFd : Nat
  lastSeen : Int
  deriving DecidableEq

def clientTimeout : Int := 60

/-- `sockets` holds the unread datagrams of each open upstream descriptor. -/
structure Proxy where
  key : ProxyKey
  clients : List Client
  sockets : Nat → Option (List Bytes)

/-- What `calloc` and `socket` answer to a new client. -/
inductive Resources where
  | noMemory
  | noSocket
  | socket (fd : Nat)
  deriving DecidableEq

/-- The search loop of `get_client`: the record it finds and the list with its
time renewed. -/
def touch (clientAddr : SockaddrIn) (now : Int) : List Client → Option (Client × List Client)
  | [] => none
  | c :: rest =>
      if addrEqual c.addr clientAddr then
        some ({ c with lastSeen := now }, { c with lastSeen := now } :: rest)
      else (touch clientAddr now rest).map fun (found, rest) => (found, c :: rest)

def getClient (p : Proxy) (clientAddr : SockaddrIn) (now : Int) (resources : Resources) :
    Proxy × Option Client :=
  match touch clientAddr now p.clients with
  | some (c, clients) => ({ p with clients := clients }, some c)
  | none =>
      match resources with
      | .noMemory | .noSocket => (p, none)
      | .socket fd =>
          let c : Client := { addr := clientAddr, remoteFd := fd, lastSeen := now }
          ({ p with
              clients := c :: p.clients
              sockets := Function.update p.sockets fd (some []) },
            some c)

def idle (now : Int) (c : Client) : Bool := decide (clientTimeout < now - c.lastSeen)

/-- The loop of `cleanup_thread` under the lock. -/
def sweep (p : Proxy) (now : Int) : Proxy :=
  { p with
    clients := p.clients.filter fun c => !idle now c
    sockets := fun fd =>
      if p.clients.any fun c => idle now c && c.remoteFd == fd then none else p.sockets fd }

/-- Where the main loop is; all but the first hold the record of a client. -/
inductive MainLoop where
  | receive
  | send (c : Client) (data : Bytes)
  | poll (c : Client)
  | forward (c : Client) (data : Bytes)
  deriving DecidableEq

def MainLoop.record : MainLoop → Option Client
  | .receive => none
  | .send c _ | .poll c | .forward c _ => some c

/-- `cleanup` is the clock reading of a sweep to come; `upstream` and
`downstream` are all datagrams sent so far. -/
structure Server where
  proxy : Proxy
  main : MainLoop
  cleanup : Option Int
  clock : Int
  upstream : List (Nat × Bytes)
  downstream : List (SockaddrIn × Bytes)

inductive Action where
  | setClock (time : Int)
  | request (clientAddr : SockaddrIn) (data : Bytes) (resources : Resources)
  | send
  | poll
  | forward
  | arrive (fd : Nat) (data : Bytes)
  | readClock
  | sweep
  deriving DecidableEq

/-- `socket` never returns a descriptor that is open. -/
def Resources.Granted (resources : Resources) (p : Proxy) : Prop :=
  ∀ fd, resources = .socket fd → p.sockets fd = none

instance (resources : Resources) (p : Proxy) : Decidable (resources.Granted p) :=
  match resources with
  | .noMemory | .noSocket => isTrue (by nofun)
  | .socket fd =>
      decidable_of_iff ((p.sockets fd).isNone = true)
        ⟨fun none fd' same => by cases same; exact Option.isNone_iff_eq_none.mp none,
          fun granted => Option.isNone_iff_eq_none.mpr (granted fd rfl)⟩

def step (s : Server) : Action → Option Server
  | .setClock time => some { s with clock := time }
  | .request clientAddr data resources =>
      if s.main = .receive ∧ resources.Granted s.proxy then
        if data = [] then some s
        else
          match xorBuffer data s.proxy.key with
          | .error _ => none
          | .ok data =>
              match getClient s.proxy clientAddr s.clock resources with
              | (proxy, none) => some { s with proxy := proxy }
              | (proxy, some c) => some { s with proxy := proxy, main := .send c data }
      else none
  | .send =>
      match s.main with
      | .send c data =>
          if c ∈ s.proxy.clients then
            some { s with upstream := s.upstream ++ [(c.remoteFd, data)], main := .poll c }
          else none
      | _ => none
  | .poll =>
      match s.main with
      | .poll c =>
          if c ∈ s.proxy.clients then
            match s.proxy.sockets c.remoteFd with
            | some (reply :: unread) =>
                let proxy := { s.proxy with
                  sockets := Function.update s.proxy.sockets c.remoteFd (some unread) }
                if reply = [] then some { s with proxy := proxy, main := .receive }
                else
                  match xorBuffer reply s.proxy.key with
                  | .error _ => none
                  | .ok data => some { s with proxy := proxy, main := .forward c data }
            | _ => some { s with main := .receive }
          else none
      | _ => none
  | .forward =>
      match s.main with
      | .forward c data =>
          if c ∈ s.proxy.clients then
            some { s with downstream := s.downstream ++ [(c.addr, data)], main := .receive }
          else none
      | _ => none
  | .arrive fd data =>
      match s.proxy.sockets fd with
      | some unread =>
          some { s with
            proxy := { s.proxy with
              sockets := Function.update s.proxy.sockets fd (some (unread ++ [data])) } }
      | none => none
  | .readClock => if s.cleanup = none then some { s with cleanup := some s.clock } else none
  | .sweep =>
      match s.cleanup with
      | some now => some { s with proxy := sweep s.proxy now, cleanup := none }
      | none => none

def serverStart (key : ProxyKey) : Server where
  proxy := { key := key, clients := [], sockets := fun _ => none }
  main := .receive
  cleanup := none
  clock := 0
  upstream := []
  downstream := []

def server (key : ProxyKey) : StepSystem Server Action where
  start := serverStart key
  step := step

/-- Everything a step can do, with its guards. -/
inductive Step (s : Server) : Action → Server → Prop where
  | setClock (time : Int) : Step s (.setClock time) { s with clock := time }
  | ignored (clientAddr : SockaddrIn) (resources : Resources) (ready : s.main = .receive)
      (granted : resources.Granted s.proxy) :
      Step s (.request clientAddr [] resources) s
  | refused (clientAddr : SockaddrIn) (data : Bytes) (resources : Resources)
      (ready : s.main = .receive) (granted : resources.Granted s.proxy)
      (unknown : touch clientAddr s.clock s.proxy.clients = none) :
      Step s (.request clientAddr data resources) s
  | renewed (clientAddr : SockaddrIn) (data masked : Bytes) (resources : Resources)
      (c : Client) (clients : List Client) (ready : s.main = .receive)
      (granted : resources.Granted s.proxy)
      (known : touch clientAddr s.clock s.proxy.clients = some (c, clients)) :
      Step s (.request clientAddr data resources) { s with
        proxy := { s.proxy with clients := clients }
        main := .send c masked }
  | opened (clientAddr : SockaddrIn) (data masked : Bytes) (fd : Nat) (ready : s.main = .receive)
      (unknown : touch clientAddr s.clock s.proxy.clients = none)
      (fresh : s.proxy.sockets fd = none) :
      Step s (.request clientAddr data (.socket fd)) { s with
        proxy := { s.proxy with
          clients := ⟨clientAddr, fd, s.clock⟩ :: s.proxy.clients
          sockets := Function.update s.proxy.sockets fd (some []) }
        main := .send ⟨clientAddr, fd, s.clock⟩ masked }
  | send (c : Client) (data : Bytes) (point : s.main = .send c data) (alive : c ∈ s.proxy.clients) :
      Step s .send { s with upstream := s.upstream ++ [(c.remoteFd, data)], main := .poll c }
  | nothing (c : Client) (point : s.main = .poll c) (alive : c ∈ s.proxy.clients)
      (empty : ∀ reply unread, s.proxy.sockets c.remoteFd ≠ some (reply :: unread)) :
      Step s .poll { s with main := .receive }
  | dropped (c : Client) (unread : List Bytes) (point : s.main = .poll c)
      (alive : c ∈ s.proxy.clients) (queue : s.proxy.sockets c.remoteFd = some ([] :: unread)) :
      Step s .poll { s with
        proxy := { s.proxy with
          sockets := Function.update s.proxy.sockets c.remoteFd (some unread) }
        main := .receive }
  | received (c : Client) (reply masked : Bytes) (unread : List Bytes) (point : s.main = .poll c)
      (alive : c ∈ s.proxy.clients)
      (queue : s.proxy.sockets c.remoteFd = some (reply :: unread))
      (transformed : xorBuffer reply s.proxy.key = .ok masked) :
      Step s .poll { s with
        proxy := { s.proxy with
          sockets := Function.update s.proxy.sockets c.remoteFd (some unread) }
        main := .forward c masked }
  | forward (c : Client) (data : Bytes) (point : s.main = .forward c data)
      (alive : c ∈ s.proxy.clients) :
      Step s .forward { s with downstream := s.downstream ++ [(c.addr, data)], main := .receive }
  | arrive (fd : Nat) (data : Bytes) (unread : List Bytes)
      (isOpen : s.proxy.sockets fd = some unread) :
      Step s (.arrive fd data) { s with
        proxy := { s.proxy with
          sockets := Function.update s.proxy.sockets fd (some (unread ++ [data])) } }
  | readClock (waiting : s.cleanup = none) : Step s .readClock { s with cleanup := some s.clock }
  | sweep (now : Int) (reading : s.cleanup = some now) :
      Step s .sweep { s with proxy := sweep s.proxy now, cleanup := none }

theorem request_cases {s next : Server} {clientAddr : SockaddrIn} {data : Bytes}
    {resources : Resources} (taken : step s (.request clientAddr data resources) = some next) :
    Step s (.request clientAddr data resources) next := by
  simp only [step] at taken
  split_ifs at taken with ready empty
  · cases taken
    rw [empty]
    exact .ignored clientAddr resources ready.1 ready.2
  · cases transformed : xorBuffer data s.proxy.key with
    | error fault =>
        rw [transformed] at taken
        cases taken
    | ok masked =>
        simp only [transformed, getClient] at taken
        cases search : touch clientAddr s.clock s.proxy.clients with
        | some found =>
            rw [search] at taken
            cases taken
            exact .renewed clientAddr data masked resources found.1 found.2 ready.1 ready.2 search
        | none =>
            rw [search] at taken
            cases resources with
            | noMemory | noSocket =>
                cases taken
                exact .refused clientAddr data _ ready.1 ready.2 search
            | socket fd =>
                cases taken
                exact .opened clientAddr data masked fd ready.1 search (ready.2 fd rfl)

theorem poll_cases {s next : Server} (taken : step s .poll = some next) : Step s .poll next := by
  simp only [step] at taken
  split at taken
  · next c point =>
      split_ifs at taken with alive
      split at taken
      · next reply unread queue =>
          split_ifs at taken with empty
          · cases taken
            subst empty
            exact .dropped c unread point alive queue
          · cases transformed : xorBuffer reply s.proxy.key with
            | error fault =>
                rw [transformed] at taken
                cases taken
            | ok masked =>
                rw [transformed] at taken
                cases taken
                exact .received c reply masked unread point alive queue transformed
      · next empty =>
          cases taken
          exact .nothing c point alive empty
  · cases taken

theorem step_cases {s next : Server} {action : Action} (taken : step s action = some next) :
    Step s action next := by
  cases action with
  | setClock time => cases taken; exact .setClock time
  | request clientAddr data resources => exact request_cases taken
  | send =>
      simp only [step] at taken
      split at taken
      · next c data point =>
          split_ifs at taken with alive
          cases taken
          exact .send c data point alive
      · cases taken
  | poll => exact poll_cases taken
  | forward =>
      simp only [step] at taken
      split at taken
      · next c data point =>
          split_ifs at taken with alive
          cases taken
          exact .forward c data point alive
      · cases taken
  | arrive fd data =>
      simp only [step] at taken
      split at taken
      · next unread isOpen =>
          cases taken
          exact .arrive fd data unread isOpen
      · cases taken
  | readClock =>
      simp only [step] at taken
      split_ifs at taken with waiting
      cases taken
      exact .readClock waiting
  | sweep =>
      simp only [step] at taken
      split at taken
      · next now reading =>
          cases taken
          exact .sweep now reading
      · cases taken

theorem addr_equal_iff {a b : SockaddrIn} : addrEqual a b = true ↔ a = b := by
  cases a
  cases b
  simp [addrEqual, and_assoc]

/-- The part of a record that never changes. -/
def Client.route (c : Client) : SockaddrIn × Nat := (c.addr, c.remoteFd)

theorem touch_none {clientAddr : SockaddrIn} {now : Int} {clients : List Client}
    (unknown : touch clientAddr now clients = none) : ∀ c ∈ clients, c.addr ≠ clientAddr := by
  induction clients with
  | nil => nofun
  | cons first rest ih =>
      simp only [touch] at unknown
      split_ifs at unknown with same
      intro c member
      rcases List.mem_cons.mp member with rfl | later
      · exact fun equal => same (addr_equal_iff.mpr equal)
      · exact ih (Option.map_eq_none_iff.mp unknown) c later

theorem touch_some {clientAddr : SockaddrIn} {now : Int} {clients renewed : List Client}
    {c : Client} (known : touch clientAddr now clients = some (c, renewed)) :
    c ∈ renewed ∧ c.addr = clientAddr ∧ c.lastSeen = now ∧
      renewed.map Client.route = clients.map Client.route := by
  induction clients generalizing renewed with
  | nil => cases known
  | cons first rest ih =>
      simp only [touch] at known
      split_ifs at known with same
      · cases known
        exact ⟨List.mem_cons_self, addr_equal_iff.mp same, rfl, rfl⟩
      · obtain ⟨⟨found, later⟩, search, equal⟩ := Option.map_eq_some_iff.mp known
        cases equal
        obtain ⟨member, addr, lastSeen, routes⟩ := ih search
        refine ⟨List.mem_cons_of_mem first member, addr, lastSeen, ?_⟩
        rw [List.map_cons, routes]
        rfl

/-- No two records share an address or a descriptor, and the open descriptors
are those of the records. -/
structure TableInv (p : Proxy) : Prop where
  addrs : (p.clients.map Client.addr).Nodup
  fds : (p.clients.map Client.remoteFd).Nodup
  opened : ∀ fd, (p.sockets fd).isSome = true ↔ fd ∈ p.clients.map Client.remoteFd

section table

variable {p : Proxy} {c c' : Client}

theorem TableInv.same_addr (table : TableInv p) (member : c ∈ p.clients) (member' : c' ∈ p.clients)
    (same : c.addr = c'.addr) : c = c' :=
  List.inj_on_of_nodup_map table.addrs member member' same

theorem TableInv.same_fd (table : TableInv p) (member : c ∈ p.clients) (member' : c' ∈ p.clients)
    (same : c.remoteFd = c'.remoteFd) : c = c' :=
  List.inj_on_of_nodup_map table.fds member member' same

theorem TableInv.is_open (table : TableInv p) (member : c ∈ p.clients) :
    ∃ unread, p.sockets c.remoteFd = some unread :=
  Option.isSome_iff_exists.mp ((table.opened c.remoteFd).mpr (List.mem_map_of_mem member))

theorem TableInv.owner (table : TableInv p) {fd : Nat} {unread : List Bytes}
    (isOpen : p.sockets fd = some unread) : ∃ c ∈ p.clients, c.remoteFd = fd :=
  List.mem_map.mp ((table.opened fd).mp (by rw [isOpen]; rfl))

theorem route_addrs (clients : List Client) :
    clients.map Client.addr = (clients.map Client.route).map Prod.fst := by
  rw [List.map_map]
  rfl

theorem route_fds (clients : List Client) :
    clients.map Client.remoteFd = (clients.map Client.route).map Prod.snd := by
  rw [List.map_map]
  rfl

theorem TableInv.renewed (table : TableInv p) {clients : List Client}
    (routes : clients.map Client.route = p.clients.map Client.route) :
    TableInv { p with clients := clients } where
  addrs := by
    rw [route_addrs, routes, ← route_addrs]
    exact table.addrs
  fds := by
    rw [route_fds, routes, ← route_fds]
    exact table.fds
  opened fd := by
    rw [route_fds, routes, ← route_fds]
    exact table.opened fd

theorem TableInv.new_client (table : TableInv p)
    (unknown : ∀ other ∈ p.clients, other.addr ≠ c.addr)
    (fresh : p.sockets c.remoteFd = none) :
    TableInv { p with
      clients := c :: p.clients
      sockets := Function.update p.sockets c.remoteFd (some []) } where
  addrs := by
    rw [List.map_cons, List.nodup_cons]
    refine ⟨?_, table.addrs⟩
    intro member
    obtain ⟨other, present, same⟩ := List.mem_map.mp member
    exact unknown other present same
  fds := by
    rw [List.map_cons, List.nodup_cons]
    refine ⟨?_, table.fds⟩
    intro member
    have isOpen := (table.opened c.remoteFd).mpr member
    rw [fresh] at isOpen
    cases isOpen
  opened fd := by
    rw [List.map_cons, List.mem_cons]
    by_cases same : fd = c.remoteFd
    · subst same
      simp
    · simp only [Function.update_of_ne same, same, false_or]
      exact table.opened fd

theorem TableInv.queue_changed (table : TableInv p) {fd : Nat} {unread : List Bytes}
    (isOpen : p.sockets fd = some unread) (queue : List Bytes) :
    TableInv { p with sockets := Function.update p.sockets fd (some queue) } where
  addrs := table.addrs
  fds := table.fds
  opened fd' := by
    by_cases same : fd' = fd
    · subst same
      have member := (table.opened fd').mp (by rw [isOpen]; rfl)
      simpa using member
    · simp only [Function.update_of_ne same]
      exact table.opened fd'

/-- The sweep closes no descriptor of a record it keeps. -/
theorem TableInv.kept_open (table : TableInv p) {now : Int} (member : c ∈ p.clients)
    (kept : idle now c = false) : (sweep p now).sockets c.remoteFd = p.sockets c.remoteFd := by
  have spared :
      ¬(p.clients.any fun other => idle now other && other.remoteFd == c.remoteFd) = true := by
    rw [List.any_eq_true]
    rintro ⟨other, present, both⟩
    rw [Bool.and_eq_true, beq_iff_eq] at both
    have same := table.same_fd present member both.2
    rw [same, kept] at both
    cases both.1
  exact if_neg spared

theorem mem_sweep {now : Int} :
    c ∈ (sweep p now).clients ↔ c ∈ p.clients ∧ idle now c = false := by
  simp [sweep]

theorem TableInv.swept (table : TableInv p) (now : Int) : TableInv (sweep p now) where
  addrs := table.addrs.sublist (List.filter_sublist.map Client.addr)
  fds := table.fds.sublist (List.filter_sublist.map Client.remoteFd)
  opened fd := by
    rw [List.mem_map]
    constructor
    · intro isOpen
      simp only [sweep] at isOpen
      split_ifs at isOpen with closed
      · cases isOpen
      · obtain ⟨c, member, same⟩ := List.mem_map.mp ((table.opened fd).mp isOpen)
        refine ⟨c, mem_sweep.mpr ⟨member, ?_⟩, same⟩
        by_contra removed
        exact closed (List.any_eq_true.mpr ⟨c, member, by simpa [same] using removed⟩)
    · rintro ⟨c, member, rfl⟩
      obtain ⟨present, kept⟩ := mem_sweep.mp member
      rw [table.kept_open present kept]
      exact (table.opened _).mpr (List.mem_map_of_mem present)

end table

theorem table_start (key : ProxyKey) : TableInv (serverStart key).proxy where
  addrs := List.nodup_nil
  fds := List.nodup_nil
  opened := by simp [serverStart]

theorem table_step {s next : Server} {action : Action} (before : TableInv s.proxy)
    (taken : step s action = some next) : TableInv next.proxy := by
  cases step_cases taken with
  | renewed _ _ _ _ _ clients _ _ known => exact before.renewed (touch_some known).2.2.2
  | opened _ _ _ _ _ unknown fresh => exact before.new_client (touch_none unknown) fresh
  | dropped c unread _ _ queue => exact before.queue_changed queue unread
  | received c _ _ unread _ _ queue => exact before.queue_changed queue unread
  | arrive fd data unread isOpen => exact before.queue_changed isOpen _
  | sweep now => exact before.swept now
  | _ => exact before

end Testings.XorProxy

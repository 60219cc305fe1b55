import Testings.PolledQueue
import Testings.XorProxyReplies

/-!
# One reply for each request

The main loops of `udp_xor_proxy_multi.c` and `udp_xor_proxy_multi_cleanup.c`
poll the descriptor of a client once, behind a request of that client. The
first program has no cleanup thread: its runs are those without a sweep. In the
second one a client is served so between the sweeps that remove it.
-/

set_option autoImplicit false

namespace Testings.XorProxy

open Python PolledQueue

/-- A sweep does not close the descriptor. -/
def Spares (fd : Nat) (s : Server) : Action → Prop
  | .sweep => ∀ c ∈ s.proxy.clients, c.remoteFd = fd →
      (s.cleanup.any fun now => idle now c) = false
  | _ => True

instance (fd : Nat) (s : Server) (action : Action) : Decidable (Spares fd s action) := by
  unfold Spares
  split <;> infer_instance

/-- The datagrams of a client that reach `get_client`. -/
def isRequest (addr : SockaddrIn) : Action → Bool
  | .request clientAddr data _ => clientAddr = addr && data ≠ []
  | _ => false

def asked (addr : SockaddrIn) (actions : List Action) : Nat := actions.countP (isRequest addr)

def arrival (fd : Nat) : Action → Option Bytes
  | .arrive socket data => if socket = fd then some data else none
  | _ => none

def arrivals (fd : Nat) (actions : List Action) : List Bytes := actions.filterMap (arrival fd)

/-- What goes to the client for the datagrams that were taken from its
descriptor: an empty one is not passed on. -/
def answers (key : ProxyKey) (taken : List Bytes) : List (Except Fault Bytes) :=
  (taken.filter fun reply => reply ≠ []).map (xorBuffer · key)

def sentTo (addr : SockaddrIn) (s : Server) : List (Except Fault Bytes) :=
  (datagramsOf addr s.downstream ++ underway s.main addr).map .ok

/-- The poll that a request still has to come. -/
def owed (addr : SockaddrIn) : MainLoop → Nat
  | .send c _ | .poll c => if c.addr = addr then 1 else 0
  | _ => 0

/-- What a part of a run has done for the client at `addr` with the descriptor
`fd`. -/
structure Polled (addr : SockaddrIn) (fd : Nat) (actions : List Action)
    (stretch : Stretch Bytes) (s final : Server) : Prop where
  table : TableInv final.proxy
  client : (addr, fd) ∈ final.proxy.clients.map Client.route
  key : final.proxy.key = s.proxy.key
  queue : ∃ before after, s.proxy.sockets fd = some before ∧
    final.proxy.sockets fd = some after ∧ Serves stretch before after
  arrived : stretch.arrived = arrivals fd actions
  polls : stretch.polls + owed addr final.main = asked addr actions + owed addr s.main
  sent : sentTo addr final = sentTo addr s ++ answers s.proxy.key stretch.taken

section parts

variable {addr : SockaddrIn} {fd : Nat} {s middle final : Server}

theorem polled_nothing (table : TableInv s.proxy)
    (client : (addr, fd) ∈ s.proxy.clients.map Client.route) :
    ∃ stretch, Polled addr fd [] stretch s s := by
  rcases List.mem_map.mp client with ⟨c, member, route⟩
  rcases table.is_open member with ⟨unread, opened⟩
  cases route
  exact ⟨nothing, table, client, rfl, ⟨unread, unread, opened, opened, serves_nothing unread⟩, rfl,
    rfl, (List.append_nil _).symm⟩

theorem Polled.followed_by {first second : List Action} {one two : Stretch Bytes}
    (begun : Polled addr fd first one s middle) (ended : Polled addr fd second two middle final) :
    Polled addr fd (first ++ second) (one.followedBy two) s final where
  table := ended.table
  client := ended.client
  key := ended.key.trans begun.key
  queue := by
    rcases begun.queue with ⟨before, between, opened, left, firstServes⟩
    rcases ended.queue with ⟨found, after, same, closed, secondServes⟩
    cases left.symm.trans same
    exact ⟨before, after, opened, closed, firstServes.followed_by secondServes⟩
  arrived := by
    rw [arrivals, List.filterMap_append]
    exact congrArg₂ List.append begun.arrived ended.arrived
  polls := by
    have firstPolls := begun.polls
    have secondPolls := ended.polls
    simp only [Stretch.followedBy, asked, List.countP_append] at *
    omega
  sent := by
    rw [ended.sent, begun.sent, begun.key, List.append_assoc, Stretch.followedBy, answers,
      answers, answers, List.filter_append, List.map_append]

end parts

section step

variable {addr : SockaddrIn} {fd : Nat} {s next : Server} {action : Action}

/-- A request that the main loop goes on with is not empty. -/
theorem request_nonempty {clientAddr : SockaddrIn} {data : Bytes} {resources : Resources}
    (taken : step s (.request clientAddr data resources) = some next)
    (busy : next.main ≠ .receive) : data ≠ [] := by
  intro empty
  simp only [step] at taken
  split_ifs at taken with ready
  cases taken
  exact busy ready.1

/-- A reply that goes to a client is not empty. -/
theorem reply_nonempty {c : Client} {reply : Bytes} {unread : List Bytes}
    (taken : step s .poll = some next) (point : s.main = .poll c)
    (queue : s.proxy.sockets c.remoteFd = some (reply :: unread))
    (busy : next.main ≠ .receive) : reply ≠ [] := by
  intro empty
  simp only [step, point, queue, empty, if_true] at taken
  split_ifs at taken
  cases taken
  exact busy rfl

theorem owed_same (other : isRequest addr action = false) :
    owed addr s.main = asked addr [action] + owed addr s.main := by
  rw [asked, List.countP_singleton, other]
  exact (Nat.zero_add _).symm

/-- A step that neither brings nor takes a datagram of the client. -/
theorem polled_quiet (table : TableInv next.proxy)
    (client : (addr, fd) ∈ s.proxy.clients.map Client.route)
    (before : TableInv s.proxy)
    (kept : (addr, fd) ∈ next.proxy.clients.map Client.route)
    (key : next.proxy.key = s.proxy.key)
    (socket : next.proxy.sockets fd = s.proxy.sockets fd)
    (silent : arrival fd action = none)
    (owing : owed addr next.main = asked addr [action] + owed addr s.main)
    (sent : sentTo addr next = sentTo addr s) :
    ∃ stretch, Polled addr fd [action] stretch s next := by
  rcases List.mem_map.mp client with ⟨c, member, route⟩
  rcases before.is_open member with ⟨unread, opened⟩
  cases route
  refine ⟨nothing, table, kept, key, ?_, ?_, ?_, ?_⟩
  · exact ⟨unread, unread, opened, socket.trans opened, serves_nothing unread⟩
  · rw [arrivals, List.filterMap_cons_none silent]
    rfl
  · rw [owing]
    exact Nat.zero_add _
  · rw [sent]
    exact (List.append_nil _).symm

theorem TableInv.addr_iff_fd {p : Proxy} (table : TableInv p) {c : Client}
    (client : (addr, fd) ∈ p.clients.map Client.route) (member : c ∈ p.clients) :
    c.addr = addr ↔ c.remoteFd = fd := by
  rcases List.mem_map.mp client with ⟨other, listed, route⟩
  cases route
  constructor
  · intro same
    rw [table.same_addr member listed same]
  · intro same
    rw [table.same_fd member listed same]

/-- The datagram at the head of a descriptor is polled. -/
theorem polled_taken {c : Client} {main : MainLoop} {reply : Bytes} {unread : List Bytes}
    (before : TableInv s.proxy) (client : (addr, fd) ∈ s.proxy.clients.map Client.route)
    (point : s.main = .poll c) (alive : c ∈ s.proxy.clients)
    (queue : s.proxy.sockets c.remoteFd = some (reply :: unread))
    (rested : owed addr main = 0)
    (sent : (underway main addr).map Except.ok =
      if c.addr = addr then answers s.proxy.key [reply] else []) :
    ∃ stretch, Polled addr fd [.poll] stretch s { s with
      proxy := { s.proxy with
        sockets := Function.update s.proxy.sockets c.remoteFd (some unread) }
      main := main } := by
  have table := before.queue_changed queue unread
  have resting : underway s.main addr = [] := underway_none (by rw [point]; nofun) addr
  have unsent : sentTo addr s = (datagramsOf addr s.downstream).map Except.ok := by
    rw [sentTo, resting, List.append_nil]
  by_cases own : c.addr = addr
  · have socket := (before.addr_iff_fd client alive).mp own
    subst socket
    refine ⟨⟨1, [], [reply]⟩, table, client, rfl, ?_, rfl, ?_, ?_⟩
    · exact ⟨reply :: unread, unread, queue, Function.update_self _ _ _, serves_poll reply unread⟩
    · dsimp only
      rw [rested, point]
      simp [asked, isRequest, owed, own]
    · rw [if_pos own] at sent
      rw [unsent, ← sent, ← List.map_append]
      rfl
  · have other : fd ≠ c.remoteFd := fun same =>
      own ((before.addr_iff_fd client alive).mpr same.symm)
    refine polled_quiet table client before client rfl ?_ rfl ?_ ?_
    · exact Function.update_of_ne other _ _
    · dsimp only
      rw [rested, point]
      simp [asked, isRequest, owed, own]
    · rw [if_neg own] at sent
      rw [unsent, sentTo, List.map_append, sent, List.append_nil]

theorem polled_step (before : TableInv s.proxy)
    (client : (addr, fd) ∈ s.proxy.clients.map Client.route) (spared : Spares fd s action)
    (taken : step s action = some next) :
    ∃ stretch, Polled addr fd [action] stretch s next := by
  have table := table_step before taken
  cases step_cases taken with
  | setClock => exact polled_quiet table client before client rfl rfl rfl (owed_same rfl) rfl
  | ignored clientAddr resources =>
      have unheard : isRequest addr (.request clientAddr [] resources) = false := by
        simp [isRequest]
      exact polled_quiet table client before client rfl rfl rfl (owed_same unheard) rfl
  | refused clientAddr data resources _ _ unknown =>
      have stranger : clientAddr ≠ addr := by
        rintro rfl
        rcases List.mem_map.mp client with ⟨c, member, route⟩
        exact touch_none unknown c member (congrArg Prod.fst route)
      exact polled_quiet table client before client rfl rfl rfl
        (by simp [asked, isRequest, stranger]) rfl
  | renewed clientAddr data masked resources c clients ready granted known =>
      rcases touch_some known with ⟨_, named, _, routes⟩
      have nonempty := request_nonempty taken (by simp)
      refine polled_quiet table client before ?_ rfl rfl rfl ?_ ?_
      · rw [routes]
        exact client
      · rw [ready]
        simp [asked, isRequest, owed, named, nonempty]
      · rw [sentTo, sentTo, ready]
        rfl
  | opened clientAddr data masked socket ready unknown fresh =>
      rcases List.mem_map.mp client with ⟨c, member, route⟩
      rcases before.is_open member with ⟨unread, opened⟩
      have stranger : clientAddr ≠ addr := by
        rintro rfl
        exact touch_none unknown c member (congrArg Prod.fst route)
      have other : fd ≠ socket := by
        rintro rfl
        cases route
        rw [fresh] at opened
        cases opened
      refine polled_quiet table client before (List.mem_cons_of_mem _ client) rfl ?_ rfl ?_ ?_
      · exact Function.update_of_ne other _ _
      · rw [ready]
        simp [asked, isRequest, owed, stranger]
      · rw [sentTo, sentTo, ready]
        rfl
  | send c data point alive =>
      refine polled_quiet table client before client rfl rfl rfl ?_ ?_
      · rw [point]
        simp [asked, isRequest, owed]
      · rw [sentTo, sentTo, point]
        rfl
  | nothing c point alive empty =>
      by_cases own : c.addr = addr
      · have socket := (before.addr_iff_fd client alive).mp own
        subst socket
        rcases before.is_open alive with ⟨unread, opened⟩
        cases unread with
        | cons reply rest => exact absurd opened (empty reply rest)
        | nil =>
            refine ⟨⟨1, [], []⟩, table, client, rfl, ?_, rfl, ?_, ?_⟩
            · exact ⟨[], [], opened, opened, serves_vain_poll⟩
            · rw [point]
              simp [asked, isRequest, owed, own]
            · rw [sentTo, sentTo, point]
              exact (List.append_nil _).symm
      · refine polled_quiet table client before client rfl rfl rfl ?_ ?_
        · rw [point]
          simp [asked, isRequest, owed, own]
        · rw [sentTo, sentTo, point]
          rfl
  | dropped c unread point alive queue =>
      apply polled_taken before client point alive queue rfl
      simp [underway, answers]
  | received c reply masked unread point alive queue transformed =>
      have nonempty := reply_nonempty taken point queue (by simp)
      apply polled_taken before client point alive queue rfl
      by_cases own : c.addr = addr
      · simp [underway, answers, own, nonempty, transformed]
      · simp [underway, own]
  | forward c data point alive =>
      refine polled_quiet table client before client rfl rfl rfl ?_ ?_
      · rw [point]
        simp [asked, isRequest, owed]
      · rw [sentTo, sentTo, point]
        by_cases own : c.addr = addr
        · subst own
          simp [datagrams_append_same, underway]
        · simp [datagrams_append_other own, underway, own]
  | arrive socket data unread isOpen =>
      by_cases own : socket = fd
      · subst own
        refine ⟨⟨0, [data], []⟩, table, client, rfl, ?_, ?_, ?_, ?_⟩
        · exact ⟨unread, unread ++ [data], isOpen, Function.update_self _ _ _,
            serves_arrival unread data⟩
        · simp [arrivals, arrival]
        · simp [asked, isRequest]
        · exact (List.append_nil _).symm
      · refine polled_quiet table client before client rfl ?_ ?_ ?_ rfl
        · exact Function.update_of_ne (Ne.symm own) _ _
        · exact if_neg own
        · simp [asked, isRequest]
  | readClock => exact polled_quiet table client before client rfl rfl rfl (owed_same rfl) rfl
  | sweep now reading =>
      rcases List.mem_map.mp client with ⟨c, member, route⟩
      cases route
      have kept : idle now c = false := by
        have live := spared c member rfl
        rw [reading] at live
        exact live
      refine polled_quiet table client before ?_ rfl ?_ rfl ?_ rfl
      · exact List.mem_map_of_mem (mem_sweep.mpr ⟨member, kept⟩)
      · exact before.kept_open member kept
      · simp [asked, isRequest]

end step

theorem polled_run {key : ProxyKey} {addr : SockaddrIn} {fd : Nat} {s final : Server}
    {actions : List Action} (before : TableInv s.proxy)
    (client : (addr, fd) ∈ s.proxy.clients.map Client.route)
    (ran : ((server key).restrict (Spares fd)).runFrom s actions = some final) :
    ∃ stretch, Polled addr fd actions stretch s final := by
  induction actions generalizing s with
  | nil =>
      cases ran
      exact polled_nothing before client
  | cons action rest ih =>
      rcases StepSystem.run_from_cons_some.mp ran with ⟨next, moved, remaining⟩
      rcases StepSystem.restrict_step_some.mp moved with ⟨spared, taken⟩
      rcases polled_step before client spared taken with ⟨first, begun⟩
      rcases ih begun.table begun.client remaining with ⟨second, ended⟩
      exact ⟨first.followedBy second, begun.followed_by ended⟩

theorem reachable_table {key : ProxyKey} {s : Server} (reached : (server key).Reachable s) :
    TableInv s.proxy := by
  apply reached.invariant (fun s => TableInv s.proxy) (table_start key)
  intro s action next before taken
  exact table_step before taken

/-- Between two moments at which the main loop waits for a request. -/
theorem Polled.rested {addr : SockaddrIn} {fd : Nat} {s final : Server} {actions : List Action}
    {stretch : Stretch Bytes} (polled : Polled addr fd actions stretch s final)
    (ready : s.main = .receive) (rested : final.main = .receive) {unread : List Bytes}
    (waiting : s.proxy.sockets fd = some unread) :
    ∃ left, final.proxy.sockets fd = some left ∧
      Serves ⟨asked addr actions, arrivals fd actions, stretch.taken⟩ unread left ∧
      (datagramsOf addr final.downstream).map Except.ok =
        (datagramsOf addr s.downstream).map Except.ok ++ answers s.proxy.key stretch.taken := by
  rcases polled.queue with ⟨before, left, opened, closed, serves⟩
  cases waiting.symm.trans opened
  have polls := polled.polls
  have sent := polled.sent
  simp only [ready, rested, owed, Nat.add_zero] at polls
  simp only [sentTo, ready, rested, underway, List.append_nil] at sent
  refine ⟨left, closed, ?_, sent⟩
  rw [← polls, ← polled.arrived]
  exact serves

section runs

variable {key : ProxyKey} {s final : Server} {actions : List Action} {c : Client}
  {unread : List Bytes}

/-- Each request of a client takes one of the replies that wait for it, and no
reply goes to it otherwise. -/
theorem replies_wait_for_requests (reached : (server key).Reachable s)
    (ready : s.main = .receive) (member : c ∈ s.proxy.clients)
    (waiting : s.proxy.sockets c.remoteFd = some unread)
    (ran : ((server key).restrict (Spares c.remoteFd)).runFrom s actions = some final)
    (rested : final.main = .receive) :
    ∃ taken left, final.proxy.sockets c.remoteFd = some left ∧
      Serves ⟨asked c.addr actions, arrivals c.remoteFd actions, taken⟩ unread left ∧
      (datagramsOf c.addr final.downstream).map Except.ok =
        (datagramsOf c.addr s.downstream).map Except.ok ++ answers s.proxy.key taken := by
  have table := reachable_table reached
  rcases polled_run table (List.mem_map_of_mem member) ran with ⟨stretch, polled⟩
  exact ⟨stretch.taken, polled.rested ready rested waiting⟩

def nextExchange : List Action :=
  [.request sampleAddr [0x02] (.socket 4), .send, .poll, .forward]

/-- Two replies have come after the poll; the next request fetches the first. -/
theorem replies_wait_for_requests_two_replies :
    ∃ s final : Server, s.proxy.sockets 3 = some [[0x05], [0x06]] ∧
      ∃ taken left, final.proxy.sockets 3 = some left ∧
        Serves ⟨asked sampleAddr nextExchange, arrivals 3 nextExchange, taken⟩
          [[0x05], [0x06]] left ∧
        (datagramsOf sampleAddr final.downstream).map Except.ok =
          (datagramsOf sampleAddr s.downstream).map Except.ok ++ answers s.proxy.key taken := by
  rcases StepSystem.reachable_of_run (server (multiKey sampleKey))
    [.request sampleAddr [0x01] (.socket 3), .send, .poll, .arrive 3 [0x05], .arrive 3 [0x06]]
    (fun s => decide (s.main = .receive ∧ s.proxy.clients = [⟨sampleAddr, 3, 0⟩] ∧
      s.proxy.sockets 3 = some [[0x05], [0x06]]) &&
        (((server (multiKey sampleKey)).restrict (Spares 3)).runFrom s nextExchange).any
          fun final : Server => decide (final.main = .receive))
    (by decide +kernel) with ⟨s, reached, passes⟩
  rw [Bool.and_eq_true] at passes
  rcases of_decide_eq_true passes.1 with ⟨ready, clients, waiting⟩
  rcases (Option.any_eq_true _ _).mp passes.2 with ⟨final, ran, rested⟩
  have member : (⟨sampleAddr, 3, 0⟩ : Client) ∈ s.proxy.clients := by
    rw [clients]
    exact List.mem_singleton.mpr rfl
  exact ⟨s, final, waiting,
    replies_wait_for_requests reached ready member waiting ran (of_decide_eq_true rested)⟩

/-- A reply does not reach a client that stays silent, however long it waits. -/
theorem silent_client_gets_nothing (reached : (server key).Reachable s)
    (ready : s.main = .receive) (member : c ∈ s.proxy.clients)
    (waiting : s.proxy.sockets c.remoteFd = some unread)
    (ran : ((server key).restrict (Spares c.remoteFd)).runFrom s actions = some final)
    (rested : final.main = .receive) (silent : asked c.addr actions = 0) :
    final.proxy.sockets c.remoteFd = some (unread ++ arrivals c.remoteFd actions) ∧
      (datagramsOf c.addr final.downstream).map (Except.ok (ε := Fault)) =
        (datagramsOf c.addr s.downstream).map Except.ok := by
  have table := reachable_table reached
  rcases polled_run table (List.mem_map_of_mem member) ran with ⟨stretch, polled⟩
  rcases polled.rested ready rested waiting with ⟨left, closed, serves, sent⟩
  have none : stretch.taken = [] := by
    have taken := serves.taken_of_le (silent.le.trans (Nat.zero_le _))
    rw [taken]
    dsimp only
    rw [silent, List.take_zero]
  have balance := serves.balance
  rw [none] at balance sent
  rw [closed]
  exact ⟨congrArg some balance, sent.trans (List.append_nil _)⟩

end runs

end Testings.XorProxy

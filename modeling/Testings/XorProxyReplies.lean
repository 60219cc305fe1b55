import Testings.XorProxyClients

/-!
# Replies of the upstream

A reply waits on the descriptor of its client until a later request of that
client polls it, and the sweep closes a descriptor whatever waits on it. The
ledger knows for whom each descriptor was opened and what has arrived for whom.
-/

set_option autoImplicit false

namespace Testings.XorProxy

open Python

/-- `owner` is the client for which a descriptor was last opened. -/
structure ReplyLedger where
  owner : Nat → Option SockaddrIn
  arrived : List (SockaddrIn × Bytes)

def recordReply (_s : Server) (action : Action) (next : Server) (ledger : ReplyLedger) :
    ReplyLedger :=
  match action with
  | .request clientAddr _ (.socket fd) =>
      if (next.proxy.sockets fd).isSome then
        { ledger with owner := Function.update ledger.owner fd (some clientAddr) }
      else ledger
  | .arrive fd data =>
      match ledger.owner fd with
      | some addr => { ledger with arrived := ledger.arrived ++ [(addr, data)] }
      | none => ledger
  | _ => ledger

def replyLedger (key : ProxyKey) : StepSystem (Server × ReplyLedger) Action :=
  (server key).observe ⟨fun _ => none, []⟩ recordReply

/-- The datagrams of a log that carry an address. -/
def datagramsOf (addr : SockaddrIn) (log : List (SockaddrIn × Bytes)) : List Bytes :=
  (log.filter fun entry => entry.1 = addr).map Prod.snd

/-- What a client has been sent is an initial part of what has arrived for it,
transformed, and all of it once no descriptor of the client is open. -/
def RepliesDelivered (state : Server × ReplyLedger) : Prop :=
  ∀ addr,
    (datagramsOf addr state.1.downstream).map Except.ok <+:
        (datagramsOf addr state.2.arrived).map (xorBuffer · state.1.proxy.key) ∧
      ((∀ fd, state.2.owner fd = some addr → state.1.proxy.sockets fd = none) →
        (datagramsOf addr state.1.downstream).map Except.ok =
          (datagramsOf addr state.2.arrived).map (xorBuffer · state.1.proxy.key))

/-- A sweep closes no descriptor on which a reply waits and no record in use,
and a polled reply is not empty. -/
def NoReplyLost (s : Server) : Action → Prop
  | .sweep => ∀ c ∈ s.proxy.clients, (s.cleanup.any fun now => idle now c) = true →
      s.proxy.sockets c.remoteFd = some [] ∧ s.main.record ≠ some c
  | .poll => ∀ c ∈ s.main.record, (s.proxy.sockets c.remoteFd).bind List.head? ≠ some []
  | _ => True

instance (s : Server) (action : Action) : Decidable (NoReplyLost s action) := by
  unfold NoReplyLost
  split <;> infer_instance

/-- The reply that has been polled for a client and is not sent yet. -/
def underway (main : MainLoop) (addr : SockaddrIn) : List Bytes :=
  match main with
  | .forward c data => if c.addr = addr then [data] else []
  | _ => []

structure ReplyInv (state : Server × ReplyLedger) : Prop where
  table : TableInv state.1.proxy
  held : ∀ c ∈ state.1.main.record, c ∈ state.1.proxy.clients
  owners : ∀ c ∈ state.1.proxy.clients, state.2.owner c.remoteFd = some c.addr
  waiting : ∀ c ∈ state.1.proxy.clients, ∀ unread, state.1.proxy.sockets c.remoteFd = some unread →
    (datagramsOf c.addr state.2.arrived).map (xorBuffer · state.1.proxy.key) =
      (datagramsOf c.addr state.1.downstream).map Except.ok ++
        (underway state.1.main c.addr).map Except.ok ++
        unread.map (xorBuffer · state.1.proxy.key)
  absent : ∀ addr, (∀ c ∈ state.1.proxy.clients, c.addr ≠ addr) →
    (datagramsOf addr state.2.arrived).map (xorBuffer · state.1.proxy.key) =
      (datagramsOf addr state.1.downstream).map Except.ok

theorem datagrams_append_same (addr : SockaddrIn) (log : List (SockaddrIn × Bytes)) (data : Bytes) :
    datagramsOf addr (log ++ [(addr, data)]) = datagramsOf addr log ++ [data] := by
  simp [datagramsOf]

theorem datagrams_append_other {addr other : SockaddrIn} (different : other ≠ addr)
    (log : List (SockaddrIn × Bytes)) (data : Bytes) :
    datagramsOf addr (log ++ [(other, data)]) = datagramsOf addr log := by
  simp [datagramsOf, different]

theorem underway_none {main : MainLoop} (resting : ∀ c data, main ≠ .forward c data)
    (addr : SockaddrIn) : underway main addr = [] := by
  cases main with
  | forward c data => exact absurd rfl (resting c data)
  | _ => rfl

/-- Every balanced client has been sent what it should have been. -/
theorem ReplyInv.delivered {state : Server × ReplyLedger} (inv : ReplyInv state) :
    RepliesDelivered state := by
  intro addr
  by_cases known : ∃ c ∈ state.1.proxy.clients, c.addr = addr
  · obtain ⟨c, member, rfl⟩ := known
    obtain ⟨unread, isOpen⟩ := inv.table.is_open member
    constructor
    · rw [inv.waiting c member unread isOpen, List.append_assoc]
      exact List.prefix_append _ _
    · intro closed
      have none := closed c.remoteFd (inv.owners c member)
      rw [isOpen] at none
      cases none
  · push Not at known
    have equal := inv.absent addr known
    exact ⟨equal ▸ List.prefix_refl _, fun _ => equal.symm⟩

/-- A request that opens no descriptor leaves the ledger alone. -/
theorem record_request {s next : Server} {clientAddr : SockaddrIn} {data : Bytes}
    {resources : Resources} (granted : resources.Granted s.proxy)
    (sockets : next.proxy.sockets = s.proxy.sockets) (ledger : ReplyLedger) :
    recordReply s (.request clientAddr data resources) next ledger = ledger := by
  cases resources with
  | noMemory | noSocket => rfl
  | socket fd =>
      have closed : next.proxy.sockets fd = none := by
        rw [sockets]
        exact granted fd rfl
      simp [recordReply, closed]

/-- A step of the main loop that neither polls nor answers. -/
theorem ReplyInv.main_moved {s : Server} {ledger : ReplyLedger} (before : ReplyInv (s, ledger))
    {main : MainLoop} (held : ∀ c ∈ main.record, c ∈ s.proxy.clients)
    (still : ∀ addr, underway main addr = underway s.main addr) (cleanup : Option Int)
    (clock : Int) (upstream : List (Nat × Bytes)) :
    ReplyInv ({ s with
      main := main, cleanup := cleanup, clock := clock, upstream := upstream }, ledger) where
  table := before.table
  held := held
  owners := before.owners
  waiting c member unread isOpen := by
    dsimp only
    rw [still]
    exact before.waiting c member unread isOpen
  absent := before.absent

theorem ReplyInv.renewed {s : Server} {ledger : ReplyLedger} (before : ReplyInv (s, ledger))
    {clientAddr : SockaddrIn} {c : Client} {clients : List Client} (ready : s.main = .receive)
    (known : touch clientAddr s.clock s.proxy.clients = some (c, clients)) (masked : Bytes) :
    ReplyInv ({ s with proxy := { s.proxy with clients := clients }, main := .send c masked },
      ledger) := by
  obtain ⟨member, _, _, routes⟩ := touch_some known
  -- every record of one list has its address and descriptor in the other
  have old : ∀ renewed ∈ clients, ∃ kept ∈ s.proxy.clients,
      kept.addr = renewed.addr ∧ kept.remoteFd = renewed.remoteFd := by
    intro renewed present
    have route : renewed.route ∈ s.proxy.clients.map Client.route :=
      routes ▸ List.mem_map_of_mem present
    obtain ⟨kept, present', same⟩ := List.mem_map.mp route
    exact ⟨kept, present', Prod.mk.inj same⟩
  have new : ∀ kept ∈ s.proxy.clients, ∃ renewed ∈ clients, renewed.addr = kept.addr := by
    intro kept present
    have route : kept.route ∈ clients.map Client.route := routes.symm ▸ List.mem_map_of_mem present
    obtain ⟨renewed, present', same⟩ := List.mem_map.mp route
    exact ⟨renewed, present', (Prod.mk.inj same).1⟩
  refine ⟨before.table.renewed routes, ?_, ?_, ?_, ?_⟩
  · rintro _ ⟨⟩
    exact member
  · intro renewed present
    obtain ⟨kept, present', addr, fd⟩ := old renewed present
    rw [← addr, ← fd]
    exact before.owners kept present'
  · intro renewed present unread isOpen
    obtain ⟨kept, present', addr, fd⟩ := old renewed present
    have balance := before.waiting kept present' unread (by rw [fd]; exact isOpen)
    rw [underway_none (by rw [ready]; nofun)] at balance
    rw [← addr, underway_none (by nofun)]
    exact balance
  · intro addr unknown
    apply before.absent
    intro kept present
    obtain ⟨renewed, present', same⟩ := new kept present
    rw [← same]
    exact unknown renewed present'

theorem ReplyInv.new_client {s : Server} {ledger : ReplyLedger} (before : ReplyInv (s, ledger))
    {c : Client} (ready : s.main = .receive)
    (unknown : ∀ other ∈ s.proxy.clients, other.addr ≠ c.addr)
    (fresh : s.proxy.sockets c.remoteFd = none) (masked : Bytes) :
    ReplyInv ({ s with
        proxy := { s.proxy with
          clients := c :: s.proxy.clients
          sockets := Function.update s.proxy.sockets c.remoteFd (some []) }
        main := .send c masked },
      { ledger with owner := Function.update ledger.owner c.remoteFd (some c.addr) }) := by
  have elsewhere : ∀ other ∈ s.proxy.clients, other.remoteFd ≠ c.remoteFd := by
    intro other present same
    obtain ⟨unread, isOpen⟩ := before.table.is_open present
    rw [same, fresh] at isOpen
    cases isOpen
  refine ⟨before.table.new_client unknown fresh, ?_, ?_, ?_, ?_⟩
  · rintro _ ⟨⟩
    exact List.mem_cons_self
  · intro other present
    rcases List.mem_cons.mp present with rfl | old
    · exact Function.update_self ..
    · dsimp only
      rw [Function.update_of_ne (elsewhere other old)]
      exact before.owners other old
  · intro other present unread isOpen
    rw [underway_none (by nofun)]
    rcases List.mem_cons.mp present with rfl | old
    · dsimp only at isOpen
      rw [Function.update_self] at isOpen
      cases isOpen
      simpa using before.absent other.addr unknown
    · dsimp only at isOpen
      rw [Function.update_of_ne (elsewhere other old)] at isOpen
      have balance := before.waiting other old unread isOpen
      rwa [underway_none (by rw [ready]; nofun)] at balance
  · intro addr absent
    exact before.absent addr fun other present => absent other (List.mem_cons_of_mem c present)

theorem ReplyInv.received {s : Server} {ledger : ReplyLedger} (before : ReplyInv (s, ledger))
    {c : Client} {reply masked : Bytes} {unread : List Bytes} (point : s.main = .poll c)
    (alive : c ∈ s.proxy.clients) (queue : s.proxy.sockets c.remoteFd = some (reply :: unread))
    (transformed : xorBuffer reply s.proxy.key = .ok masked) :
    ReplyInv ({ s with
        proxy := { s.proxy with
          sockets := Function.update s.proxy.sockets c.remoteFd (some unread) }
        main := .forward c masked },
      ledger) := by
  have resting : ∀ addr, underway s.main addr = [] := underway_none (by rw [point]; nofun)
  refine ⟨before.table.queue_changed queue unread, ?_, before.owners, ?_, before.absent⟩
  · rintro _ ⟨⟩
    exact alive
  · intro other present unread' isOpen
    dsimp only at isOpen ⊢
    by_cases same : other = c
    · subst same
      rw [Function.update_self] at isOpen
      cases isOpen
      have balance := before.waiting other present (reply :: unread) queue
      rw [resting, List.map_cons, transformed] at balance
      simpa [underway] using balance
    · have otherFd : other.remoteFd ≠ c.remoteFd := mt (before.table.same_fd present alive) same
      have otherAddr : c.addr ≠ other.addr := fun equal =>
        same (before.table.same_addr present alive equal.symm)
      rw [Function.update_of_ne otherFd] at isOpen
      have balance := before.waiting other present unread' isOpen
      rw [resting] at balance
      rw [underway, if_neg otherAddr]
      exact balance

theorem ReplyInv.forwarded {s : Server} {ledger : ReplyLedger} (before : ReplyInv (s, ledger))
    {c : Client} {data : Bytes} (point : s.main = .forward c data) (alive : c ∈ s.proxy.clients) :
    ReplyInv ({ s with downstream := s.downstream ++ [(c.addr, data)], main := .receive },
      ledger) := by
  refine ⟨before.table, nofun, before.owners, ?_, ?_⟩
  · intro other present unread isOpen
    have balance := before.waiting other present unread isOpen
    rw [underway_none (by nofun)]
    dsimp only at balance ⊢
    rw [point, underway] at balance
    by_cases same : c.addr = other.addr
    · rw [if_pos same] at balance
      rw [same, datagrams_append_same]
      simpa using balance
    · rw [if_neg same] at balance
      rw [datagrams_append_other same]
      exact balance
  · intro addr unknown
    dsimp only
    rw [datagrams_append_other (unknown c alive)]
    exact before.absent addr unknown

theorem ReplyInv.arrived {s : Server} {ledger : ReplyLedger} (before : ReplyInv (s, ledger))
    {fd : Nat} {data : Bytes} {unread : List Bytes} (isOpen : s.proxy.sockets fd = some unread) :
    ReplyInv ({ s with
        proxy := { s.proxy with
          sockets := Function.update s.proxy.sockets fd (some (unread ++ [data])) } },
      recordReply s (.arrive fd data) s ledger) := by
  obtain ⟨c, member, rfl⟩ := before.table.owner isOpen
  have owner : ledger.owner c.remoteFd = some c.addr := before.owners c member
  simp only [recordReply, owner]
  refine ⟨before.table.queue_changed isOpen _, before.held, before.owners, ?_, ?_⟩
  · intro other present unread' isOpen'
    dsimp only at isOpen' ⊢
    by_cases same : other = c
    · subst same
      rw [Function.update_self] at isOpen'
      cases isOpen'
      have balance := before.waiting other present unread isOpen
      dsimp only at balance
      rw [datagrams_append_same, List.map_append, balance, List.map_append, List.append_assoc]
    · have otherFd : other.remoteFd ≠ c.remoteFd := mt (before.table.same_fd present member) same
      have otherAddr : c.addr ≠ other.addr := fun equal =>
        same (before.table.same_addr present member equal.symm)
      rw [Function.update_of_ne otherFd] at isOpen'
      rw [datagrams_append_other otherAddr]
      exact before.waiting other present unread' isOpen'
  · intro addr unknown
    dsimp only
    rw [datagrams_append_other (unknown c member)]
    exact before.absent addr unknown

theorem ReplyInv.swept {s : Server} {ledger : ReplyLedger} (before : ReplyInv (s, ledger))
    {now : Int} (unlost : ∀ c ∈ s.proxy.clients, idle now c = true →
      s.proxy.sockets c.remoteFd = some [] ∧ s.main.record ≠ some c) :
    ReplyInv ({ s with proxy := sweep s.proxy now, cleanup := none }, ledger) := by
  refine ⟨before.table.swept now, ?_, ?_, ?_, ?_⟩
  · intro c record
    have member := before.held c record
    refine mem_sweep.mpr ⟨member, ?_⟩
    by_contra removed
    exact (unlost c member (Bool.not_eq_false _ ▸ removed)).2 record
  · intro c member
    exact before.owners c (mem_sweep.mp member).1
  · intro c member unread isOpen
    obtain ⟨present, kept⟩ := mem_sweep.mp member
    dsimp only at isOpen
    rw [before.table.kept_open present kept] at isOpen
    exact before.waiting c present unread isOpen
  · intro addr unknown
    by_cases known : ∃ c ∈ s.proxy.clients, c.addr = addr
    · -- its record goes, with nothing waiting and nothing under way
      obtain ⟨c, member, rfl⟩ := known
      have removed : idle now c = true := by
        by_contra kept
        exact unknown c (mem_sweep.mpr ⟨member, Bool.not_eq_true _ ▸ kept⟩) rfl
      obtain ⟨empty, unused⟩ := unlost c member removed
      have resting : underway s.main c.addr = [] := by
        cases main : s.main with
        | forward user data =>
            have used : s.main.record = some user := by rw [main]; rfl
            have other : user.addr ≠ c.addr := by
              intro equal
              have same := before.table.same_addr (before.held user used) member equal
              exact unused (same ▸ used)
            rw [underway, if_neg other]
        | _ => rfl
      have balance := before.waiting c member [] empty
      rw [resting, List.map_nil, List.append_nil, List.map_nil, List.append_nil] at balance
      exact balance
    · push Not at known
      exact before.absent addr known

theorem reply_step {s next : Server} {action : Action} {ledger : ReplyLedger}
    (before : ReplyInv (s, ledger)) (unlost : NoReplyLost s action)
    (taken : step s action = some next) :
    ReplyInv (next, recordReply s action next ledger) := by
  cases step_cases taken with
  | setClock => exact before.main_moved before.held (fun _ => rfl) _ _ _
  | ignored _ _ _ granted | refused _ _ _ _ granted =>
      rw [record_request granted rfl]
      exact before
  | renewed _ _ masked _ _ _ ready granted known =>
      rw [record_request granted]
      · exact before.renewed ready known masked
      · rfl
  | opened clientAddr _ masked fd ready unknown fresh =>
      have after := before.new_client (c := ⟨clientAddr, fd, s.clock⟩) ready
        (touch_none unknown) fresh masked
      simpa [recordReply] using after
  | send c data point alive =>
      apply before.main_moved
      · rintro _ ⟨⟩
        exact alive
      · intro addr
        rw [point]
        rfl
  | nothing c point alive empty =>
      apply before.main_moved
      · nofun
      · intro addr
        rw [point]
        rfl
  | dropped c unread point alive queue =>
      have nonempty := unlost c (by rw [point]; rfl)
      rw [queue] at nonempty
      exact absurd rfl nonempty
  | received c reply masked unread point alive queue transformed =>
      exact before.received point alive queue transformed
  | forward c data point alive => exact before.forwarded point alive
  | arrive fd data unread isOpen => exact before.arrived isOpen
  | readClock => exact before.main_moved before.held (fun _ => rfl) _ _ _
  | sweep now reading =>
      apply before.swept
      intro c member removed
      exact unlost c member (by rw [reading]; exact removed)

theorem reply_start (key : ProxyKey) : ReplyInv (serverStart key, ⟨fun _ => none, []⟩) where
  table := table_start key
  held := nofun
  owners := nofun
  waiting := nofun
  absent _ _ := rfl

theorem replies_delivered (key : ProxyKey) (state : Server × ReplyLedger)
    (reached : ((replyLedger key).restrict fun state => NoReplyLost state.1).Reachable state) :
    RepliesDelivered state := by
  apply ReplyInv.delivered
  apply reached.invariant ReplyInv (reply_start key)
  apply StepSystem.restrict_observe_preserved
  intro s action next ledger before unlost taken
  exact reply_step before unlost taken

def sampleKey : KeyString := ⟨[0x6B], by decide⟩

def sampleAddr : SockaddrIn := ⟨2, 40000, 0x7F000001⟩

def otherAddr : SockaddrIn := ⟨2, 40001, 0x7F000001⟩

/-- A datagram of a client and the reply to it. -/
def exchange (addr : SockaddrIn) (resources : Resources) (fd : Nat) (reply : Bytes) :
    List Action :=
  [.request addr [0x01] resources, .send, .arrive fd reply, .poll, .forward]

/-- Of two clients the first goes with a sweep and comes back on the same descriptor. -/
theorem replies_delivered_two_clients :
    ∃ state : Server × ReplyLedger,
      state.1.downstream = [(sampleAddr, [0x05 ^^^ 0x6B]), (otherAddr, [0x06 ^^^ 0x6B]),
        (otherAddr, [0x07 ^^^ 0x6B]), (sampleAddr, [0x08 ^^^ 0x6B])] ∧
      state.1.proxy.clients = [⟨sampleAddr, 3, 61⟩, ⟨otherAddr, 4, 61⟩] ∧
      RepliesDelivered state := by
  obtain ⟨state, reached, passes⟩ := StepSystem.reachable_of_run
    ((replyLedger (multiCleanupKey sampleKey)).restrict fun state => NoReplyLost state.1)
    (exchange sampleAddr (.socket 3) 3 [0x05] ++ exchange otherAddr (.socket 4) 4 [0x06] ++
      [.setClock 61] ++ exchange otherAddr .noMemory 4 [0x07] ++ [.readClock, .sweep] ++
      exchange sampleAddr (.socket 3) 3 [0x08])
    (fun state => decide (state.1.downstream = [(sampleAddr, [0x05 ^^^ 0x6B]),
        (otherAddr, [0x06 ^^^ 0x6B]), (otherAddr, [0x07 ^^^ 0x6B]),
        (sampleAddr, [0x08 ^^^ 0x6B])] ∧
      state.1.proxy.clients = [⟨sampleAddr, 3, 61⟩, ⟨otherAddr, 4, 61⟩]))
    (by decide +kernel)
  obtain ⟨downstream, clients⟩ := of_decide_eq_true passes
  exact ⟨state, downstream, clients, replies_delivered (multiCleanupKey sampleKey) state reached⟩

theorem reachable_ledger_table {key : ProxyKey} {state : Server × ReplyLedger}
    (reached : (replyLedger key).Reachable state) : TableInv state.1.proxy := by
  apply reached.invariant (fun state => TableInv state.1.proxy) (table_start key)
  apply StepSystem.observe_preserved
  intro s action next ledger before taken
  exact table_step before taken

/-- A reply that comes after the poll, and a client that falls silent. -/
theorem silent_client_loses_reply :
    ¬∀ (key : ProxyKey) (state : Server × ReplyLedger), (replyLedger key).Reachable state →
      RepliesDelivered state := by
  intro always
  obtain ⟨state, reached, passes⟩ := StepSystem.reachable_of_run
    (replyLedger (multiCleanupKey sampleKey))
    [.request sampleAddr [0x01] (.socket 3), .send, .poll, .arrive 3 [0x05], .setClock 61,
      .readClock, .sweep]
    (fun state => decide (state.1.proxy.clients = [] ∧ state.1.downstream = [] ∧
      state.2.arrived = [(sampleAddr, [0x05])])) (by decide +kernel)
  obtain ⟨nobody, nothing, arrived⟩ := of_decide_eq_true passes
  have table := reachable_ledger_table reached
  have closed : ∀ fd, state.1.proxy.sockets fd = none := by
    intro fd
    rw [← Option.not_isSome_iff_eq_none, table.opened, nobody]
    nofun
  have delivered := (always _ state reached sampleAddr).2 fun fd _ => closed fd
  rw [nothing, arrived] at delivered
  simp [datagramsOf] at delivered

end Testings.XorProxy

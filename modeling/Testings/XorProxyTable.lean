import Testings.LinkedCells
import Testings.XorProxyClients

/-!
# The client list in memory

`get_client` and the sweep of `cleanup_thread` on the linked list that
`udp_xor_proxy_multi_cleanup.c` keeps, pointer by pointer, and the list of records
that it stands for. A loop that has used up its fuel, and a read through a pointer to
nothing, have no outcome.
-/

set_option autoImplicit false

namespace Testings.XorProxy

open LinkedCells

/-- `opened` are the descriptors the process has open, the upstream sockets among them. -/
structure ClientTable where
  memory : Memory Client
  opened : Nat → Bool

/-- What `calloc` and `socket` answer; the address is one that is not in use. -/
inductive Allocation where
  | noMemory
  | noSocket (c : Nat)
  | socket (c fd : Nat)
  deriving DecidableEq

def Allocation.Fresh (allocation : Allocation) (table : ClientTable) : Prop :=
  match allocation with
  | .noMemory => True
  | .noSocket c => table.memory.heap c = none
  | .socket c fd => table.memory.heap c = none ∧ table.opened fd = false

/-- The search loop of `get_client` from `c` on. -/
def findClient (heap : Nat → Option (Cell Client)) (clientAddr : SockaddrIn) :
    Nat → Option Nat → Option (Option Nat)
  | _, none => some none
  | 0, some _ => none
  | fuel + 1, some c => do
      let cell ← heap c
      if addrEqual cell.value.addr clientAddr then some (some c)
      else findClient heap clientAddr fuel cell.next

def getClientCell (fuel : Nat) (p : ClientTable) (clientAddr : SockaddrIn) (now : Int)
    (allocation : Allocation) : Option (ClientTable × Option Nat) := do
  let found ← findClient p.memory.heap clientAddr fuel p.memory.head
  match found with
  | some c => do
      let cell ← p.memory.heap c
      let memory := p.memory.store c { cell with value := { cell.value with lastSeen := now } }
      some ({ p with memory := memory }, some c)
  | none =>
      match allocation with
      | .noMemory => some (p, none)
      | .noSocket c =>
          let memory := p.memory.store c ⟨⟨clientAddr, 0, 0⟩, none⟩
          some ({ p with memory := memory.free c }, none)
      | .socket c fd =>
          let memory := p.memory.store c ⟨⟨clientAddr, fd, now⟩, p.memory.head⟩
          some ({ memory := { memory with head := some c },
                  opened := Function.update p.opened fd true }, some c)

/-- The loop of `cleanup_thread` under the lock. -/
def cleanupCells (now : Int) : Nat → ClientTable → Slot → Option ClientTable
  | 0, _, _ => none
  | fuel + 1, p, ptr => do
      let pointer ← p.memory.read ptr
      match pointer with
      | none => some p
      | some c => do
          let cell ← p.memory.heap c
          if clientTimeout < now - cell.value.lastSeen then
            let opened := Function.update p.opened cell.value.remoteFd false
            let memory := (p.memory.write cell.next ptr).free c
            cleanupCells now fuel ⟨memory, opened⟩ ptr
          else cleanupCells now fuel p (.next c)

/-- The records of the list, each with its address. -/
def Holds (table : ClientTable) (records : List (Nat × Client)) : Prop :=
  Chain table.memory.heap table.memory.head records

/-- No two records share an address or a descriptor, and their descriptors are open. -/
structure GoodTable (table : ClientTable) (records : List (Nat × Client)) : Prop where
  holds : Holds table records
  addrs : (records.map fun record => record.2.addr).Nodup
  fds : (records.map fun record => record.2.remoteFd).Nodup
  opened : ∀ record ∈ records, table.opened record.2.remoteFd = true

/-- A record with its time renewed. -/
def renew (now : Int) (c : Client) : Client := { c with lastSeen := now }

theorem find_client_chain {heap : Nat → Option (Cell Client)} {pointer : Option Nat}
    {records : List (Nat × Client)} (chain : Chain heap pointer records)
    (clientAddr : SockaddrIn) {fuel : Nat} (enough : records.length ≤ fuel) :
    findClient heap clientAddr fuel pointer =
      some ((records.find? fun record => addrEqual record.2.addr clientAddr).map Prod.fst) := by
  induction records generalizing pointer fuel with
  | nil =>
      obtain rfl : pointer = none := chain
      cases fuel <;> rfl
  | cons record rest ih =>
      obtain ⟨rfl, next, cell, chain⟩ := chain
      cases fuel with
      | zero => cases enough
      | succ fuel =>
          have later := ih chain (Nat.le_of_succ_le_succ enough)
          rw [findClient, cell, List.find?_cons]
          by_cases same : addrEqual record.2.addr clientAddr = true
          · simp [same]
          · simp [same, later]

theorem find_client_known {records : List (Nat × Client)} {clientAddr : SockaddrIn}
    {record : Nat × Client}
    (found : (records.find? fun record => addrEqual record.2.addr clientAddr) = some record) :
    record.2.addr = clientAddr ∧ ∃ before after, records = before ++ record :: after := by
  obtain ⟨equal, before, after, split, _⟩ := List.find?_eq_some_iff_append.mp found
  exact ⟨addr_equal_iff.mp equal, before, after, split⟩

theorem find_client_unknown {records : List (Nat × Client)} {clientAddr : SockaddrIn}
    (unknown : (records.find? fun record => addrEqual record.2.addr clientAddr) = none) :
    ∀ record ∈ records, record.2.addr ≠ clientAddr := by
  intro record member same
  exact List.find?_eq_none.mp unknown record member (addr_equal_iff.mpr same)

section getClient

variable {table : ClientTable} {records before after : List (Nat × Client)}
  {c : Nat} {client : Client}

theorem GoodTable.renewed (good : GoodTable table (before ++ (c, client) :: after)) (now : Int)
    {next : Option Nat} (cell : table.memory.heap c = some ⟨client, next⟩) :
    GoodTable { table with memory := table.memory.store c ⟨renew now client, next⟩ }
      (before ++ (c, renew now client) :: after) where
  holds := chain_store good.holds cell
  addrs := by
    have addrs := good.addrs
    rw [List.map_append, List.map_cons] at addrs ⊢
    exact addrs
  fds := by
    have fds := good.fds
    rw [List.map_append, List.map_cons] at fds ⊢
    exact fds
  opened := by
    intro record member
    cases List.mem_append.mp member with
    | inl old => exact good.opened record (List.mem_append_left _ old)
    | inr rest =>
        cases List.mem_cons.mp rest with
        | inl here =>
            subst here
            exact good.opened (c, client) (List.mem_append_right _ List.mem_cons_self)
        | inr old =>
            exact good.opened record (List.mem_append_right _ (List.mem_cons_of_mem _ old))

theorem GoodTable.added (good : GoodTable table records) {clientAddr : SockaddrIn} {fd : Nat}
    (unknown : ∀ record ∈ records, record.2.addr ≠ clientAddr)
    (fresh : table.memory.heap c = none) (closed : table.opened fd = false) (now : Int) :
    GoodTable
      { memory := { table.memory.store c ⟨⟨clientAddr, fd, now⟩, table.memory.head⟩ with
          head := some c }
        opened := Function.update table.opened fd true }
      ((c, ⟨clientAddr, fd, now⟩) :: records) where
  holds := chain_push good.holds fresh
  addrs := by
    rw [List.map_cons, List.nodup_cons]
    refine ⟨fun again => ?_, good.addrs⟩
    obtain ⟨record, member, same⟩ := List.mem_map.mp again
    exact unknown record member same
  fds := by
    rw [List.map_cons, List.nodup_cons]
    refine ⟨fun again => ?_, good.fds⟩
    obtain ⟨record, member, same⟩ := List.mem_map.mp again
    have isOpen := good.opened record member
    rw [same, closed] at isOpen
    cases isOpen
  opened := by
    intro record member
    cases List.mem_cons.mp member with
    | inl here =>
        rw [here]
        exact Function.update_self ..
    | inr old =>
        by_cases same : record.2.remoteFd = fd
        · rw [same]
          exact Function.update_self ..
        · exact (Function.update_of_ne same ..).trans (good.opened record old)

/-- A record that is allocated and freed again leaves the memory as it was. -/
theorem store_free {memory : Memory Client} (fresh : memory.heap c = none) (cell : Cell Client) :
    (memory.store c cell).free c = memory := by
  rw [Memory.free, Memory.store, Function.update_idem, ← fresh, Function.update_eq_self]

end getClient

theorem GoodTable.unique {table : ClientTable} {records : List (Nat × Client)}
    (good : GoodTable table records) {record other : Nat × Client} (member : record ∈ records)
    (otherMember : other ∈ records) (same : record.2.addr = other.2.addr) : record = other :=
  List.inj_on_of_nodup_map good.addrs member otherMember same

/-- What a call that returns the record at `c` leaves: `renewed` in the list. -/
structure Served (table : ClientTable) (records : List (Nat × Client)) (clientAddr : SockaddrIn)
    (now : Int) (next : ClientTable) (c : Nat) (client : Client)
    (renewed : List (Nat × Client)) : Prop where
  holds : Holds next renewed
  member : (c, client) ∈ renewed
  addr : client.addr = clientAddr
  lastSeen : client.lastSeen = now
  unique : ∀ record ∈ renewed, record.2.addr = clientAddr → record = (c, client)
  others : ∀ record, record.2.addr ≠ clientAddr → (record ∈ renewed ↔ record ∈ records)
  opened : ∀ fd, next.opened fd = true ↔ table.opened fd = true ∨ fd = client.remoteFd

/-- A call that has an answer returns the one record of the address, with its time
renewed, and keeps the others; one that has none was refused memory or a socket for a new
address, and changes nothing. -/
def GetsClient (table : ClientTable) (records : List (Nat × Client)) (clientAddr : SockaddrIn)
    (now : Int) (allocation : Allocation) (next : ClientTable) : Option Nat → Prop
  | none =>
      next = table ∧ (∀ record ∈ records, record.2.addr ≠ clientAddr) ∧
        ∀ c fd, allocation ≠ .socket c fd
  | some c => ∃ client renewed, Served table records clientAddr now next c client renewed

/-- The list search finds the record behind others. -/
theorem touch_split {clientAddr : SockaddrIn} {before : List Client} {client : Client} (now : Int)
    (others : ∀ c ∈ before, c.addr ≠ clientAddr) (addr : client.addr = clientAddr)
    (after : List Client) :
    touch clientAddr now (before ++ client :: after) =
      some (renew now client, before ++ renew now client :: after) := by
  induction before with
  | nil => exact if_pos (addr_equal_iff.mpr addr)
  | cons first rest ih =>
      have differs : ¬addrEqual first.addr clientAddr = true := fun same =>
        others first List.mem_cons_self (addr_equal_iff.mp same)
      rw [List.cons_append, touch, if_neg differs,
        ih fun c member => others c (List.mem_cons_of_mem _ member)]
      rfl

theorem touch_unknown {clientAddr : SockaddrIn} {clients : List Client} (now : Int)
    (unknown : ∀ c ∈ clients, c.addr ≠ clientAddr) : touch clientAddr now clients = none := by
  induction clients with
  | nil => rfl
  | cons first rest ih =>
      have differs : ¬addrEqual first.addr clientAddr = true := fun same =>
        unknown first List.mem_cons_self (addr_equal_iff.mp same)
      rw [touch, if_neg differs, ih fun c member => unknown c (List.mem_cons_of_mem _ member)]
      rfl

/-- What the list-level `get_client` is told. -/
def Allocation.resources : Allocation → Resources
  | .noMemory => .noMemory
  | .noSocket _ => .noSocket
  | .socket _ fd => .socket fd

/-- The records are the clients of a proxy, in order. -/
def StandsFor (records : List (Nat × Client)) (p : Proxy) : Prop :=
  records.map Prod.snd = p.clients

section standsFor

variable {records renewed : List (Nat × Client)} {p : Proxy} {clientAddr : SockaddrIn} {now : Int}

theorem StandsFor.known {resources : Resources} {client : Client} (stands : StandsFor records p)
    (known : touch clientAddr now (records.map Prod.snd) =
      some (client, renewed.map Prod.snd)) :
    StandsFor renewed (getClient p clientAddr now resources).1 := by
  rw [StandsFor] at stands
  rw [stands] at known
  simp only [StandsFor, getClient, known]

theorem StandsFor.refused {resources : Resources} (stands : StandsFor records p)
    (unknown : touch clientAddr now (records.map Prod.snd) = none)
    (refused : ∀ fd, resources ≠ .socket fd) :
    StandsFor records (getClient p clientAddr now resources).1 := by
  have same : records.map Prod.snd = p.clients := stands
  rw [same] at unknown
  cases resources with
  | noMemory => simpa only [StandsFor, getClient, unknown] using same
  | noSocket => simpa only [StandsFor, getClient, unknown] using same
  | socket fd => exact absurd rfl (refused fd)

theorem StandsFor.added {c fd : Nat} (stands : StandsFor records p)
    (unknown : touch clientAddr now (records.map Prod.snd) = none) :
    StandsFor ((c, ⟨clientAddr, fd, now⟩) :: records)
      (getClient p clientAddr now (.socket fd)).1 := by
  have same : records.map Prod.snd = p.clients := stands
  rw [same] at unknown
  simp only [StandsFor, getClient, unknown, List.map_cons, same]

end standsFor

theorem get_client_known {table : ClientTable} {records : List (Nat × Client)}
    (good : GoodTable table records) {clientAddr : SockaddrIn} (now : Int)
    {record : Nat × Client}
    (found : (records.find? fun record => addrEqual record.2.addr clientAddr) = some record) :
    ∃ cell renewed, table.memory.heap record.1 = some cell ∧ cell.value = record.2 ∧
      touch clientAddr now (records.map Prod.snd) =
        some (renew now record.2, renewed.map Prod.snd) ∧
      GoodTable { table with
        memory := table.memory.store record.1 { cell with value := renew now cell.value } }
        renewed ∧
      Served table records clientAddr now { table with
        memory := table.memory.store record.1 { cell with value := renew now cell.value } }
        record.1 (renew now record.2) renewed := by
  obtain ⟨addr, before, after, rfl⟩ := find_client_known found
  obtain ⟨c, client⟩ := record
  have member : (c, client) ∈ before ++ (c, client) :: after :=
    List.mem_append_right _ List.mem_cons_self
  obtain ⟨next, cell⟩ := chain_cell good.holds member
  have renewed := good.renewed now cell
  have here : (c, renew now client) ∈ before ++ (c, renew now client) :: after :=
    List.mem_append_right _ List.mem_cons_self
  have others (old : Client) (early : old ∈ before.map Prod.snd) : old.addr ≠ clientAddr := by
    intro same
    obtain ⟨record, recordMember, rfl⟩ := List.mem_map.mp early
    have equal := good.unique (List.mem_append_left _ recordMember) member (same.trans addr.symm)
    have nodup := chain_nodup good.holds
    rw [List.map_append, List.map_cons] at nodup
    exact List.disjoint_of_nodup_append nodup (List.mem_map_of_mem recordMember)
      (equal ▸ List.mem_cons_self)
  have touched := touch_split now others addr (after.map Prod.snd)
  refine ⟨_, before ++ (c, renew now client) :: after, cell, rfl, ?_, renewed, renewed.holds,
    here, addr, rfl, ?_, ?_, ?_⟩
  · rw [List.map_append, List.map_append]
    exact touched
  · intro other otherMember otherAddr
    exact renewed.unique otherMember here (otherAddr.trans addr.symm)
  · intro other differs
    have notOld : other ≠ (c, client) := fun same => differs (same ▸ addr)
    have notNew : other ≠ (c, renew now client) := fun same => differs (same ▸ addr)
    simp only [List.mem_append, List.mem_cons, notOld, notNew, false_or]
  · intro fd
    constructor
    · exact .inl
    · rintro (open_ | rfl)
      · exact open_
      · exact good.opened (c, client) member

/-- A new record at the head of the list. -/
theorem served_added {table next : ClientTable} {records : List (Nat × Client)}
    {clientAddr : SockaddrIn} {now : Int} {c fd : Nat}
    (added : GoodTable next ((c, ⟨clientAddr, fd, now⟩) :: records))
    (opened : next.opened = Function.update table.opened fd true) :
    Served table records clientAddr now next c ⟨clientAddr, fd, now⟩
      ((c, ⟨clientAddr, fd, now⟩) :: records) where
  holds := added.holds
  member := List.mem_cons_self
  addr := rfl
  lastSeen := rfl
  unique _ member same := added.unique member List.mem_cons_self same
  others := by
    intro record differs
    have notNew : record ≠ (c, ⟨clientAddr, fd, now⟩) := fun same => differs (same ▸ rfl)
    simp only [List.mem_cons, notNew, false_or]
  opened := by
    intro other
    rw [opened]
    by_cases same : other = fd
    · subst same
      simp
    · simp [same]

theorem get_client_cell {table : ClientTable} {records : List (Nat × Client)}
    (good : GoodTable table records) (clientAddr : SockaddrIn) (now : Int)
    {allocation : Allocation} (fresh : allocation.Fresh table) {fuel : Nat}
    (enough : records.length ≤ fuel) :
    ∃ next found, getClientCell fuel table clientAddr now allocation = some (next, found) ∧
      (∃ renewed, GoodTable next renewed ∧
        ∀ p, StandsFor records p →
          StandsFor renewed (getClient p clientAddr now allocation.resources).1) ∧
      GetsClient table records clientAddr now allocation next found := by
  have search := find_client_chain good.holds clientAddr enough
  unfold getClientCell
  rw [search]
  cases found : records.find? fun record => addrEqual record.2.addr clientAddr with
  | some record =>
      obtain ⟨cell, renewed, present, _, touched, goodNext, served⟩ :=
        get_client_known good now found
      refine ⟨_, some record.1, ?_, ⟨renewed, goodNext, ?_⟩, _, renewed, served⟩
      · simp [present, renew]
      · exact fun p stands => stands.known touched
  | none =>
      have unknown := find_client_unknown found
      have untouched : touch clientAddr now (records.map Prod.snd) = none := by
        apply touch_unknown
        intro client member
        obtain ⟨record, recordMember, rfl⟩ := List.mem_map.mp member
        exact unknown record recordMember
      cases allocation with
      | noMemory =>
          refine ⟨table, none, rfl, ⟨records, good, fun p stands => ?_⟩, rfl, unknown, ?_⟩
          · exact stands.refused untouched fun fd same => by cases same
          · exact fun c fd same => by cases same
      | noSocket c =>
          refine ⟨table, none, ?_, ⟨records, good, fun p stands => ?_⟩, rfl, unknown, ?_⟩
          · simp [store_free fresh]
          · exact stands.refused untouched fun fd same => by cases same
          · exact fun c fd same => by cases same
      | socket c fd =>
          have added := good.added unknown fresh.1 fresh.2 now
          exact ⟨_, some c, rfl, ⟨_, added, fun p stands => stands.added untouched⟩, _, _,
            served_added added rfl⟩

/-- The descriptors that are open after those of the idle records are closed. -/
def openedAfter (now : Int) (records : List (Nat × Client)) (opened : Nat → Bool) (fd : Nat) :
    Bool :=
  opened fd && !records.any fun record => idle now record.2 && record.2.remoteFd == fd

theorem opened_after_drop {now : Int} (record : Nat × Client) {rest : List (Nat × Client)}
    {opened : Nat → Bool} (stale : idle now record.2 = true) :
    openedAfter now rest (Function.update opened record.2.remoteFd false) =
      openedAfter now (record :: rest) opened := by
  funext fd
  by_cases same : fd = record.2.remoteFd
  · simp [openedAfter, same, stale]
  · have other : (record.2.remoteFd == fd) = false := beq_eq_false_iff_ne.mpr (Ne.symm same)
    simp [openedAfter, same, other]

theorem opened_after_keep {now : Int} {record : Nat × Client} {rest : List (Nat × Client)}
    {opened : Nat → Bool} (fresh : idle now record.2 = false) :
    openedAfter now rest opened = openedAfter now (record :: rest) opened := by
  funext fd
  simp [openedAfter, fresh]

theorem cleanup_cells_chain (now : Int) {table : ClientTable} {slot : Slot} {pointer : Option Nat}
    {records : List (Nat × Client)} (held : table.memory.read slot = some pointer)
    (apart : slot.Apart records) (chain : Chain table.memory.heap pointer records) {fuel : Nat}
    (enough : records.length < fuel) :
    ∃ next left, cleanupCells now fuel table slot = some next ∧
      Unlinked table.memory slot records (records.filter fun record => !idle now record.2) left
        next.memory ∧
      next.opened = openedAfter now records table.opened := by
  obtain ⟨fuel, rfl⟩ : ∃ less, fuel = less + 1 := ⟨fuel - 1, by omega⟩
  induction records generalizing table slot pointer fuel with
  | nil =>
      obtain rfl : pointer = none := chain
      refine ⟨table, none, ?_, unlinked_nil held, ?_⟩
      · simp [cleanupCells, held]
      · funext fd
        simp [openedAfter]
  | cons record rest ih =>
      obtain ⟨address, client⟩ := record
      have nodup := chain_nodup chain
      obtain ⟨rfl, next, cell, chain⟩ := chain
      obtain ⟨less, rfl⟩ : ∃ less, fuel = less + 1 := by
        rw [List.length_cons] at enough
        exact ⟨fuel - 1, by omega⟩
      have remaining : rest.length < less + 1 := by
        rw [List.length_cons] at enough
        omega
      have elsewhere : slot ≠ .next address := fun same => apart address same List.mem_cons_self
      have restApart : slot.Apart rest := fun place same member =>
        apart place same (List.mem_cons_of_mem _ member)
      by_cases stale : idle now client = true
      · -- the cell is unlinked and freed, and the slot stays
        have old : clientTimeout < now - client.lastSeen := of_decide_eq_true stale
        obtain ⟨after, left, returned, unlinked, opened⟩ :=
          @ih ⟨(table.memory.write next slot).free address,
            Function.update table.opened client.remoteFd false⟩ slot next
            (Memory.read_unlinked held elsewhere) restApart (chain_unlinked apart nodup chain)
            less remaining
        refine ⟨after, left, ?_, ?_, ?_⟩
        · rw [cleanupCells]
          simp [held, cell, old, returned]
        · rw [List.filter_cons_of_neg (by simp [stale])]
          exact unlinked_drop apart nodup unlinked
        · exact opened.trans (opened_after_drop (address, client) stale)
      · -- the slot moves into the cell
        have recent : ¬clientTimeout < now - client.lastSeen := fun old =>
          stale (decide_eq_true old)
        have inside : table.memory.read (.next address) = some next := by
          rw [Memory.read, cell]
          rfl
        have own : (Slot.next address).Apart rest := by
          rintro place ⟨⟩
          exact (List.nodup_cons.mp nodup).1
        obtain ⟨after, left, returned, unlinked, opened⟩ :=
          ih inside own chain less remaining
        refine ⟨after, some address, ?_, ?_, ?_⟩
        · rw [cleanupCells]
          simp [held, cell, recent, returned]
        · rw [List.filter_cons_of_pos (by simpa using stale)]
          exact unlinked_keep held cell nodup unlinked
        · exact opened.trans (opened_after_keep (by simpa using stale))

/-- What a sweep leaves: the records that are not idle, in order; the idle ones are
freed, and their descriptors and no others closed. -/
structure Swept (table : ClientTable) (records : List (Nat × Client)) (now : Int)
    (next : ClientTable) : Prop where
  holds : Holds next (records.filter fun record => !idle now record.2)
  freed : ∀ record ∈ records, idle now record.2 = true → next.memory.heap record.1 = none
  opened : ∀ fd, next.opened fd = true ↔
    table.opened fd = true ∧
      ∀ record ∈ records, idle now record.2 = true → record.2.remoteFd ≠ fd

theorem opened_after_iff {now : Int} {records : List (Nat × Client)} {opened : Nat → Bool}
    {fd : Nat} :
    openedAfter now records opened fd = true ↔
      opened fd = true ∧
        ∀ record ∈ records, idle now record.2 = true → record.2.remoteFd ≠ fd := by
  simp [openedAfter]

theorem cleanup_cells_swept {table : ClientTable} {records : List (Nat × Client)}
    (good : GoodTable table records) (now : Int) {fuel : Nat} (enough : records.length < fuel) :
    ∃ next, cleanupCells now fuel table .head = some next ∧ Swept table records now next ∧
      GoodTable next (records.filter fun record => !idle now record.2) := by
  obtain ⟨next, left, returned, unlinked, opened⟩ :=
    @cleanup_cells_chain now table .head _ records rfl (fun _ same => by cases same) good.holds
      fuel enough
  have holds : Holds next (records.filter fun record => !idle now record.2) := by
    have chain := unlinked.chain
    rw [← show next.memory.head = left from unlinked.head] at chain
    exact chain
  refine ⟨next, returned, ⟨holds, ?_, ?_⟩, holds, ?_, ?_, ?_⟩
  · intro record member stale
    apply unlinked.freed record member
    intro kept
    simp [stale] at kept
  · intro fd
    rw [opened, opened_after_iff]
  · exact good.addrs.sublist (List.filter_sublist.map _)
  · exact good.fds.sublist (List.filter_sublist.map _)
  · intro record member
    obtain ⟨present, kept⟩ := List.mem_filter.mp member
    rw [opened, opened_after_iff]
    refine ⟨good.opened record present, fun other otherMember stale same => ?_⟩
    have equal := List.inj_on_of_nodup_map good.fds otherMember present same
    rw [← equal, stale] at kept
    cases kept

/-- The sweep of the list is the sweep of the records that it stands for. -/
theorem swept_stands_for {records : List (Nat × Client)} {p : Proxy} (stands : StandsFor records p)
    (now : Int) :
    StandsFor (records.filter fun record => !idle now record.2) (sweep p now) := by
  rw [StandsFor, sweep, ← stands, List.filter_map]
  rfl

theorem get_client_refines {table : ClientTable} {records : List (Nat × Client)} {p : Proxy}
    (good : GoodTable table records) (stands : StandsFor records p) (clientAddr : SockaddrIn)
    (now : Int) {allocation : Allocation} (fresh : allocation.Fresh table) {fuel : Nat}
    (enough : records.length ≤ fuel) :
    ∃ next found renewed,
      getClientCell fuel table clientAddr now allocation = some (next, found) ∧
        Holds next renewed ∧
        StandsFor renewed (getClient p clientAddr now allocation.resources).1 := by
  obtain ⟨next, found, returned, ⟨renewed, goodNext, simulates⟩, _⟩ :=
    get_client_cell good clientAddr now fresh enough
  exact ⟨next, found, renewed, returned, goodNext.holds, simulates p stands⟩

theorem cleanup_refines {table : ClientTable} {records : List (Nat × Client)} {p : Proxy}
    (good : GoodTable table records) (stands : StandsFor records p) (now : Int) {fuel : Nat}
    (enough : records.length < fuel) :
    ∃ next left, cleanupCells now fuel table .head = some next ∧ Holds next left ∧
      StandsFor left (sweep p now) := by
  obtain ⟨next, returned, swept, _⟩ := cleanup_cells_swept good now enough
  exact ⟨next, _, returned, swept.holds, swept_stands_for stands now⟩

inductive TableAction where
  | getClient (fuel : Nat) (clientAddr : SockaddrIn) (now : Int) (allocation : Allocation)
  | cleanup (fuel : Nat) (now : Int)
  deriving DecidableEq

instance (allocation : Allocation) (table : ClientTable) : Decidable (allocation.Fresh table) :=
  match allocation with
  | .noMemory => isTrue trivial
  | .noSocket c => decidable_of_iff ((table.memory.heap c).isNone = true) Option.isNone_iff_eq_none
  | .socket c fd =>
      decidable_of_iff ((table.memory.heap c).isNone = true ∧ table.opened fd = false)
        (and_congr_left fun _ => Option.isNone_iff_eq_none)

/-- `opened` are the descriptors that are open before the first client. -/
def clientTables (opened : Nat → Bool) : StepSystem ClientTable TableAction where
  start := { memory := { head := none, heap := fun _ => none }, opened := opened }
  step table
    | .getClient fuel clientAddr now allocation =>
        if allocation.Fresh table then
          (getClientCell fuel table clientAddr now allocation).map Prod.fst
        else none
    | .cleanup fuel now => cleanupCells now fuel table .head

/-- More fuel changes no search that has ended. -/
theorem find_client_more {heap : Nat → Option (Cell Client)} {clientAddr : SockaddrIn}
    {fuel more : Nat} {pointer found : Option Nat} (le : fuel ≤ more)
    (ended : findClient heap clientAddr fuel pointer = some found) :
    findClient heap clientAddr more pointer = some found := by
  induction fuel generalizing pointer more with
  | zero =>
      cases pointer with
      | none => cases more <;> exact ended
      | some c => cases ended
  | succ fuel ih =>
      obtain ⟨more, rfl⟩ : ∃ less, more = less + 1 := ⟨more - 1, by omega⟩
      cases pointer with
      | none => exact ended
      | some c =>
          rw [findClient] at ended ⊢
          obtain ⟨cell, present, ended⟩ := Option.bind_eq_some_iff.mp ended
          apply Option.bind_eq_some_iff.mpr
          refine ⟨cell, present, ?_⟩
          split_ifs at ended ⊢
          · exact ended
          · exact ih (Nat.le_of_succ_le_succ le) ended

theorem cleanup_cells_more {now : Int} {fuel more : Nat} {table next : ClientTable} {slot : Slot}
    (le : fuel ≤ more) (ended : cleanupCells now fuel table slot = some next) :
    cleanupCells now more table slot = some next := by
  induction fuel generalizing table slot more with
  | zero => cases ended
  | succ fuel ih =>
      obtain ⟨more, rfl⟩ : ∃ less, more = less + 1 := ⟨more - 1, by omega⟩
      have le := Nat.le_of_succ_le_succ le
      rw [cleanupCells] at ended ⊢
      obtain ⟨pointer, held, ended⟩ := Option.bind_eq_some_iff.mp ended
      apply Option.bind_eq_some_iff.mpr
      refine ⟨pointer, held, ?_⟩
      cases pointer with
      | none => exact ended
      | some c =>
          obtain ⟨cell, present, ended⟩ := Option.bind_eq_some_iff.mp ended
          apply Option.bind_eq_some_iff.mpr
          refine ⟨cell, present, ?_⟩
          split_ifs at ended ⊢
          · exact ih le ended
          · exact ih le ended

theorem get_client_more {fuel more : Nat} {table : ClientTable} {clientAddr : SockaddrIn}
    {now : Int} {allocation : Allocation} {result : ClientTable × Option Nat} (le : fuel ≤ more)
    (ended : getClientCell fuel table clientAddr now allocation = some result) :
    getClientCell more table clientAddr now allocation = some result := by
  obtain ⟨found, search, rest⟩ := Option.bind_eq_some_iff.mp ended
  exact Option.bind_eq_some_iff.mpr ⟨found, find_client_more le search, rest⟩

theorem client_tables_good {opened : Nat → Bool} {table : ClientTable}
    (reached : (clientTables opened).Reachable table) : ∃ records, GoodTable table records := by
  apply reached.invariant fun table => ∃ records, GoodTable table records
  · exact ⟨[], rfl, List.nodup_nil, List.nodup_nil, fun _ member => absurd member List.not_mem_nil⟩
  · rintro table action next ⟨records, good⟩ taken
    cases action with
    | getClient fuel clientAddr now allocation =>
        simp only [clientTables] at taken
        split_ifs at taken with fresh
        obtain ⟨result, ended, rfl⟩ := Option.map_eq_some_iff.mp taken
        obtain ⟨after, found, returned, ⟨renewed, goodAfter, _⟩, _⟩ :=
          get_client_cell good clientAddr now fresh (Nat.le_max_left records.length fuel)
        have same := get_client_more (Nat.le_max_right records.length fuel) ended
        rw [returned, Option.some.injEq] at same
        rw [← same]
        exact ⟨renewed, goodAfter⟩
    | cleanup fuel now =>
        have taken : cleanupCells now fuel table .head = some next := taken
        obtain ⟨after, returned, _, kept⟩ :=
          cleanup_cells_swept good now (Nat.lt_succ_of_le (Nat.le_max_left records.length fuel))
        have same := cleanup_cells_more
          (Nat.le_succ_of_le (Nat.le_max_right records.length fuel)) taken
        rw [returned, Option.some.injEq] at same
        exact ⟨_, same ▸ kept⟩

/-- What holds of a table, and what the next call and the next sweep do to it. -/
def TableServes (table : ClientTable) : Prop :=
  ∃ records, GoodTable table records ∧
    (∀ clientAddr now (allocation : Allocation), allocation.Fresh table →
      ∀ fuel, records.length ≤ fuel →
        ∃ next found, getClientCell fuel table clientAddr now allocation = some (next, found) ∧
          GetsClient table records clientAddr now allocation next found) ∧
    ∀ now fuel, records.length < fuel →
      ∃ next, cleanupCells now fuel table .head = some next ∧ Swept table records now next

theorem client_table_serves (opened : Nat → Bool) (table : ClientTable)
    (reached : (clientTables opened).Reachable table) : TableServes table := by
  obtain ⟨records, good⟩ := client_tables_good reached
  refine ⟨records, good, ?_, ?_⟩
  · intro clientAddr now allocation fresh fuel enough
    obtain ⟨next, found, returned, _, gets⟩ := get_client_cell good clientAddr now fresh enough
    exact ⟨next, found, returned, gets⟩
  · intro now fuel enough
    obtain ⟨next, returned, swept, _⟩ := cleanup_cells_swept good now enough
    exact ⟨next, returned, swept⟩

/-- Three clients, of which the sweep takes the first and the last one to come. -/
def threeClients : List TableAction :=
  [.getClient 9 ⟨2, 1, 1⟩ 0 (.socket 10 4), .getClient 9 ⟨2, 2, 1⟩ 50 (.socket 11 5),
    .getClient 9 ⟨2, 3, 1⟩ 0 (.noSocket 12), .getClient 9 ⟨2, 3, 1⟩ 10 (.socket 12 6),
    .cleanup 9 100]

theorem client_table_serves_three_clients :
    ∃ table, (clientTables fun fd => fd < 4).Reachable table ∧
      (table.memory.head == some 11 && !table.opened 4 && table.opened 5 && !table.opened 6) =
        true ∧
      TableServes table := by
  obtain ⟨table, reached, left⟩ :=
    (clientTables fun fd => fd < 4).reachable_of_run threeClients
      (fun table => table.memory.head == some 11 && !table.opened 4 && table.opened 5 &&
        !table.opened 6) (by decide +kernel)
  exact ⟨table, reached, left, client_table_serves (fun fd => fd < 4) table reached⟩

end Testings.XorProxy

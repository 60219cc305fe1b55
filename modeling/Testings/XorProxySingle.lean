import Testings.StepSystem
import Testings.XorProxyClients

/-!
# The proxy with one client

The two threads of `udp_xor_proxy.c` and `udp_xor_proxy.py`, cut at each receive,
each use of the stored client and each send. The programs differ in where they keep
the client and in where they transform the data. The network may lose, repeat and
reorder datagrams; the remote sends nothing before it has received something.
-/

set_option autoImplicit false

namespace Testings.XorProxy

open Python

/-- What one program does where the two differ: `client` is whom a reply goes to. -/
structure SingleProxy (Place : Type) where
  unset : Place
  set : SockaddrIn → Place
  client : Place → Option SockaddrIn
  client_unset : client unset = none
  client_set : ∀ addr, client (set addr) = some addr
  ignores : Bytes → Bool
  onReceive : Bytes → Option Bytes
  onSend : Bytes → Option Bytes

structure StoredClient where
  clientAddr : SockaddrIn
  clientAddrLen : Nat
  deriving DecidableEq

def sockaddrInLen : Nat := 16

/-- `udp_xor_proxy.c`; the state is zeroed at first. -/
def cProxy (key : ProxyKey) : SingleProxy StoredClient where
  unset := ⟨⟨0, 0, 0⟩, 0⟩
  set clientAddr := ⟨clientAddr, sockaddrInLen⟩
  client place := if 0 < place.clientAddrLen then some place.clientAddr else none
  client_unset := rfl
  client_set _ := rfl
  ignores data := data.isEmpty
  onReceive data := (xorBuffer data key).toOption
  onSend data := some data

def pythonProxy (key : Bytes) : SingleProxy (Option SockaddrIn) where
  unset := none
  set clientAddr := some clientAddr
  client place := place
  client_unset := rfl
  client_set _ := rfl
  ignores _ := false
  onReceive data := some data
  onSend data := (xorBytes data key).toOption

/-- `local_to_remote` -/
inductive ThreadOne where
  | receive
  | store (clientAddr : SockaddrIn) (data : Bytes)
  | send (data : Bytes)
  deriving DecidableEq

/-- `remote_to_local` -/
inductive ThreadTwo where
  | receive
  | copy (data : Bytes)
  | answer (client : Option SockaddrIn) (data : Bytes)
  deriving DecidableEq

/-- `forwarded` and `replies` are all datagrams sent to and by the remote so far, and
`clients` the senders of the client datagrams received so far. -/
structure SingleState (Place : Type) where
  place : Place
  one : ThreadOne
  two : ThreadTwo
  forwarded : List Bytes
  heard : Bool
  replies : List Bytes
  clients : List SockaddrIn
  answered : List (SockaddrIn × Bytes)
  dropped : List Bytes

/-- `forward` says whether `sendto` has sent the datagram. -/
inductive SingleAction where
  | request (clientAddr : SockaddrIn) (data : Bytes)
  | store
  | forward (sent : Bool)
  | deliver (data : Bytes)
  | reply (data : Bytes)
  | receive (data : Bytes)
  | copy
  | answer
  deriving DecidableEq

section threads

variable {Place : Type}

def singleStep (proxy : SingleProxy Place) (s : SingleState Place) :
    SingleAction → Option (SingleState Place)
  | .request clientAddr data =>
      match s.one with
      | .receive =>
          if proxy.ignores data then some s
          else (proxy.onReceive data).map fun data =>
            { s with one := .store clientAddr data, clients := s.clients ++ [clientAddr] }
      | _ => none
  | .store =>
      match s.one with
      | .store clientAddr data => some { s with place := proxy.set clientAddr, one := .send data }
      | _ => none
  | .forward sent =>
      match s.one with
      | .send data => (proxy.onSend data).map fun data =>
          { s with
            one := .receive
            forwarded := if sent then s.forwarded ++ [data] else s.forwarded }
      | _ => none
  | .deliver data => if data ∈ s.forwarded then some { s with heard := true } else none
  | .reply data => if s.heard then some { s with replies := s.replies ++ [data] } else none
  | .receive data =>
      match s.two with
      | .receive =>
          if data ∈ s.replies then
            if proxy.ignores data then some s
            else (proxy.onReceive data).map fun data => { s with two := .copy data }
          else none
      | _ => none
  | .copy =>
      match s.two with
      | .copy data => some { s with two := .answer (proxy.client s.place) data }
      | _ => none
  | .answer =>
      match s.two with
      | .answer (some client) data => (proxy.onSend data).map fun data =>
          { s with two := .receive, answered := s.answered ++ [(client, data)] }
      | .answer none data => some { s with two := .receive, dropped := s.dropped ++ [data] }
      | _ => none

def singleThreads (proxy : SingleProxy Place) : StepSystem (SingleState Place) SingleAction where
  start :=
    { place := proxy.unset, one := .receive, two := .receive, forwarded := [], heard := false,
      replies := [], clients := [], answered := [], dropped := [] }
  step := singleStep proxy

inductive SingleStep (proxy : SingleProxy Place) (s : SingleState Place) :
    SingleAction → SingleState Place → Prop where
  | ignored (action : SingleAction) : SingleStep proxy s action s
  | request (clientAddr : SockaddrIn) (data masked : Bytes) (point : s.one = .receive) :
      SingleStep proxy s (.request clientAddr data)
        { s with one := .store clientAddr masked, clients := s.clients ++ [clientAddr] }
  | store (clientAddr : SockaddrIn) (data : Bytes) (point : s.one = .store clientAddr data) :
      SingleStep proxy s .store { s with place := proxy.set clientAddr, one := .send data }
  | forward (sent : Bool) (data masked : Bytes) (point : s.one = .send data) :
      SingleStep proxy s (.forward sent)
        { s with
          one := .receive
          forwarded := if sent then s.forwarded ++ [masked] else s.forwarded }
  | deliver (data : Bytes) (underway : data ∈ s.forwarded) :
      SingleStep proxy s (.deliver data) { s with heard := true }
  | reply (data : Bytes) (heard : s.heard = true) :
      SingleStep proxy s (.reply data) { s with replies := s.replies ++ [data] }
  | receive (data masked : Bytes) (point : s.two = .receive) (underway : data ∈ s.replies) :
      SingleStep proxy s (.receive data) { s with two := .copy masked }
  | copy (data : Bytes) (point : s.two = .copy data) :
      SingleStep proxy s .copy { s with two := .answer (proxy.client s.place) data }
  | answer (client : SockaddrIn) (data masked : Bytes)
      (point : s.two = .answer (some client) data) :
      SingleStep proxy s .answer
        { s with two := .receive, answered := s.answered ++ [(client, masked)] }
  | drop (data : Bytes) (point : s.two = .answer none data) :
      SingleStep proxy s .answer { s with two := .receive, dropped := s.dropped ++ [data] }

theorem single_step_cases {proxy : SingleProxy Place} {s next : SingleState Place}
    {action : SingleAction} (taken : singleStep proxy s action = some next) :
    SingleStep proxy s action next := by
  cases action with
  | request clientAddr data =>
      simp only [singleStep] at taken
      split at taken
      · next point =>
          split_ifs at taken with empty
          · cases taken
            exact .ignored _
          · obtain ⟨masked, _, rfl⟩ := Option.map_eq_some_iff.mp taken
            exact .request clientAddr data masked point
      · cases taken
  | store =>
      simp only [singleStep] at taken
      split at taken
      · next clientAddr data point =>
          cases taken
          exact .store clientAddr data point
      · cases taken
  | forward sent =>
      simp only [singleStep] at taken
      split at taken
      · next data point =>
          obtain ⟨masked, _, rfl⟩ := Option.map_eq_some_iff.mp taken
          exact .forward sent data masked point
      · cases taken
  | deliver data =>
      simp only [singleStep] at taken
      split_ifs at taken with underway
      cases taken
      exact .deliver data underway
  | reply data =>
      simp only [singleStep] at taken
      split_ifs at taken with heard
      cases taken
      exact .reply data heard
  | receive data =>
      simp only [singleStep] at taken
      split at taken
      · next point =>
          split_ifs at taken with underway empty
          · cases taken
            exact .ignored _
          · obtain ⟨masked, _, rfl⟩ := Option.map_eq_some_iff.mp taken
            exact .receive data masked point underway
      · cases taken
  | copy =>
      simp only [singleStep] at taken
      split at taken
      · next data point =>
          cases taken
          exact .copy data point
      · cases taken
  | answer =>
      simp only [singleStep] at taken
      split at taken
      · next client data point =>
          obtain ⟨masked, _, rfl⟩ := Option.map_eq_some_iff.mp taken
          exact .answer client data masked point
      · next data point =>
          cases taken
          exact .drop data point
      · cases taken

/-- The client is stored before anything goes to the remote, and nothing comes from the
remote before that. -/
structure SingleInv (proxy : SingleProxy Place) (s : SingleState Place) : Prop where
  stored : ∀ addr, proxy.client s.place = some addr → addr ∈ s.clients
  storing : ∀ addr data, s.one = .store addr data → addr ∈ s.clients
  sending : ∀ data, s.one = .send data → (proxy.client s.place).isSome = true
  forwarded : s.forwarded ≠ [] → (proxy.client s.place).isSome = true
  heard : s.heard = true → s.forwarded ≠ []
  replies : s.replies ≠ [] → s.heard = true
  pending : s.two ≠ .receive → s.replies ≠ []
  answering : ∀ client data, s.two = .answer client data →
    ∃ addr, client = some addr ∧ addr ∈ s.clients
  answered : ∀ entry ∈ s.answered, entry.1 ∈ s.clients
  dropped : s.dropped = []

section inv

variable {proxy : SingleProxy Place} {s : SingleState Place}

theorem SingleInv.client_of_reply (inv : SingleInv proxy s) (busy : s.two ≠ .receive) :
    ∃ addr, proxy.client s.place = some addr ∧ addr ∈ s.clients := by
  have heard := inv.replies (inv.pending busy)
  obtain ⟨addr, known⟩ := Option.isSome_iff_exists.mp (inv.forwarded (inv.heard heard))
  exact ⟨addr, known, inv.stored addr known⟩

theorem SingleInv.requested (inv : SingleInv proxy s) (clientAddr : SockaddrIn) (data : Bytes) :
    SingleInv proxy
      { s with one := .store clientAddr data, clients := s.clients ++ [clientAddr] } where
  stored := fun addr known => List.mem_append_left _ (inv.stored addr known)
  storing := by
    intro addr stored point
    cases point
    exact List.mem_append_right _ (List.mem_singleton_self _)
  sending := fun _ point => by cases point
  forwarded := inv.forwarded
  heard := inv.heard
  replies := inv.replies
  pending := inv.pending
  answering := by
    intro client stored point
    obtain ⟨addr, same, member⟩ := inv.answering client stored point
    exact ⟨addr, same, List.mem_append_left _ member⟩
  answered := fun entry member => List.mem_append_left _ (inv.answered entry member)
  dropped := inv.dropped

theorem SingleInv.stores (inv : SingleInv proxy s) {clientAddr : SockaddrIn} {data : Bytes}
    (point : s.one = .store clientAddr data) :
    SingleInv proxy { s with place := proxy.set clientAddr, one := .send data } where
  stored := by
    intro addr known
    have same : some clientAddr = some addr := (proxy.client_set clientAddr).symm.trans known
    exact Option.some.inj same ▸ inv.storing clientAddr data point
  storing := fun _ _ point => by cases point
  sending := fun _ _ => by
    change (proxy.client (proxy.set clientAddr)).isSome = true
    rw [proxy.client_set]
    rfl
  forwarded := fun _ => by
    change (proxy.client (proxy.set clientAddr)).isSome = true
    rw [proxy.client_set]
    rfl
  heard := inv.heard
  replies := inv.replies
  pending := inv.pending
  answering := inv.answering
  answered := inv.answered
  dropped := inv.dropped

theorem SingleInv.forwards (inv : SingleInv proxy s) {data : Bytes} (point : s.one = .send data)
    (sent : Bool) (masked : Bytes) :
    SingleInv proxy
      { s with
        one := .receive
        forwarded := if sent then s.forwarded ++ [masked] else s.forwarded } where
  stored := inv.stored
  storing := fun _ _ point => by cases point
  sending := fun _ point => by cases point
  forwarded := fun _ => inv.sending data point
  heard := by
    intro heard
    have some := inv.heard heard
    cases sent with
    | true => exact List.append_ne_nil_of_left_ne_nil some _
    | false => exact some
  replies := inv.replies
  pending := inv.pending
  answering := inv.answering
  answered := inv.answered
  dropped := inv.dropped

theorem SingleInv.second (inv : SingleInv proxy s) {two : ThreadTwo}
    (pending : two ≠ .receive → s.replies ≠ [])
    (answering : ∀ client data, two = .answer client data →
      ∃ addr, client = some addr ∧ addr ∈ s.clients)
    {answered : List (SockaddrIn × Bytes)}
    (served : ∀ entry ∈ answered, entry.1 ∈ s.clients) :
    SingleInv proxy { s with two := two, answered := answered } where
  stored := inv.stored
  storing := inv.storing
  sending := inv.sending
  forwarded := inv.forwarded
  heard := inv.heard
  replies := inv.replies
  pending := pending
  answering := answering
  answered := served
  dropped := inv.dropped

theorem single_inv_step {next : SingleState Place} {action : SingleAction}
    (inv : SingleInv proxy s) (taken : singleStep proxy s action = some next) :
    SingleInv proxy next := by
  cases single_step_cases taken with
  | ignored => exact inv
  | request clientAddr data masked point => exact inv.requested clientAddr masked
  | store clientAddr data point => exact inv.stores point
  | forward sent data masked point => exact inv.forwards point sent masked
  | deliver data underway =>
      exact { inv with
        heard := fun _ => List.ne_nil_of_mem underway
        replies := fun _ => rfl }
  | reply data heard =>
      exact { inv with
        replies := fun _ => heard
        pending := fun _ => List.concat_ne_nil _ _ }
  | receive data masked point underway =>
      exact inv.second (fun _ => List.ne_nil_of_mem underway) (fun _ _ point => by cases point)
        inv.answered
  | copy data point =>
      have busy : s.two ≠ .receive := by
        intro idle
        rw [point] at idle
        cases idle
      apply inv.second (fun _ => inv.pending busy) _ inv.answered
      intro client copied same
      obtain ⟨addr, known, member⟩ := inv.client_of_reply busy
      cases same
      exact ⟨addr, known, member⟩
  | answer client data masked point =>
      apply inv.second (fun idle => absurd rfl idle) (fun _ _ point => by cases point)
      intro entry member
      cases List.mem_append.mp member with
      | inl old => exact inv.answered entry old
      | inr new =>
          obtain ⟨addr, same, known⟩ := inv.answering _ _ point
          rw [List.mem_singleton.mp new, Option.some.inj same]
          exact known
  | drop data point =>
      obtain ⟨addr, same, _⟩ := inv.answering _ _ point
      cases same

theorem single_inv_start : SingleInv proxy (singleThreads proxy).start where
  stored := fun addr known => by
    have unset : none = some addr := proxy.client_unset.symm.trans known
    cases unset
  storing := fun _ _ point => by cases point
  sending := fun _ point => by cases point
  forwarded := fun some => absurd rfl some
  heard := fun heard => by cases heard
  replies := fun some => absurd rfl some
  pending := fun busy => absurd rfl busy
  answering := fun _ _ point => by cases point
  answered := fun _ member => absurd member List.not_mem_nil
  dropped := rfl

end inv

/-- No reply is dropped or about to be, each goes to a sender of a client datagram
received before, and to the only one if there is only one. -/
structure RepliesHaveClients (s : SingleState Place) : Prop where
  dropped : s.dropped = []
  answering : ∀ client data, s.two = .answer client data →
    ∃ addr, client = some addr ∧ addr ∈ s.clients
  answered : ∀ entry ∈ s.answered, entry.1 ∈ s.clients
  oneClient : ∀ addr, (∀ client ∈ s.clients, client = addr) →
    ∀ entry ∈ s.answered, entry.1 = addr

theorem replies_have_clients {proxy : SingleProxy Place} {s : SingleState Place}
    (reached : (singleThreads proxy).Reachable s) : RepliesHaveClients s := by
  have inv : SingleInv proxy s :=
    reached.invariant (SingleInv proxy) single_inv_start fun _ _ _ => single_inv_step
  exact ⟨inv.dropped, inv.answering, inv.answered,
    fun addr one entry member => one entry.1 (inv.answered entry member)⟩

end threads

theorem single_proxies_answer (keyArg : KeyString) :
    (∀ s, (singleThreads (cProxy (proxyKey keyArg))).Reachable s → RepliesHaveClients s) ∧
      ∀ s, (singleThreads (pythonProxy keyArg.bytes)).Reachable s → RepliesHaveClients s :=
  ⟨fun _ => replies_have_clients, fun _ => replies_have_clients⟩

def oneExchange : List SingleAction :=
  [.request ⟨2, 1, 1⟩ [0x01], .store, .forward true, .deliver [0x6A], .reply [0x68],
    .receive [0x68], .copy, .answer]

theorem single_proxies_answer_one_exchange :
    (∃ s, (singleThreads (cProxy (proxyKey ⟨[0x6B], by decide⟩))).Reachable s ∧
      decide (s.answered = [(⟨2, 1, 1⟩, [0x03])]) = true ∧ RepliesHaveClients s) ∧
      ∃ s, (singleThreads (pythonProxy [0x6B])).Reachable s ∧
        decide (s.answered = [(⟨2, 1, 1⟩, [0x03])]) = true ∧ RepliesHaveClients s := by
  obtain ⟨c, python⟩ := single_proxies_answer ⟨[0x6B], by decide⟩
  obtain ⟨s, reached, sent⟩ :=
    (singleThreads (cProxy (proxyKey ⟨[0x6B], by decide⟩))).reachable_of_run oneExchange
      (fun s => decide (s.answered = [(⟨2, 1, 1⟩, [0x03])])) (by decide +kernel)
  obtain ⟨t, reached', sent'⟩ :=
    (singleThreads (pythonProxy [0x6B])).reachable_of_run oneExchange
      (fun s => decide (s.answered = [(⟨2, 1, 1⟩, [0x03])])) (by decide +kernel)
  exact ⟨⟨s, reached, sent, c s reached⟩, t, reached', sent', python t reached'⟩

end Testings.XorProxy

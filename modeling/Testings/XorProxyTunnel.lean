import Testings.CyclicWords
import Testings.XorProxySingle

/-!
# Two proxies end to end

A near proxy whose remote is the listening socket of a far proxy, each of them
`udp_xor_proxy.c` or `udp_xor_proxy.py` with a key of its own. The network between them may
lose, repeat and reorder datagrams; clients and the server behind the far proxy send what they
like. The tunnel is transparent when everything that comes out at one end went in at the other.
-/

set_option autoImplicit false

namespace Testings.XorProxy

open Python CyclicWords

section relay

variable {Place : Type}

/-- `none` for a datagram that is ignored or faults. -/
def relay (proxy : SingleProxy Place) (data : Bytes) : Option Bytes :=
  if proxy.ignores data then none else (proxy.onReceive data).bind proxy.onSend

/-- A datagram of the log, as the thread holds it between receiving and sending. -/
def TakenFrom (proxy : SingleProxy Place) (log : List Bytes) (held : Bytes) : Prop :=
  ∃ data ∈ log, proxy.ignores data = false ∧ proxy.onReceive data = some held

def Relayed (proxy : SingleProxy Place) (log : List Bytes) (out : Bytes) : Prop :=
  ∃ data ∈ log, relay proxy data = some out

/-- Whatever a proxy holds or has sent comes from a datagram it has received. -/
structure Relays (proxy : SingleProxy Place) (requests : List Bytes) (s : SingleState Place) :
    Prop where
  storing : ∀ addr held, s.one = .store addr held → TakenFrom proxy requests held
  sending : ∀ held, s.one = .send held → TakenFrom proxy requests held
  forwarded : ∀ out ∈ s.forwarded, Relayed proxy requests out
  copying : ∀ held, s.two = .copy held → TakenFrom proxy s.replies held
  answering : ∀ client held, s.two = .answer client held → TakenFrom proxy s.replies held
  answered : ∀ entry ∈ s.answered, Relayed proxy s.replies entry.2

variable {proxy : SingleProxy Place} {requests : List Bytes} {s : SingleState Place}

theorem TakenFrom.mono {log later : List Bytes} {held : Bytes} (taken : TakenFrom proxy log held)
    (grown : log ⊆ later) : TakenFrom proxy later held := by
  rcases taken with ⟨data, member, kept⟩
  exact ⟨data, grown member, kept⟩

theorem Relayed.mono {log later : List Bytes} {out : Bytes} (relayed : Relayed proxy log out)
    (grown : log ⊆ later) : Relayed proxy later out := by
  rcases relayed with ⟨data, member, same⟩
  exact ⟨data, grown member, same⟩

theorem TakenFrom.sent {log : List Bytes} {held out : Bytes} (taken : TakenFrom proxy log held)
    (masked : proxy.onSend held = some out) : Relayed proxy log out := by
  rcases taken with ⟨data, member, kept, received⟩
  refine ⟨data, member, ?_⟩
  rw [relay, kept, received]
  exact masked

theorem taken_from_received {log : List Bytes} {data held : Bytes} (member : data ∈ log)
    (kept : ¬proxy.ignores data = true) (received : proxy.onReceive data = some held) :
    TakenFrom proxy log held :=
  ⟨data, member, Bool.eq_false_iff.mpr kept, received⟩

theorem Relays.mono (inv : Relays proxy requests s) {later : List Bytes}
    (grown : requests ⊆ later) : Relays proxy later s where
  storing := fun addr held point => (inv.storing addr held point).mono grown
  sending := fun held point => (inv.sending held point).mono grown
  forwarded := fun out member => (inv.forwarded out member).mono grown
  copying := inv.copying
  answering := inv.answering
  answered := inv.answered

/-- The first thread moves. -/
theorem Relays.first (inv : Relays proxy requests s) {one : ThreadOne} {place : Place}
    {clients : List SockaddrIn} {forwarded : List Bytes}
    (storing : ∀ addr held, one = .store addr held → TakenFrom proxy requests held)
    (sending : ∀ held, one = .send held → TakenFrom proxy requests held)
    (relayed : ∀ out ∈ forwarded, Relayed proxy requests out) :
    Relays proxy requests
      { s with one := one, place := place, clients := clients, forwarded := forwarded } where
  storing := storing
  sending := sending
  forwarded := relayed
  copying := inv.copying
  answering := inv.answering
  answered := inv.answered

/-- The second thread moves. -/
theorem Relays.second (inv : Relays proxy requests s) {two : ThreadTwo}
    {answered : List (SockaddrIn × Bytes)} {dropped : List Bytes}
    (copying : ∀ held, two = .copy held → TakenFrom proxy s.replies held)
    (answering : ∀ client held, two = .answer client held → TakenFrom proxy s.replies held)
    (relayed : ∀ entry ∈ answered, Relayed proxy s.replies entry.2) :
    Relays proxy requests { s with two := two, answered := answered, dropped := dropped } where
  storing := inv.storing
  sending := inv.sending
  forwarded := inv.forwarded
  copying := copying
  answering := answering
  answered := relayed

theorem Relays.replied (inv : Relays proxy requests s) (data : Bytes) :
    Relays proxy requests { s with replies := s.replies ++ [data] } where
  storing := inv.storing
  sending := inv.sending
  forwarded := inv.forwarded
  copying := fun held point => (inv.copying held point).mono (List.subset_append_left _ _)
  answering := fun client held point =>
    (inv.answering client held point).mono (List.subset_append_left _ _)
  answered := fun entry member => (inv.answered entry member).mono (List.subset_append_left _ _)

theorem relays_step {next : SingleState Place} {action : SingleAction}
    (inv : Relays proxy requests s)
    (logged : ∀ addr data, action = .request addr data → data ∈ requests)
    (taken : singleStep proxy s action = some next) : Relays proxy requests next := by
  cases action with
  | request clientAddr data =>
      simp only [singleStep] at taken
      split at taken
      · split_ifs at taken with ignored
        · cases taken
          exact inv
        · rcases Option.map_eq_some_iff.mp taken with ⟨held, received, rfl⟩
          have kept := taken_from_received (logged clientAddr data rfl) ignored received
          apply inv.first _ (fun _ point => by cases point) inv.forwarded
          intro addr stored point
          cases point
          exact kept
      · cases taken
  | store =>
      simp only [singleStep] at taken
      split at taken
      · next clientAddr data point =>
          cases taken
          apply inv.first (fun _ _ point => by cases point) _ inv.forwarded
          intro held same
          cases same
          exact inv.storing clientAddr data point
      · cases taken
  | forward sent =>
      simp only [singleStep] at taken
      split at taken
      · next data point =>
          rcases Option.map_eq_some_iff.mp taken with ⟨out, masked, rfl⟩
          apply inv.first (fun _ _ point => by cases point) (fun _ point => by cases point)
          intro other member
          cases sent with
          | false => exact inv.forwarded other member
          | true =>
              rcases List.mem_append.mp member with old | new
              · exact inv.forwarded other old
              · rw [List.mem_singleton.mp new]
                exact (inv.sending data point).sent masked
      · cases taken
  | deliver data =>
      simp only [singleStep] at taken
      split_ifs at taken
      cases taken
      exact { inv with }
  | reply data =>
      simp only [singleStep] at taken
      split_ifs at taken
      cases taken
      exact inv.replied data
  | receive data =>
      simp only [singleStep] at taken
      split at taken
      · split_ifs at taken with underway ignored
        · cases taken
          exact inv
        · rcases Option.map_eq_some_iff.mp taken with ⟨held, received, rfl⟩
          have kept := taken_from_received underway ignored received
          apply inv.second _ (fun _ _ point => by cases point) inv.answered
          intro copied same
          cases same
          exact kept
      · cases taken
  | copy =>
      simp only [singleStep] at taken
      split at taken
      · next data point =>
          cases taken
          apply inv.second (fun _ point => by cases point) _ inv.answered
          intro client held same
          cases same
          exact inv.copying data point
      · cases taken
  | answer =>
      simp only [singleStep] at taken
      split at taken
      · next client data point =>
          rcases Option.map_eq_some_iff.mp taken with ⟨out, masked, rfl⟩
          apply inv.second (fun _ point => by cases point) (fun _ _ point => by cases point)
          intro entry member
          rcases List.mem_append.mp member with old | new
          · exact inv.answered entry old
          · rw [List.mem_singleton.mp new]
            exact (inv.answering _ data point).sent masked
      · cases taken
        exact inv.second (fun _ point => by cases point) (fun _ _ point => by cases point)
          inv.answered
      · cases taken

theorem relays_start : Relays proxy requests (singleThreads proxy).start where
  storing := fun _ _ point => by cases point
  sending := fun _ point => by cases point
  forwarded := fun _ member => absurd member List.not_mem_nil
  copying := fun _ point => by cases point
  answering := fun _ _ point => by cases point
  answered := fun _ member => absurd member List.not_mem_nil

end relay

/-- `sent` are all datagrams clients have sent to the near proxy. -/
structure Tunnel (Near Far : Type) where
  near : SingleState Near
  far : SingleState Far
  sent : List Bytes

/-- `carry` and `bring` take a datagram from one proxy to the other; `near` and `far` are what
a proxy does by itself, the far one also what it exchanges with the server. -/
inductive TunnelAction where
  | client (clientAddr : SockaddrIn) (data : Bytes)
  | carry (data : Bytes)
  | bring (data : Bytes)
  | near (action : SingleAction)
  | far (action : SingleAction)
  deriving DecidableEq

def SingleAction.fromClient : SingleAction → Bool
  | .request _ _ => true
  | _ => false

def SingleAction.withRemote : SingleAction → Bool
  | .deliver _ | .reply _ => true
  | _ => false

section tunnel

variable {Near Far : Type}

/-- `nearAddr` is the address of the near proxy's upstream socket. -/
def tunnelStep (nearProxy : SingleProxy Near) (farProxy : SingleProxy Far)
    (nearAddr : SockaddrIn) (s : Tunnel Near Far) : TunnelAction → Option (Tunnel Near Far)
  | .client clientAddr data =>
      (singleStep nearProxy s.near (.request clientAddr data)).map fun near =>
        { s with near := near, sent := s.sent ++ [data] }
  | .carry data =>
      (singleStep nearProxy s.near (.deliver data)).bind fun near =>
        (singleStep farProxy s.far (.request nearAddr data)).map fun far =>
          { s with near := near, far := far }
  | .bring data =>
      if (nearAddr, data) ∈ s.far.answered then
        (singleStep nearProxy s.near (.reply data)).map fun near => { s with near := near }
      else none
  | .near action =>
      if action.fromClient || action.withRemote then none
      else (singleStep nearProxy s.near action).map fun near => { s with near := near }
  | .far action =>
      if action.fromClient then none
      else (singleStep farProxy s.far action).map fun far => { s with far := far }

def tunnel (nearProxy : SingleProxy Near) (farProxy : SingleProxy Far) (nearAddr : SockaddrIn) :
    StepSystem (Tunnel Near Far) TunnelAction where
  start :=
    { near := (singleThreads nearProxy).start
      far := (singleThreads farProxy).start
      sent := [] }
  step := tunnelStep nearProxy farProxy nearAddr

/-- What reaches the server was sent by a client, and what reaches a client by the server. -/
def Transparent (s : Tunnel Near Far) : Prop :=
  (∀ out ∈ s.far.forwarded, out ∈ s.sent) ∧ ∀ entry ∈ s.near.answered, entry.2 ∈ s.far.replies

structure TunnelInv (nearProxy : SingleProxy Near) (farProxy : SingleProxy Far)
    (s : Tunnel Near Far) : Prop where
  near : Relays nearProxy s.sent s.near
  far : Relays farProxy s.near.forwarded s.far
  brought : ∀ data ∈ s.near.replies, ∃ entry ∈ s.far.answered, entry.2 = data

variable {nearProxy : SingleProxy Near} {farProxy : SingleProxy Far} {nearAddr : SockaddrIn}
  {s : Tunnel Near Far}

/-- A proxy forgets nothing it has forwarded or answered. -/
theorem single_step_grows {Place : Type} {proxy : SingleProxy Place} {s next : SingleState Place}
    {action : SingleAction} (taken : singleStep proxy s action = some next) :
    s.forwarded ⊆ next.forwarded ∧ s.answered ⊆ next.answered := by
  cases single_step_cases taken with
  | forward sent data masked point =>
      constructor
      · cases sent with
        | false => exact List.Subset.refl _
        | true => exact List.subset_append_left _ _
      · exact List.Subset.refl _
  | answer client data masked point =>
      exact ⟨List.Subset.refl _, List.subset_append_left _ _⟩
  | _ => exact ⟨List.Subset.refl _, List.Subset.refl _⟩

/-- Only a reply of the remote adds to the replies. -/
theorem single_step_replies {Place : Type} {proxy : SingleProxy Place} {s next : SingleState Place}
    {action : SingleAction} (taken : singleStep proxy s action = some next) :
    next.replies = s.replies ∨
      ∃ data, action = .reply data ∧ next.replies = s.replies ++ [data] := by
  cases single_step_cases taken with
  | reply data heard => exact .inr ⟨data, rfl, rfl⟩
  | _ => exact .inl rfl

theorem TunnelInv.near_moved (inv : TunnelInv nearProxy farProxy s) {near : SingleState Near}
    {action : SingleAction} (kept : action.withRemote = false)
    (logged : ∀ addr data, action = .request addr data → data ∈ s.sent)
    (taken : singleStep nearProxy s.near action = some near) :
    TunnelInv nearProxy farProxy { s with near := near } where
  near := relays_step inv.near logged taken
  far := inv.far.mono (single_step_grows taken).1
  brought := by
    rcases single_step_replies taken with same | ⟨data, reply, _⟩
    · change ∀ data ∈ near.replies, ∃ entry ∈ s.far.answered, entry.2 = data
      rw [same]
      exact inv.brought
    · rw [reply] at kept
      cases kept

theorem TunnelInv.far_moved (inv : TunnelInv nearProxy farProxy s) {far : SingleState Far}
    {action : SingleAction}
    (logged : ∀ addr data, action = .request addr data → data ∈ s.near.forwarded)
    (taken : singleStep farProxy s.far action = some far) :
    TunnelInv nearProxy farProxy { s with far := far } where
  near := inv.near
  far := relays_step inv.far logged taken
  brought := by
    intro data member
    rcases inv.brought data member with ⟨entry, answered, same⟩
    exact ⟨entry, (single_step_grows taken).2 answered, same⟩

theorem tunnel_step_inv {next : Tunnel Near Far} {action : TunnelAction}
    (inv : TunnelInv nearProxy farProxy s)
    (taken : tunnelStep nearProxy farProxy nearAddr s action = some next) :
    TunnelInv nearProxy farProxy next := by
  cases action with
  | client clientAddr data =>
      rcases Option.map_eq_some_iff.mp taken with ⟨near, moved, rfl⟩
      have sent : TunnelInv nearProxy farProxy { s with sent := s.sent ++ [data] } :=
        { near := inv.near.mono (List.subset_append_left _ _), far := inv.far,
          brought := inv.brought }
      apply sent.near_moved rfl _ moved
      intro addr other same
      cases same
      exact List.mem_append_right _ (List.mem_singleton_self _)
  | carry data =>
      rcases Option.bind_eq_some_iff.mp taken with ⟨near, delivered, moved⟩
      rcases Option.map_eq_some_iff.mp moved with ⟨far, received, rfl⟩
      simp only [singleStep] at delivered
      split_ifs at delivered with underway
      cases delivered
      have heard : TunnelInv nearProxy farProxy { s with near := { s.near with heard := true } } :=
        { near := { inv.near with }, far := inv.far, brought := inv.brought }
      apply heard.far_moved _ received
      intro addr other same
      cases same
      exact underway
  | bring data =>
      simp only [tunnelStep] at taken
      split_ifs at taken with answered
      rcases Option.map_eq_some_iff.mp taken with ⟨near, moved, rfl⟩
      simp only [singleStep] at moved
      split_ifs at moved
      cases moved
      refine { near := inv.near.replied data, far := inv.far, brought := ?_ }
      intro other member
      rcases List.mem_append.mp member with old | new
      · exact inv.brought other old
      · rw [List.mem_singleton.mp new]
        exact ⟨_, answered, rfl⟩
  | near action =>
      simp only [tunnelStep] at taken
      split_ifs at taken with foreign
      rcases Option.map_eq_some_iff.mp taken with ⟨near, moved, rfl⟩
      rw [Bool.or_eq_true, not_or, Bool.not_eq_true, Bool.not_eq_true] at foreign
      apply inv.near_moved foreign.2 _ moved
      intro addr data same
      rw [same] at foreign
      cases foreign.1
  | far action =>
      simp only [tunnelStep] at taken
      split_ifs at taken with foreign
      rcases Option.map_eq_some_iff.mp taken with ⟨far, moved, rfl⟩
      apply inv.far_moved _ moved
      intro addr data same
      rw [same] at foreign
      exact absurd rfl foreign

theorem reachable_tunnel_inv (reached : (tunnel nearProxy farProxy nearAddr).Reachable s) :
    TunnelInv nearProxy farProxy s := by
  apply reached.invariant (TunnelInv nearProxy farProxy)
  · exact { near := relays_start, far := relays_start, brought := nofun }
  · intro state action next before taken
    exact tunnel_step_inv before taken

/-- What comes out of either end has been through both proxies. -/
theorem TunnelInv.both_ways (inv : TunnelInv nearProxy farProxy s) :
    (∀ out ∈ s.far.forwarded, ∃ data ∈ s.sent, ∃ masked,
        relay nearProxy data = some masked ∧ relay farProxy masked = some out) ∧
      ∀ entry ∈ s.near.answered, ∃ data ∈ s.far.replies, ∃ masked,
        relay farProxy data = some masked ∧ relay nearProxy masked = some entry.2 := by
  constructor
  · intro out member
    rcases inv.far.forwarded out member with ⟨masked, underway, second⟩
    rcases inv.near.forwarded masked underway with ⟨data, sent, first⟩
    exact ⟨data, sent, masked, first, second⟩
  · intro entry member
    rcases inv.near.answered entry member with ⟨masked, underway, second⟩
    rcases inv.brought masked underway with ⟨answer, answered, rfl⟩
    rcases inv.far.answered answer answered with ⟨data, replied, first⟩
    exact ⟨data, replied, answer.2, first, second⟩

end tunnel

/-- The programs with one client. -/
inductive Program where
  | c
  | python
  deriving DecidableEq

def Program.Place : Program → Type
  | .c => StoredClient
  | .python => Option SockaddrIn

def Program.proxy : (program : Program) → KeyString → SingleProxy program.Place
  | .c, keyArg => cProxy (proxyKey keyArg)
  | .python, keyArg => pythonProxy keyArg.bytes

/-- What fits into the key buffer of `udp_xor_proxy.c`. -/
def KeyString.truncated (keyArg : KeyString) : KeyString where
  bytes := keyArg.bytes.take (keySize - 1)
  noNul byte member := keyArg.noNul byte (List.mem_of_mem_take member)

/-- The key a program works with. -/
def Program.keyUsed : Program → KeyString → Bytes
  | .c, keyArg => keyArg.truncated.bytes
  | .python, keyArg => keyArg.bytes

/-- A proxy that lays the repetition of a key over whatever it relays. -/
structure Masks {Place : Type} (proxy : SingleProxy Place) (key : Bytes) : Prop where
  nonempty : key ≠ []
  received : ∀ data ≠ [], proxy.ignores data = false ∧ ∃ held, proxy.onReceive data = some held ∧
    proxy.onSend held = some (mask (keyStream key) 0 data)
  only : ∀ data out, relay proxy data = some out → out = mask (keyStream key) 0 data

theorem proxy_key_truncated (keyArg : KeyString) : proxyKey keyArg.truncated = proxyKey keyArg := by
  have same : keyArray keyArg.truncated = keyArray keyArg := by
    simp only [keyArray, KeyString.truncated, List.take_take, Nat.min_self]
  rw [proxyKey, proxyKey, same]

theorem c_xor_buffer {keyArg : KeyString} (some : keyArg.bytes ≠ []) (data : Bytes) :
    xorBuffer data (proxyKey keyArg) = .ok (mask (keyStream keyArg.truncated.bytes) 0 data) := by
  have length : keyArg.truncated.bytes.length ≤ 255 := List.length_take_le _ _
  have nonempty : keyArg.truncated.bytes ≠ [] := by
    intro empty
    have none := congrArg List.length empty
    have positive := List.length_pos_of_ne_nil some
    rw [KeyString.truncated, copied_length, List.length_nil] at none
    omega
  rw [← proxy_key_truncated]
  exact xor_from_mask data 0 fun j _ => proxy_key_byte nonempty (.inl length)

theorem python_xor_bytes {key : Bytes} (some : key ≠ []) (data : Bytes) :
    xorBytes data key = .ok (mask (keyStream key) 0 data) := by
  rw [xorBytes, if_neg some, xor_enumerate_mask some]

theorem Program.masks (program : Program) {keyArg : KeyString} (some : keyArg.bytes ≠ []) :
    Masks (program.proxy keyArg) (program.keyUsed keyArg) := by
  cases program with
  | c =>
      have masked := c_xor_buffer some
      refine { nonempty := ?_, received := ?_, only := ?_ }
      · intro empty
        have taken : keyArg.bytes.take (keySize - 1) = [] := empty
        rcases List.take_eq_nil_iff.mp taken with none | none
        · cases none
        · exact some none
      · intro data filled
        have kept : data.isEmpty = false := by
          rw [Bool.eq_false_iff]
          intro empty
          exact filled (List.isEmpty_iff.mp empty)
        refine ⟨kept, mask (keyStream keyArg.truncated.bytes) 0 data, ?_, rfl⟩
        change (xorBuffer data (proxyKey keyArg)).toOption = _
        rw [masked]
        rfl
      · intro data out relayed
        change (if data.isEmpty then none
          else ((xorBuffer data (proxyKey keyArg)).toOption).bind Option.some) = Option.some out
          at relayed
        split_ifs at relayed
        rw [masked] at relayed
        cases relayed
        rfl
  | python =>
      have masked := python_xor_bytes some
      refine { nonempty := some, received := ?_, only := ?_ }
      · intro data _
        refine ⟨rfl, data, rfl, ?_⟩
        change (xorBytes data keyArg.bytes).toOption = _
        rw [masked]
        rfl
      · intro data out relayed
        change (xorBytes data keyArg.bytes).toOption = Option.some out at relayed
        rw [masked] at relayed
        cases relayed
        rfl

/-- Two masks undo each other on every datagram exactly when they are one mask. -/
theorem masks_cancel_iff (first second : Nat → BitVec 8) :
    (∀ data ≠ [], mask second 0 (mask first 0 data) = data) ↔ ∀ i, first i = second i := by
  constructor
  · intro cancel i
    have zeros := cancel (List.replicate (i + 1) 0) (by simp)
    have byte := congrArg (·[i]?) zeros
    simp only [mask_get, List.getElem?_replicate, if_pos (Nat.lt_succ_self i), Option.map_some,
      Nat.zero_add, Option.some_inj] at byte
    exact BitVec.xor_eq_zero_iff.mp ((congrArg (· ^^^ second i) BitVec.zero_xor).symm.trans byte)
  · intro same data _
    have equal : first = second := funext same
    rw [equal, mask_mask]

theorem key_streams_eq_iff {first second : Bytes} (some : first ≠ []) (other : second ≠ []) :
    (∀ i, keyStream first i = keyStream second i) ↔ first ++ second = second ++ first := by
  have letter (key : Bytes) (nonempty : key ≠ []) (i : Nat) :
      cyclic key i = Option.some (keyStream key i) := by
    have inside := Nat.mod_lt i (List.length_pos_of_ne_nil nonempty)
    rw [cyclic, key_stream_eq inside, List.getElem?_eq_getElem inside]
  rw [← cyclic_eq_iff_comm some other]
  apply forall_congr'
  intro i
  rw [letter first some, letter second other, Option.some_inj]

section transparent

variable {Near Far : Type} {nearProxy : SingleProxy Near} {farProxy : SingleProxy Far}
  {nearKey farKey : Bytes} {nearAddr : SockaddrIn}

theorem transparent_of_masks (nearMasks : Masks nearProxy nearKey)
    (farMasks : Masks farProxy farKey)
    (same : ∀ i, keyStream nearKey i = keyStream farKey i) {s : Tunnel Near Far}
    (reached : (tunnel nearProxy farProxy nearAddr).Reachable s) : Transparent s := by
  have equal : keyStream nearKey = keyStream farKey := funext same
  have ways := (reachable_tunnel_inv reached).both_ways
  constructor
  · intro out member
    rcases ways.1 out member with ⟨data, sent, masked, first, second⟩
    rw [farMasks.only masked out second, nearMasks.only data masked first, equal, mask_mask]
    exact sent
  · intro entry member
    rcases ways.2 entry member with ⟨data, replied, masked, first, second⟩
    rw [nearMasks.only masked entry.2 second, farMasks.only data masked first, equal, mask_mask]
    exact replied

variable (nearAddr) in
/-- A datagram of a client goes all the way, with both masks laid over it. -/
theorem tunnel_carries (nearMasks : Masks nearProxy nearKey) (farMasks : Masks farProxy farKey)
    {data : Bytes} (filled : data ≠ []) (clientAddr : SockaddrIn) {s : Tunnel Near Far}
    (nearIdle : s.near.one = .receive) (farIdle : s.far.one = .receive) :
    ∃ actions final, (tunnel nearProxy farProxy nearAddr).runFrom s actions = some final ∧
      final.near.one = .receive ∧ final.far.one = .receive ∧
      final.sent = s.sent ++ [data] ∧
      final.far.forwarded = s.far.forwarded ++
        [mask (keyStream farKey) 0 (mask (keyStream nearKey) 0 data)] := by
  have filledToo : mask (keyStream nearKey) 0 data ≠ [] := by
    intro empty
    have none := congrArg List.length empty
    rw [mask_length] at none
    exact filled (List.eq_nil_of_length_eq_zero none)
  rcases nearMasks.received data filled with ⟨nearKept, nearHeld, nearReceived, nearSent⟩
  rcases farMasks.received _ filledToo with ⟨farKept, farHeld, farReceived, farSent⟩
  refine ⟨[.client clientAddr data, .near .store, .near (.forward true),
    .carry (mask (keyStream nearKey) 0 data), .far .store, .far (.forward true)], ?_⟩
  simp [StepSystem.runFrom, tunnel, tunnelStep, singleStep, SingleAction.fromClient,
    SingleAction.withRemote, nearIdle, farIdle, nearKept, nearReceived, nearSent, farKept,
    farReceived, farSent]

end transparent

/-- With the keys as the two programs use them, the tunnel is transparent in every run exactly
when the keys commute under concatenation. -/
theorem tunnel_transparent_iff (near far : Program) (nearKey farKey : KeyString)
    (nearAddr : SockaddrIn) (nearSome : nearKey.bytes ≠ []) (farSome : farKey.bytes ≠ []) :
    (∀ s, (tunnel (near.proxy nearKey) (far.proxy farKey) nearAddr).Reachable s →
        Transparent s) ↔
      near.keyUsed nearKey ++ far.keyUsed farKey = far.keyUsed farKey ++ near.keyUsed nearKey := by
  have nearMasks := near.masks nearSome
  have farMasks := far.masks farSome
  rw [← key_streams_eq_iff nearMasks.nonempty farMasks.nonempty]
  constructor
  · intro transparent
    apply (masks_cancel_iff _ _).mp
    intro data filled
    rcases tunnel_carries nearAddr nearMasks farMasks filled nearAddr
      (s := (tunnel (near.proxy nearKey) (far.proxy farKey) nearAddr).start) rfl rfl with
      ⟨actions, final, run, _, _, sent, forwarded⟩
    have known := (transparent final ⟨actions, run⟩).1 _ (by
      rw [forwarded]
      exact List.mem_append_right _ (List.mem_singleton_self _))
    rw [sent] at known
    exact List.mem_singleton.mp known
  · intro same s reached
    exact transparent_of_masks nearMasks farMasks same reached

/-- A key and the same key twice will do; a key and its start will not. -/
theorem tunnel_transparent_iff_two_keys :
    (∀ s, (tunnel (Program.c.proxy ⟨[7, 9], by decide⟩)
        (Program.python.proxy ⟨[7, 9, 7, 9], by decide⟩) ⟨2, 1, 1⟩).Reachable s →
        Transparent s) ∧
      ¬∀ s, (tunnel (Program.c.proxy ⟨[7, 9], by decide⟩)
        (Program.python.proxy ⟨[7, 9, 7], by decide⟩) ⟨2, 1, 1⟩).Reachable s →
        Transparent s := by
  constructor
  · exact (tunnel_transparent_iff .c .python ⟨[7, 9], by decide⟩ ⟨[7, 9, 7, 9], by decide⟩
      ⟨2, 1, 1⟩ (by simp) (by simp)).mpr (by decide)
  · intro transparent
    have comm := (tunnel_transparent_iff .c .python ⟨[7, 9], by decide⟩ ⟨[7, 9, 7], by decide⟩
      ⟨2, 1, 1⟩ (by simp) (by simp)).mp transparent
    exact absurd comm (by decide)

end Testings.XorProxy

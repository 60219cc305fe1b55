import Testings.ErrExit
import Testings.StepSystem

/-!
# Network namespaces with a veth or a physical interface

The commands `up` and `down` of `netns_multi.sh` on a host: its namespaces, the
routes and the NAT rules that the script adds. `ip`, `iptables` and `kill` do
what they are asked; what else a command depends on is an answer given to it.
Routes inside a namespace, its DNS files and the copies of the VPN
configurations are left out.
-/

set_option autoImplicit false

namespace Testings.Netns

open ErrExit

abbrev Name := List Char

structure Interface where
  name : Name
  /-- Whether `wg show interfaces` lists it. -/
  wireguard : Bool
  deriving DecidableEq

/-- `network` is the `N` of the address `10.200.N.2/30` of the veth inside. -/
structure Namespace where
  name : Name
  interfaces : List Interface
  network : Option Nat
  deriving DecidableEq

/-- The routes to `10.200.N.0/30` with their devices, and the `N` of the
MASQUERADE rules from `10.200.N.0/30`. -/
structure Host where
  namespaces : List Namespace
  routes : List (Nat × Name)
  masquerade : List Nat
  deriving DecidableEq

def veth (ns : Name) : Name := "veth-".toList ++ ns

def peer (ns : Name) : Name := veth ns ++ "-host".toList

def ipNetnsAdd (ns : Name) (host : Host) : Host :=
  { host with
    namespaces := { name := ns, interfaces := [⟨"lo".toList, false⟩], network := none } ::
      host.namespaces }

def hasVeth (ns : Name) (host : Host) : Bool :=
  host.namespaces.any fun m => m.name == ns && m.network.isSome

/-- The namespace goes with its end of the veth pair, if it has one, and so
does the other end. -/
def ipNetnsDel (ns : Name) (host : Host) : Host :=
  { host with
    namespaces := host.namespaces.filter fun m => m.name ≠ ns
    routes := if hasVeth ns host then host.routes.filter fun route => route.2 ≠ peer ns
      else host.routes }

def inNamespace (ns : Name) (change : Namespace → Namespace) (host : Host) : Host :=
  { host with namespaces := host.namespaces.map fun m => if m.name = ns then change m else m }

def addInterface (ns : Name) (interface : Interface) : Host → Host :=
  inNamespace ns fun m => { m with interfaces := m.interfaces ++ [interface] }

def ipAddrAdd (ns : Name) (net : Nat) : Host → Host :=
  inNamespace ns fun m => { m with network := some net }

def ipRouteReplace (net : Nat) (dev : Name) (host : Host) : Host :=
  { host with routes := (net, dev) :: host.routes.eraseP fun route => route.1 = net }

def ipRouteDel (net : Nat) (dev : Name) (host : Host) : Host :=
  { host with routes := host.routes.erase (net, dev) }

def iptablesAppend (net : Nat) (host : Host) : Host :=
  { host with masquerade := host.masquerade ++ [net] }

def iptablesDelete (net : Nat) (host : Host) : Host :=
  { host with masquerade := host.masquerade.erase net }

def nsExists (ns : Name) (host : Host) : Bool := host.namespaces.any fun m => m.name == ns

def nsRequireAbsent (ns : Name) : Command Host := require fun host => !nsExists ns host

def nsRequirePresent (ns : Name) : Command Host := require (nsExists ns)

/-- The processes that `ip netns pids` lists before and a second after the
first `kill`. -/
structure DownAnswers where
  running : List Nat
  surviving : List Nat

def nsKillProcesses (answers : DownAnswers) : Command Host :=
  body
    [andList (fun _ => !answers.running.isEmpty) (act id),
      act id,
      andList (fun _ => !answers.surviving.isEmpty) (act id)]

/-- What the kernel, the resolver and the files answer, and whether `wg show interfaces`
lists the tunnel that has been started. -/
structure UpAnswers where
  linkAdded : Bool
  serversResolve : Bool
  routesAdded : Bool
  interfaceExists : Bool
  configFound : Bool
  vpnStarts : Bool
  tunnelListed : Bool
  defGw : Bool

def netVethCreate (answers : UpAnswers) (ns : Name) (net : Nat) : Command Host :=
  body
    [require fun _ => answers.linkAdded,
      act (addInterface ns ⟨veth ns, false⟩),
      require fun _ => decide (net ≤ 255),
      act (ipAddrAdd ns net),
      act (ipRouteReplace net (peer ns)),
      act (iptablesAppend net),
      require fun _ => answers.serversResolve,
      require fun _ => answers.routesAdded]

def netVethDestroy (ns : Name) : Option Nat → Command Host
  | none => act id
  | some net => body [act (ipRouteDel net (peer ns)), act (iptablesDelete net)]

def netPhysicalCreate (answers : UpAnswers) (ns iface : Name) : Command Host :=
  body
    [require fun _ => answers.interfaceExists,
      require fun _ => answers.serversResolve,
      act (addInterface ns ⟨iface, false⟩),
      require fun _ => answers.routesAdded]

def netPhysicalDestroy (ns : Name) : Command Host := act (ipNetnsDel ns)

/-- The configurations that `awg-quick` starts. -/
def amneziaWg (config : Name) : Bool := config.head? == some 'a'

def vpnStart (answers : UpAnswers) (ns config : Name) : Command Host :=
  body
    [require fun _ => answers.configFound,
      require fun _ => answers.vpnStarts,
      act (addInterface ns ⟨config, answers.tunnelListed⟩)]

/-- `wg show interfaces` prints one line, which `read` takes as one name: two
tunnels are no tunnel that `wg-quick` knows. -/
def vpnStop (ns : Name) : Command Host :=
  act (inNamespace ns fun m =>
    match m.interfaces.filter Interface.wireguard with
    | [tunnel] => { m with interfaces := m.interfaces.erase tunnel }
    | _ => m)

def netVethAddress (ns : Name) (host : Host) : Option Nat :=
  (host.namespaces.find? fun m => m.name == ns).bind Namespace.network

def netPhysicalDetect (ns : Name) (host : Host) : Option Interface :=
  (host.namespaces.find? fun m => m.name == ns).bind fun m =>
    m.interfaces.find? fun i =>
      !i.wireguard && i.name != "lo".toList && !"veth-".toList.isPrefixOf i.name

def netDestroy (answers : DownAnswers) (ns : Name) (iface : Option Interface) (net : Option Nat) :
    Command Host :=
  body
    [call (vpnStop ns),
      call (nsKillProcesses answers),
      match iface with
      | some _ => call (netPhysicalDestroy ns)
      | none => seq (call (netVethDestroy ns net)) (act (ipNetnsDel ns))]

/-- An empty `iface` asks for a veth pair, an empty `wgConfig` for no VPN. -/
def netnsUp (answers : UpAnswers) (ns wgConfig iface : Name) : Command Host := fun host =>
  let networkId := host.namespaces.length + 1
  body
    [call (nsRequireAbsent ns),
      act (ipNetnsAdd ns),
      if iface.isEmpty then call (netVethCreate answers ns networkId)
      else
        seq (call (netPhysicalCreate answers ns iface))
          (andList (fun _ => !wgConfig.isEmpty || answers.defGw) (require fun _ => answers.defGw)),
      if wgConfig.isEmpty then act id else call (vpnStart answers ns wgConfig)] host

def netnsDown (answers : DownAnswers) (ns : Name) : Command Host := fun host =>
  let iface := netPhysicalDetect ns host
  let net := if iface.isNone then netVethAddress ns host else none
  body [call (nsRequirePresent ns), call (netDestroy answers ns iface net)] host

inductive Invocation where
  | up (ns wgConfig iface : Name) (answers : UpAnswers)
  | down (ns : Name) (answers : DownAnswers)

def script : Invocation → Command Host
  | .up ns wgConfig iface answers => netnsUp answers ns wgConfig iface
  | .down ns answers => netnsDown answers ns

/-- Successful commands only. -/
def step (host : Host) (invocation : Invocation) : Option Host :=
  match script invocation host with
  | (next, .ok) => some next
  | _ => none

/-- A host without namespaces and the successful commands on it. -/
def hosts (routes : List (Nat × Name)) (masquerade : List Nat) : StepSystem Host Invocation where
  start := { namespaces := [], routes := routes, masquerade := masquerade }
  step := step

theorem step_ok {host next : Host} {invocation : Invocation} :
    step host invocation = some next ↔ script invocation host = (next, .ok) := by
  unfold step
  split <;> simp_all

theorem ns_exists_false {ns : Name} {host : Host} :
    nsExists ns host = false ↔ ∀ m ∈ host.namespaces, m.name ≠ ns := by
  simp [nsExists]

theorem veth_create_ok {answers : UpAnswers} {ns : Name} {net : Nat} {host next : Host}
    (created : netVethCreate answers ns net host = (next, .ok)) :
    net ≤ 255 ∧ next = iptablesAppend net (ipRouteReplace net (peer ns)
      (ipAddrAdd ns net (addInterface ns ⟨veth ns, false⟩ host))) := by
  simp only [netVethCreate, body, seq_ok, passes_act, passes_require, require_ok] at created
  obtain ⟨_, ⟨_, rfl⟩, _, rfl, _, ⟨inRange, rfl⟩, _, rfl, _, rfl, _, rfl, _, ⟨_, rfl⟩, _, rfl⟩ :=
    created
  exact ⟨of_decide_eq_true inRange, rfl⟩

theorem vpn_start_ok {answers : UpAnswers} {ns config : Name} {host next : Host}
    (started : vpnStart answers ns config host = (next, .ok)) :
    next = addInterface ns ⟨config, answers.tunnelListed⟩ host := by
  simp only [vpnStart, body, seq_ok, passes_require, act_ok] at started
  obtain ⟨_, ⟨_, rfl⟩, _, ⟨_, rfl⟩, rfl⟩ := started
  rfl

theorem kill_processes_keeps (answers : DownAnswers) :
    Keeps id (nsKillProcesses answers) := by
  apply keeps_body
  intro command member
  simp only [List.mem_cons, List.not_mem_nil, or_false] at member
  rcases member with rfl | rfl | rfl
  · exact keeps_and_list _ (keeps_act fun _ => rfl)
  · exact keeps_act fun _ => rfl
  · exact keeps_and_list _ (keeps_act fun _ => rfl)

/-- The last test of `ns_kill_processes` gives it its status: a call of it
succeeds only when a process outlived the first `kill`. -/
theorem kill_processes_ok {answers : DownAnswers} {host next : Host}
    (killed : nsKillProcesses answers host = (next, .ok)) : answers.surviving ≠ [] := by
  simp only [nsKillProcesses, body, seq_ok, passes_act, and_list_ok] at killed
  obtain ⟨_, _, _, _, survivors, _⟩ := killed
  simpa using survivors

theorem veth_destroy_keeps (ns : Name) (net : Option Nat) :
    Keeps Host.namespaces (netVethDestroy ns net) := by
  cases net with
  | none => exact keeps_act fun _ => rfl
  | some net =>
      apply keeps_body
      intro command member
      simp only [List.mem_cons, List.not_mem_nil, or_false] at member
      rcases member with rfl | rfl
      · exact keeps_act fun _ => rfl
      · exact keeps_act fun _ => rfl

/-- A change to one namespace leaves the others. -/
theorem in_namespace_others (ns : Name) {change : Namespace → Namespace}
    (renamed : ∀ m, (change m).name = m.name) (host : Host) :
    ((inNamespace ns change host).namespaces.filter fun m => m.name ≠ ns) =
      host.namespaces.filter fun m => m.name ≠ ns := by
  rw [inNamespace]
  dsimp only
  induction host.namespaces with
  | nil => rfl
  | cons m rest induction =>
      rw [List.map_cons, List.filter_cons, List.filter_cons, induction]
      by_cases named : m.name = ns
      · simp [named, renamed]
      · simp [named]

theorem in_namespace_head {ns : Name} (change : Namespace → Namespace) {host : Host}
    {fresh : Namespace} {rest : List Namespace} (namespaces : host.namespaces = fresh :: rest)
    (named : fresh.name = ns) (absent : ∀ m ∈ rest, m.name ≠ ns) :
    (inNamespace ns change host).namespaces = change fresh :: rest := by
  rw [inNamespace, namespaces, List.map_cons, if_pos named]
  dsimp only
  rw [List.map_congr_left fun m member => if_neg (absent m member)]
  exact congrArg _ (List.map_id _)

/-- A new namespace stands before the others. -/
def OnTop (ns : Name) (network : Option Nat) (others : List Namespace) (host : Host) : Prop :=
  ∃ fresh : Namespace, fresh.name = ns ∧ fresh.network = network ∧
    host.namespaces = fresh :: others

theorem on_top_interface {ns : Name} {network : Option Nat} {others : List Namespace} {host : Host}
    (absent : ∀ m ∈ others, m.name ≠ ns) (interface : Interface)
    (top : OnTop ns network others host) :
    OnTop ns network others (addInterface ns interface host) := by
  obtain ⟨fresh, named, addressed, namespaces⟩ := top
  exact ⟨{ fresh with interfaces := fresh.interfaces ++ [interface] }, named, addressed,
    in_namespace_head _ namespaces named absent⟩

theorem on_top_address {ns : Name} {network : Option Nat} {others : List Namespace} {host : Host}
    (absent : ∀ m ∈ others, m.name ≠ ns) (net : Nat)
    (top : OnTop ns network others host) : OnTop ns (some net) others (ipAddrAdd ns net host) := by
  obtain ⟨fresh, named, _, namespaces⟩ := top
  exact ⟨{ fresh with network := some net }, named, rfl,
    in_namespace_head _ namespaces named absent⟩

theorem vpn_stop_keeps (ns : Name) :
    Keeps (fun host : Host => host.namespaces.filter fun m => m.name ≠ ns) (vpnStop ns) := by
  apply keeps_act
  apply in_namespace_others
  intro m
  split <;> rfl

theorem destroy_ok {answers : DownAnswers} {ns : Name} {iface : Option Interface}
    {net : Option Nat} {host next : Host}
    (destroyed : netDestroy answers ns iface net host = (next, .ok)) :
    answers.surviving ≠ [] ∧ next.namespaces = host.namespaces.filter fun m => m.name ≠ ns := by
  simp only [netDestroy, body, seq_ok, passes_call] at destroyed
  obtain ⟨stopped, vpn, middle, killed, deleted⟩ := destroyed
  have others := (vpn_stop_keeps ns).ok vpn
  have same : middle = stopped := (kill_processes_keeps answers).ok killed
  rw [← same] at others
  refine ⟨kill_processes_ok killed, Eq.trans ?_ others⟩
  cases iface with
  | some iface =>
      simp only [netPhysicalDestroy, call_ok, act_ok] at deleted
      rw [deleted]
      rfl
  | none =>
      simp only [seq_ok, passes_call, act_ok] at deleted
      obtain ⟨cleaned, veth, rfl⟩ := deleted
      rw [ipNetnsDel, (veth_destroy_keeps ns net).ok veth]

theorem up_ok {answers : UpAnswers} {ns wgConfig : Name} {host next : Host}
    (up : netnsUp answers ns wgConfig [] host = (next, .ok)) :
    (∀ m ∈ host.namespaces, m.name ≠ ns) ∧
      OnTop ns (some (host.namespaces.length + 1)) host.namespaces next := by
  simp only [netnsUp, body, seq_ok, passes_call, passes_act, nsRequireAbsent, require_ok,
    List.isEmpty_nil, if_true, Bool.not_eq_true'] at up
  obtain ⟨host, ⟨missing, rfl⟩, _, rfl, middle, created, started⟩ := up
  have absent := ns_exists_false.mp missing
  refine ⟨absent, ?_⟩
  have added : OnTop ns none host.namespaces (ipNetnsAdd ns host) := ⟨_, rfl, rfl, rfl⟩
  have linked := on_top_interface absent ⟨veth ns, false⟩ added
  have addressed := on_top_address absent (host.namespaces.length + 1) linked
  obtain ⟨_, rfl⟩ := veth_create_ok created
  by_cases noVpn : wgConfig.isEmpty
  · rw [if_pos noVpn, act_ok] at started
    rw [started]
    exact addressed
  · rw [if_neg noVpn, call_ok] at started
    rw [vpn_start_ok started]
    exact on_top_interface absent _ addressed

theorem down_ok {answers : DownAnswers} {ns : Name} {host next : Host}
    (down : netnsDown answers ns host = (next, .ok)) :
    nsExists ns host = true ∧ answers.surviving ≠ [] ∧
      next.namespaces = host.namespaces.filter fun m => m.name ≠ ns := by
  simp only [netnsDown, body, seq_ok, passes_call, nsRequirePresent, require_ok, call_ok] at down
  obtain ⟨_, ⟨present, rfl⟩, destroyed⟩ := down
  exact ⟨present, destroy_ok destroyed⟩

end Testings.Netns

import Testings.NetnsSubnets

/-!
# What `down` removes

A namespace as a successful `up` has built it stands on a host that may have
changed around it. `down` removes it with all that it has on the host unless
`ns_kill_processes` ends the script, or an AmneziaWG tunnel in it passes for
its physical interface.
-/

set_option autoImplicit false

namespace Testings.Netns

open ErrExit

/-- `wg show interfaces` lists what `wg-quick` has started and not what `awg-quick` has. -/
def WgLists (answers : UpAnswers) (wgConfig : Name) : Prop :=
  wgConfig ≠ [] → answers.tunnelListed = !amneziaWg wgConfig

def tunnels (wgConfig : Name) : List Interface :=
  if wgConfig.isEmpty then [] else [⟨wgConfig, !amneziaWg wgConfig⟩]

def linkName (ns iface : Name) : Name := if iface.isEmpty then veth ns else iface

def built (ns wgConfig iface : Name) (networkId : Nat) : Namespace where
  name := ns
  interfaces := [⟨"lo".toList, false⟩, ⟨linkName ns iface, false⟩] ++ tunnels wgConfig
  network := if iface.isEmpty then some networkId else none

theorem physical_create_ok {answers : UpAnswers} {ns iface : Name} {host next : Host}
    (created : netPhysicalCreate answers ns iface host = (next, .ok)) :
    next = addInterface ns ⟨iface, false⟩ host := by
  simp only [netPhysicalCreate, body, seq_ok, passes_act, passes_require, require_ok] at created
  obtain ⟨_, ⟨_, rfl⟩, _, ⟨_, rfl⟩, _, rfl, _, rfl⟩ := created
  rfl

/-- The namespace before its VPN is started. -/
theorem up_links {answers : UpAnswers} {ns wgConfig iface : Name} {host middle : Host}
    {networkId : Nat} (absent : ∀ m ∈ host.namespaces, m.name ≠ ns)
    (created : Passes (if iface.isEmpty then call (netVethCreate answers ns networkId)
      else
        seq (call (netPhysicalCreate answers ns iface))
          (andList (fun _ => !wgConfig.isEmpty || answers.defGw)
            (require fun _ => answers.defGw))) (ipNetnsAdd ns host) middle) :
    middle.namespaces = built ns [] iface networkId :: host.namespaces := by
  have added : (ipNetnsAdd ns host).namespaces =
      { name := ns, interfaces := [⟨"lo".toList, false⟩], network := none } ::
        host.namespaces := rfl
  have linked (link : Interface) : (addInterface ns link (ipNetnsAdd ns host)).namespaces =
      { name := ns, interfaces := [⟨"lo".toList, false⟩, link], network := none } ::
        host.namespaces := in_namespace_head _ added (rfl : _ = ns) absent
  by_cases virtual : iface.isEmpty
  · rw [if_pos virtual, passes_call] at created
    obtain ⟨_, rfl⟩ := veth_create_ok created
    have addressed : (ipAddrAdd ns networkId
        (addInterface ns ⟨veth ns, false⟩ (ipNetnsAdd ns host))).namespaces =
          { name := ns
            interfaces := [⟨"lo".toList, false⟩, ⟨veth ns, false⟩]
            network := some networkId } :: host.namespaces :=
      in_namespace_head _ (linked ⟨veth ns, false⟩) (rfl : _ = ns) absent
    simp only [built, linkName, virtual, if_true]
    exact addressed
  · rw [if_neg virtual, passes_seq] at created
    obtain ⟨physical, moved, routed⟩ := created
    have same : middle = physical := by
      rw [passes_and_list, passes_require] at routed
      rcases routed with ⟨_, _, same⟩ | ⟨_, same⟩ <;> exact same
    rw [passes_call] at moved
    rw [same, physical_create_ok moved]
    simp only [built, linkName, virtual]
    exact linked ⟨iface, false⟩

theorem up_builds {answers : UpAnswers} {ns wgConfig iface : Name} {host next : Host}
    (lists : WgLists answers wgConfig)
    (up : netnsUp answers ns wgConfig iface host = (next, .ok)) :
    (∀ m ∈ host.namespaces, m.name ≠ ns) ∧
      next.namespaces =
        built ns wgConfig iface (host.namespaces.length + 1) :: host.namespaces := by
  simp only [netnsUp, body, seq_ok, passes_call, passes_act, nsRequireAbsent, require_ok,
    Bool.not_eq_true'] at up
  obtain ⟨host, ⟨missing, rfl⟩, _, rfl, middle, created, started⟩ := up
  have absent := ns_exists_false.mp missing
  have linked := up_links absent created
  refine ⟨absent, ?_⟩
  by_cases noVpn : wgConfig.isEmpty
  · rw [if_pos noVpn, act_ok] at started
    rw [started, id, linked, List.isEmpty_iff.mp noVpn]
  · rw [if_neg noVpn, call_ok] at started
    have named : (built ns [] iface (host.namespaces.length + 1)).name = ns := rfl
    have listed := lists fun empty => noVpn (List.isEmpty_iff.mpr empty)
    rw [vpn_start_ok started, listed, addInterface, in_namespace_head _ linked named absent]
    simp [built, tunnels, noVpn]

/-- A successful `up` has built `m`; the host has nothing else of its name and
still has its NAT rule. -/
structure Standing (created host : Host) (m : Namespace) : Prop where
  created : m ∈ created.namespaces
  only : (host.namespaces.filter fun other => other.name == m.name) = [m]
  rule : ∀ net, m.network = some net → net ∈ host.masquerade

/-- The namespace, what is routed to its end of a veth pair and its NAT rule
have gone, everything else is as it was. -/
structure TornDown (m : Namespace) (host after : Host) : Prop where
  namespaces : after.namespaces = host.namespaces.filter fun other => other.name ≠ m.name
  routes : after.routes = if m.network.isSome then
    host.routes.filter fun route => route.2 ≠ peer m.name else host.routes
  masquerade : after.masquerade = match m.network with
    | some net => host.masquerade.erase net
    | none => host.masquerade

/-- The host once `net_veth_destroy` has run. -/
def cleaned (ns : Name) : Option Nat → Host → Host
  | none, host => host
  | some net, host => iptablesDelete net (ipRouteDel net (peer ns) host)

theorem kill_processes_run (answers : DownAnswers) (host : Host) :
    nsKillProcesses answers host =
      (host, if answers.surviving.isEmpty then .spared else .ok) := by
  cases running : answers.running <;> cases surviving : answers.surviving <;>
    simp [nsKillProcesses, body, seq, andList, act, running, surviving]

theorem veth_destroy_run (ns : Name) (net : Option Nat) (host : Host) :
    netVethDestroy ns net host = (cleaned ns net host, .ok) := by
  cases net <;> rfl

/-- The network that `down` finds: it does not look for one where it has found
a physical interface. -/
def foundNetwork (ns : Name) (host : Host) : Option Nat :=
  if (netPhysicalDetect ns host).isNone then netVethAddress ns host else none

theorem down_run {ns : Name} {host : Host} (present : nsExists ns host = true)
    (answers : DownAnswers) :
    (netnsDown answers ns host).1 =
      if answers.surviving.isEmpty then (vpnStop ns host).1
      else ipNetnsDel ns (cleaned ns (foundNetwork ns host) (vpnStop ns host).1) := by
  have required : nsRequirePresent ns host = (host, .ok) := by
    rw [nsRequirePresent, require, present]
    rfl
  by_cases none : answers.surviving.isEmpty
  · simp [netnsDown, netDestroy, body, seq, call, required, kill_processes_run, none, vpnStop, act]
  · cases found : netPhysicalDetect ns host with
    | some iface =>
        simp [netnsDown, netDestroy, body, seq, call, required, kill_processes_run, none, vpnStop,
          act, foundNetwork, found, netPhysicalDestroy, cleaned]
    | none =>
        simp [netnsDown, netDestroy, body, seq, call, required, kill_processes_run, none, vpnStop,
          act, foundNetwork, found, veth_destroy_run]

/-- What asks only for the name and the network of a namespace does not see
that its VPN has been stopped. -/
theorem vpn_stop_any (ns : Name) (test : Name → Option Nat → Bool) (host : Host) :
    ((vpnStop ns host).1.namespaces.any fun m => test m.name m.network) =
      host.namespaces.any fun m => test m.name m.network := by
  simp only [vpnStop, act, inNamespace, List.any_map]
  congr 1
  funext m
  simp only [Function.comp]
  split_ifs
  · split <;> rfl
  · rfl

section Standing

variable {created host : Host} {m : Namespace}

theorem Standing.present (standing : Standing created host m) :
    nsExists m.name host = true := by
  have member : m ∈ host.namespaces.filter fun other => other.name == m.name := by
    rw [standing.only]
    exact List.mem_singleton.mpr rfl
  obtain ⟨listed, _⟩ := List.mem_filter.mp member
  exact List.any_eq_true.mpr ⟨m, listed, beq_self_eq_true _⟩

theorem Standing.find (standing : Standing created host m) :
    (host.namespaces.find? fun other => other.name == m.name) = some m := by
  rw [← List.head?_filter, standing.only]
  rfl

theorem Standing.has_veth (standing : Standing created host m) :
    hasVeth m.name (vpnStop m.name host).1 = m.network.isSome := by
  have seen := vpn_stop_any m.name (fun name network => name == m.name && network.isSome) host
  rw [hasVeth, seen, ← List.any_filter, standing.only]
  exact Bool.or_false _

/-- `down` tears a namespace down where it finds its network. -/
theorem Standing.torn_down_iff (standing : Standing created host m) {net : Option Nat}
    (found : net = none ∨ net = m.network) :
    TornDown m host (ipNetnsDel m.name (cleaned m.name net (vpnStop m.name host).1)) ↔
      net = m.network := by
  have others := vpn_stop_keeps m.name host
  have veth := standing.has_veth
  constructor
  · intro torn
    rcases found with rfl | same
    · have masquerade := torn.masquerade
      cases network : m.network with
      | none => rfl
      | some net =>
          have listed := standing.rule net network
          rw [network] at masquerade
          have shorter := List.length_erase_of_mem listed
          have positive := List.length_pos_of_mem listed
          have same : host.masquerade = host.masquerade.erase net := masquerade
          rw [← same] at shorter
          omega
    · exact same
  · rintro rfl
    cases network : m.network with
    | none =>
        rw [network] at veth
        refine ⟨others, ?_, ?_⟩
        · rw [ipNetnsDel, cleaned, veth, network]
          rfl
        · rw [network]
          rfl
    | some net =>
        rw [network] at veth
        refine ⟨others, ?_, ?_⟩
        · have erased : ((host.routes.erase (net, peer m.name)).filter
              fun route => route.2 ≠ peer m.name) =
                host.routes.filter fun route => route.2 ≠ peer m.name := by
            rw [← List.erase_filter]
            apply List.erase_of_not_mem
            simp
          have kept : hasVeth m.name (cleaned m.name (some net) (vpnStop m.name host).1) = true :=
            veth
          rw [ipNetnsDel, kept, network]
          exact erased
        · rw [network]
          rfl

end Standing

/-- A veth namespace seems to have one exactly with an AmneziaWG tunnel. -/
theorem veth_detected_iff (ns wgConfig : Name) (networkId : Nat) :
    ((built ns wgConfig [] networkId).interfaces.find? fun i =>
      !i.wireguard && i.name != "lo".toList && !"veth-".toList.isPrefixOf i.name).isSome =
        amneziaWg wgConfig := by
  have prefixed : "veth-".toList.isPrefixOf (veth ns) = true :=
    List.isPrefixOf_iff_prefix.mpr (List.prefix_append _ _)
  have passed : ¬(!false && veth ns != "lo".toList && !"veth-".toList.isPrefixOf (veth ns)) := by
    rw [prefixed, Bool.not_true, Bool.and_false]
    exact Bool.false_ne_true
  have unnamed : linkName ns [] = veth ns := rfl
  rw [built, unnamed, List.cons_append, List.find?_cons_of_neg (by decide), List.cons_append,
    List.find?_cons_of_neg (by exact passed), List.nil_append, tunnels]
  cases wgConfig with
  | nil => rfl
  | cons first rest =>
      by_cases amnezia : first = 'a'
      · subst amnezia
        simp [amneziaWg, List.isPrefixOf]
      · simp [amneziaWg, amnezia]

theorem found_network_built {ns wgConfig iface : Name} {networkId : Nat} {host : Host}
    (found : (host.namespaces.find? fun other => other.name == ns) =
      some (built ns wgConfig iface networkId)) :
    (foundNetwork ns host = none ∨
      foundNetwork ns host = (built ns wgConfig iface networkId).network) ∧
      (foundNetwork ns host = (built ns wgConfig iface networkId).network ↔
        ¬(iface = [] ∧ amneziaWg wgConfig = true)) := by
  have address : netVethAddress ns host = (built ns wgConfig iface networkId).network := by
    rw [netVethAddress, found]
    rfl
  cases iface with
  | nil =>
      have detected := veth_detected_iff ns wgConfig networkId
      have shown : (netPhysicalDetect ns host).isSome = amneziaWg wgConfig := by
        rw [← detected, netPhysicalDetect, found]
        rfl
      rw [foundNetwork, address, ← Option.not_isSome, shown]
      cases amneziaWg wgConfig <;> simp [built]
  | cons first rest =>
      have physical : (built ns wgConfig (first :: rest) networkId).network = none := rfl
      rw [foundNetwork, address, physical]
      split_ifs <;> simp

/-- `down` tears down a namespace that a successful `up` has built exactly
when a process in it outlives the first `kill` and it is not a veth namespace
with an AmneziaWG tunnel. -/
theorem netns_down_iff {before created host : Host} {up : UpAnswers} {ns wgConfig iface : Name}
    (lists : WgLists up wgConfig)
    (succeeded : netnsUp up ns wgConfig iface before = (created, .ok)) {m : Namespace}
    (named : m.name = ns) (standing : Standing created host m) (answers : DownAnswers) :
    TornDown m host (netnsDown answers ns host).1 ↔
      answers.surviving ≠ [] ∧ ¬(iface = [] ∧ amneziaWg wgConfig = true) := by
  obtain ⟨absent, namespaces⟩ := up_builds lists succeeded
  have build : m = built ns wgConfig iface (before.namespaces.length + 1) := by
    have listed := standing.created
    rw [namespaces] at listed
    exact (List.mem_cons.mp listed).resolve_right fun old => absent m old named
  subst named
  have network := congrArg Namespace.network build
  obtain ⟨found, whole⟩ := found_network_built (standing.find.trans (congrArg some build))
  rw [← network] at found whole
  rw [down_run standing.present answers]
  by_cases none : answers.surviving.isEmpty
  · rw [if_pos none]
    constructor
    · intro torn
      have left := standing.present
      rw [nsExists, ← vpn_stop_any m.name (fun name _ => name == m.name), torn.namespaces] at left
      simp at left
    · rintro ⟨survivors, _⟩
      exact absurd (List.isEmpty_iff.mp none) survivors
  · have survivors : answers.surviving ≠ [] := fun empty => none (List.isEmpty_iff.mpr empty)
    rw [if_neg none, standing.torn_down_iff found, whole, and_iff_right survivors]

/-- A host with a namespace `a` that has a WireGuard tunnel. -/
def oneTunnel : Host := (netnsUp answered ['a'] ['w'] [] ⟨[], [], []⟩).1

theorem one_tunnel_standing : Standing oneTunnel oneTunnel (built ['a'] ['w'] [] 1) where
  created := by decide
  only := by decide
  rule := by decide

theorem netns_down_outlived :
    TornDown (built ['a'] ['w'] [] 1) oneTunnel (netnsDown ⟨[7], [7]⟩ ['a'] oneTunnel).1 := by
  have up : netnsUp answered ['a'] ['w'] [] ⟨[], [], []⟩ = (oneTunnel, .ok) := by decide
  have lists : WgLists answered ['w'] := fun _ => rfl
  exact (netns_down_iff lists up rfl one_tunnel_standing ⟨[7], [7]⟩).mpr (by decide)

/-- A host with a namespace `a`. -/
def oneNamespace : Host := (netnsUp answered ['a'] [] [] ⟨[], [], []⟩).1

/-- With nothing to kill the script ends behind `ns_kill_processes`. -/
theorem idle_namespace_stays :
    netnsDown ⟨[], []⟩ ['a'] oneNamespace = (oneNamespace, .exited) ∧
      ¬TornDown (built ['a'] [] [] 1) oneNamespace
        (netnsDown ⟨[], []⟩ ['a'] oneNamespace).1 := by
  have stays : netnsDown ⟨[], []⟩ ['a'] oneNamespace = (oneNamespace, .exited) := by decide
  refine ⟨stays, ?_⟩
  intro torn
  have namespaces := torn.namespaces
  rw [stays] at namespaces
  exact absurd namespaces (by decide)

end Testings.Netns

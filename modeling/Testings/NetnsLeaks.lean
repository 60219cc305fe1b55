import Testings.NetnsVeth

/-!
# What the runs of `netns_multi.sh` leave behind

An `up` or `down` of `netns_multi.sh` ends where an answer fails it. A run
leaves no NAT rule and no route behind as long as `wg show interfaces` lists
the tunnels of the veth namespaces: `down` takes another one, such as an
AmneziaWG tunnel, for a physical interface.
-/

set_option autoImplicit false

namespace Testings.Netns

open ErrExit NetnsVeth

/-- Commands that end where an answer fails them. -/
def attempts (routes : List (Nat × Name)) (masquerade : List Nat) :
    StepSystem Host Invocation where
  start := { namespaces := [], routes := routes, masquerade := masquerade }
  step host invocation := some (script invocation host).1

/-- A namespace with a veth pair gets no tunnel that `wg show interfaces` does not list. -/
def ListedTunnel (_host : Host) : Invocation → Prop
  | .up _ wgConfig iface answers =>
      iface = [] → wgConfig = [] ∨ answers.tunnelListed = true
  | .down _ _ => True

instance (host : Host) : (invocation : Invocation) → Decidable (ListedTunnel host invocation)
  | .up _ wgConfig iface answers =>
      inferInstanceAs (Decidable (iface = [] → wgConfig = [] ∨ answers.tunnelListed = true))
  | .down _ _ => inferInstanceAs (Decidable True)

section up

variable {ns wgConfig iface : Name} {host after : Host}

theorem require_absent_ends (ns : Name) (host : Host) :
    Triple (· = host) (call (nsRequireAbsent ns))
      (fun after => after = host ∧ ∀ m ∈ host.namespaces, m.name ≠ ns) (· = host) :=
  triple_call (absent_checked ns host) fun _ checked => checked.1

/-- A tunnel changes the namespace that it is in. -/
theorem vpn_start_preserves {inv : Host → Prop} (answers : UpAnswers)
    (tunnel : ∀ host, inv host → inv (addInterface ns ⟨wgConfig, answers.tunnelListed⟩ host)) :
    Preserves inv
      (if wgConfig.isEmpty then act id else call (vpnStart answers ns wgConfig)) := by
  split_ifs
  · exact preserves_act fun _ before => before
  · apply preserves_call
    apply preserves_body
    intro command member
    simp only [List.mem_cons, List.not_mem_nil, or_false] at member
    rcases member with rfl | rfl | rfl
    · exact preserves_require inv _
    · exact preserves_require inv _
    · exact preserves_act tunnel

theorem veth_create_ends (answers : UpAnswers) (ns : Name) (host : Host) :
    Triple (Added ns none host) (netVethCreate answers ns (host.namespaces.length + 1))
      (Routed ns host) (UpEnds ns host) := by
  have routed : Triple (Added ns (some (host.namespaces.length + 1)) host)
      (act (ipRouteReplace (host.namespaces.length + 1) (peer ns)))
      (fun after => Routed ns host (iptablesAppend (host.namespaces.length + 1) after))
      (UpEnds ns host) := triple_act fun _ added => added.routed
  have ruled : Triple
      (fun after => Routed ns host (iptablesAppend (host.namespaces.length + 1) after))
      (act (iptablesAppend (host.namespaces.length + 1))) (Routed ns host) (UpEnds ns host) :=
    triple_act fun _ routed => routed
  apply triple_seq (added_checked answers.linkAdded)
  apply triple_seq (triple_act fun _ added => Added.interface added _)
  apply triple_seq (added_checked (decide (host.namespaces.length + 1 ≤ 255)))
  apply triple_seq (triple_act fun _ added => Added.address added _)
  apply triple_seq routed
  apply triple_seq ruled
  exact triple_seq (routed_checked answers.serversResolve) (routed_checked answers.routesAdded)

/-- An `up` without a physical interface. -/
theorem veth_up_ends (answers : UpAnswers) (ns wgConfig : Name) (host : Host) :
    Triple (· = host) (netnsUp answers ns wgConfig []) (Routed ns host) (UpEnds ns host) := by
  have spared (after : Host) (routed : Routed ns host after) : UpEnds ns host after :=
    routed.ends
  have absent := (require_absent_ends ns host).weaken (fun _ checked => checked)
    fun after (same : after = host) => (.inl same : UpEnds ns host after)
  have created := triple_call (veth_create_ends answers ns host) spared
  have tunnel (after : Host) (routed : Routed ns host after) :
      Routed ns host (addInterface ns ⟨wgConfig, answers.tunnelListed⟩ after) :=
    routed.interface _
  have started := (vpn_start_preserves answers tunnel).triple spared
  have whole := triple_seq absent
    (triple_seq (netns_add_ends ns host _) (triple_seq created started))
  rintro _ rfl
  exact whole _ rfl

/-- Where an `up` with a physical interface may end. -/
def MovedEnds (ns : Name) (host after : Host) : Prop :=
  after = host ∨ Added ns none host after

theorem physical_create_preserves (answers : UpAnswers) (ns iface : Name) (host : Host) :
    Preserves (Added ns none host) (netPhysicalCreate answers ns iface) := by
  apply preserves_body
  intro command member
  simp only [List.mem_cons, List.not_mem_nil, or_false] at member
  rcases member with rfl | rfl | rfl | rfl
  · exact preserves_require _ _
  · exact preserves_require _ _
  · exact preserves_act fun _ added => added.interface _
  · exact preserves_require _ _

theorem physical_up_ends (answers : UpAnswers) (ns wgConfig : Name) (physical : iface ≠ [])
    (host : Host) :
    Triple (· = host) (netnsUp answers ns wgConfig iface) (Added ns none host)
      (MovedEnds ns host) := by
  have addedEnds (after : Host) (added : Added ns none host after) : MovedEnds ns host after :=
    .inr added
  have absent := (require_absent_ends ns host).weaken (fun _ checked => checked)
    fun after (same : after = host) => (.inl same : MovedEnds ns host after)
  have moved := preserves_call (physical_create_preserves answers ns iface host)
  have routed : Preserves (Added ns none host)
      (andList (fun _ => !wgConfig.isEmpty || answers.defGw) (require fun _ => answers.defGw)) :=
    preserves_and_list _ (preserves_require _ _)
  have tunnel (after : Host) (added : Added ns none host after) :
      Added ns none host (addInterface ns ⟨wgConfig, answers.tunnelListed⟩ after) :=
    added.interface _
  have started := vpn_start_preserves answers tunnel
  have built := (preserves_seq (preserves_seq moved routed) started).triple addedEnds
  have whole := triple_seq absent (triple_seq (netns_add_ends ns host _) built)
  rintro _ rfl
  cases iface with
  | nil => exact absurd rfl physical
  | cons first rest => exact whole _ rfl

end up

/-- What `net_physical_detect` takes for a physical interface. -/
def passesForPhysical (i : Interface) : Bool :=
  !i.wireguard && i.name != "lo".toList && !"veth-".toList.isPrefixOf i.name

/-- No namespace with a network seems to have a physical interface. -/
def Plain (host : Host) : Prop :=
  ∀ m ∈ host.namespaces, m.network.isSome = true →
    ∀ i ∈ m.interfaces, passesForPhysical i = false

/-- Nor does the namespace that is being built. -/
def PlainWith (ns : Name) (host : Host) : Prop :=
  ∀ m ∈ host.namespaces, m.network.isSome = true ∨ m.name = ns →
    ∀ i ∈ m.interfaces, passesForPhysical i = false

section plain

variable {ns wgConfig iface : Name} {host after : Host} {m : Namespace}

theorem PlainWith.plain (plain : PlainWith ns host) : Plain host :=
  fun m member network => plain m member (.inl network)

theorem Plain.add (plain : Plain host) (absent : ∀ m ∈ host.namespaces, m.name ≠ ns) :
    PlainWith ns (ipNetnsAdd ns host) := by
  intro m member shown i listed
  rcases List.mem_cons.mp member with rfl | old
  · rw [List.mem_singleton.mp listed]
    decide
  · exact plain m old (shown.resolve_right (absent m old)) i listed

theorem PlainWith.interface (plain : PlainWith ns host) {interface : Interface}
    (other : passesForPhysical interface = false) :
    PlainWith ns (addInterface ns interface host) := by
  intro m member shown i listed
  rcases List.mem_map.mp member with ⟨old, lives, rfl⟩
  split_ifs at shown listed with named
  · rcases List.mem_append.mp listed with before | new
    · exact plain old lives (.inr named) i before
    · rw [List.mem_singleton.mp new]
      exact other
  · exact plain old lives shown i listed

theorem PlainWith.address (plain : PlainWith ns host) (net : Nat) :
    PlainWith ns (ipAddrAdd ns net host) := by
  intro m member shown i listed
  rcases List.mem_map.mp member with ⟨old, lives, rfl⟩
  split_ifs at shown listed with named
  · exact plain old lives (.inr named) i listed
  · exact plain old lives shown i listed

theorem veth_is_virtual (ns : Name) : passesForPhysical ⟨veth ns, false⟩ = false := by
  have prefixed : "veth-".toList.isPrefixOf (veth ns) = true :=
    List.isPrefixOf_iff_prefix.mpr (List.prefix_append _ _)
  rw [passesForPhysical, prefixed, Bool.not_true, Bool.and_false]

theorem veth_create_plain (answers : UpAnswers) (ns : Name) (net : Nat) :
    Preserves (PlainWith ns) (netVethCreate answers ns net) := by
  apply preserves_body
  intro command member
  simp only [List.mem_cons, List.not_mem_nil, or_false] at member
  rcases member with rfl | rfl | rfl | rfl | rfl | rfl | rfl | rfl
  · exact preserves_require _ _
  · exact preserves_act fun _ plain => plain.interface (veth_is_virtual ns)
  · exact preserves_require _ _
  · exact preserves_act fun _ plain => plain.address net
  · exact preserves_act fun _ plain => plain
  · exact preserves_act fun _ plain => plain
  · exact preserves_require _ _
  · exact preserves_require _ _

theorem veth_up_plain {answers : UpAnswers} (ns : Name)
    (listed : wgConfig = [] ∨ answers.tunnelListed = true) (plain : Plain host) :
    Plain (netnsUp answers ns wgConfig [] host).1 := by
  have started : Preserves (PlainWith ns)
      (if wgConfig.isEmpty then act id else call (vpnStart answers ns wgConfig)) := by
    rcases listed with rfl | shown
    · exact preserves_act fun _ before => before
    · apply vpn_start_preserves
      intro after before
      apply before.interface
      rw [passesForPhysical, shown]
      rfl
  have built := preserves_seq (preserves_call (veth_create_plain answers ns
    (host.namespaces.length + 1))) started
  have absent := (require_absent_ends ns host).weaken (fun _ checked => checked)
    fun after (same : after = host) => (same ▸ plain : Plain after)
  have added : Triple (fun after => after = host ∧ ∀ m ∈ host.namespaces, m.name ≠ ns)
      (act (ipNetnsAdd ns)) (PlainWith ns) Plain := by
    apply triple_act
    rintro _ ⟨rfl, absent⟩
    exact plain.add absent
  have whole := triple_seq absent (triple_seq added (built.triple fun _ => PlainWith.plain))
  exact whole.ends (fun _ => PlainWith.plain) rfl

theorem physical_up_plain (answers : UpAnswers) (ns wgConfig : Name) (physical : iface ≠ [])
    (plain : Plain host) : Plain (netnsUp answers ns wgConfig iface host).1 := by
  have ends := (physical_up_ends answers ns wgConfig physical host).ends (fun _ => .inr) rfl
  rcases ends with same | added
  · rw [same]
    exact plain
  · rcases added.top with ⟨fresh, _, unaddressed, namespaces⟩
    intro m member network
    rw [namespaces] at member
    rcases List.mem_cons.mp member with rfl | old
    · rw [unaddressed] at network
      cases network
    · exact plain m old network

/-- At most a tunnel goes. -/
theorem vpn_stop_member (member : m ∈ (vpnStop ns host).1.namespaces) :
    ∃ old ∈ host.namespaces, m.name = old.name ∧ m.network = old.network ∧
      ∀ i ∈ m.interfaces, i ∈ old.interfaces := by
  rcases List.mem_map.mp member with ⟨old, lives, rfl⟩
  refine ⟨old, lives, ?_⟩
  split_ifs
  · dsimp only
    split
    · exact ⟨rfl, rfl, fun _ => List.mem_of_mem_erase⟩
    · exact ⟨rfl, rfl, fun _ listed => listed⟩
  · exact ⟨rfl, rfl, fun _ listed => listed⟩

theorem Plain.vpn_stop (plain : Plain host) (ns : Name) : Plain (vpnStop ns host).1 := by
  intro m member network i listed
  rcases vpn_stop_member member with ⟨old, lives, _, addressed, kept⟩
  rw [addressed] at network
  exact plain old lives network i (kept i listed)

theorem Plain.torn_down (plain : Plain host) (torn : TornDown m host after) : Plain after := by
  intro other member
  rw [torn.namespaces] at member
  exact plain other (List.mem_of_mem_filter member)

/-- `down` finds the network of a namespace that has one. -/
theorem Plain.found_network (plain : Plain host)
    (names : (host.namespaces.map Namespace.name).Nodup) (member : m ∈ host.namespaces) :
    foundNetwork m.name host = m.network := by
  have address := address_named names member
  cases network : m.network with
  | none =>
      rw [foundNetwork, address, network]
      split_ifs <;> rfl
  | some net =>
      have undetected : netPhysicalDetect m.name host = none := by
        rw [netPhysicalDetect, find_named names member]
        apply List.find?_eq_none.mpr
        intro i listed
        have virtual := plain m member (by rw [network]; rfl) i listed
        rw [passesForPhysical] at virtual
        rw [virtual]
        exact Bool.false_ne_true
      rw [foundNetwork, undetected, address, network]
      rfl

end plain

section down

variable {routes : List (Nat × Name)} {masquerade : List Nat} {ns : Name} {host after : Host}
  {m : Namespace}

/-- Names and networks stay when the VPN is stopped. -/
theorem vpn_stop_seen (ns : Name) (host : Host) :
    ((vpnStop ns host).1.namespaces.map fun m => (m.name, m.network)) =
      host.namespaces.map fun m => (m.name, m.network) := by
  simp only [vpnStop, act, inNamespace, List.map_map]
  congr 1
  funext m
  simp only [Function.comp]
  split_ifs
  · split <;> rfl
  · rfl

theorem accounted_vpn_stop (before : Accounted routes masquerade host) (ns : Name) :
    Accounted routes masquerade (vpnStop ns host).1 := by
  have seen := vpn_stop_seen ns host
  refine ⟨?_, ?_, ?_⟩
  · have names := congrArg (List.map Prod.fst) seen
    rw [List.map_map, List.map_map] at names
    have same : (vpnStop ns host).1.namespaces.map Namespace.name =
        host.namespaces.map Namespace.name := names
    rw [same]
    exact before.names
  · intro net
    have alive := congrArg (List.countP fun shown => shown.2 = some net) seen
    rw [List.countP_map, List.countP_map] at alive
    have same : live net (vpnStop ns host).1 = live net host := alive
    rw [same]
    exact before.rules net
  · intro route listed
    rcases before.routes route listed with old | ⟨owner, lives, network, leads⟩
    · exact .inl old
    · have shown : (owner.name, owner.network) ∈
          (vpnStop ns host).1.namespaces.map fun m => (m.name, m.network) := by
        rw [seen]
        exact List.mem_map.mpr ⟨owner, lives, rfl⟩
      rcases List.mem_map.mp shown with ⟨m, member, same⟩
      rcases Prod.mk.inj same with ⟨named, addressed⟩
      exact .inr ⟨m, member, addressed.trans network, by rw [named, leads]⟩

/-- `down` ends behind the VPN or tears the namespace down. -/
theorem netns_down_ends (plain : Plain host) (names : (host.namespaces.map Namespace.name).Nodup)
    (answers : DownAnswers) (member : m ∈ host.namespaces) :
    (netnsDown answers m.name host).1 = (vpnStop m.name host).1 ∨
      TornDown m host (netnsDown answers m.name host).1 := by
  rw [down_run (exists_named member) answers, plain.found_network names member]
  split_ifs
  · exact .inl rfl
  · exact .inr (NetnsVeth.torn_down ⟨answers, true⟩ (has_veth_named names member))

end down

section runs

variable {routes : List (Nat × Name)} {masquerade : List Nat} {host : Host}

theorem attempt_step (before : Accounted routes masquerade host) (plain : Plain host)
    {invocation : Invocation} (listed : ListedTunnel host invocation) :
    Accounted routes masquerade (script invocation host).1 ∧
      Plain (script invocation host).1 := by
  cases invocation with
  | up ns wgConfig iface answers =>
      by_cases virtual : iface = []
      · subst virtual
        have ends := (veth_up_ends answers ns wgConfig host).ends
          (fun _ routed => routed.ends) rfl
        exact ⟨before.up ends, veth_up_plain ns (listed rfl) plain⟩
      · have ends := (physical_up_ends answers ns wgConfig virtual host).ends
          (fun _ => .inr) rfl
        exact ⟨before.up (ends.imp_right fun added => .inl ⟨none, added⟩),
          physical_up_plain answers ns wgConfig virtual plain⟩
  | down ns answers =>
      cases present : nsExists ns host with
      | false =>
          have stays : netnsDown answers ns host = (host, .exited) := by
            simp [netnsDown, body, seq, call, nsRequirePresent, require, present]
          rw [script, stays]
          exact ⟨before, plain⟩
      | true =>
          rcases List.any_eq_true.mp present with ⟨m, member, named⟩
          cases beq_iff_eq.mp named
          rw [script]
          rcases netns_down_ends plain before.names answers member with same | torn
          · rw [same]
            exact ⟨accounted_vpn_stop before m.name, plain.vpn_stop m.name⟩
          · exact ⟨before.down member torn, plain.torn_down torn⟩

/-- Whatever the commands of a run are answered, there are no more NAT rules for a network
than there were and live namespaces have it, and no new route that does not
lead to a live namespace. -/
theorem attempts_leave_nothing
    (reached : ((attempts routes masquerade).restrict ListedTunnel).Reachable host) :
    (∀ net, host.masquerade.count net ≤ masquerade.count net + live net host) ∧
      ∀ route ∈ host.routes, route ∈ routes ∨
        ∃ m ∈ host.namespaces, m.network = some route.1 ∧ route.2 = peer m.name := by
  have kept : Accounted routes masquerade host ∧ Plain host := by
    apply reached.invariant (fun host => Accounted routes masquerade host ∧ Plain host)
    · refine ⟨⟨List.nodup_nil, fun _ => Nat.le_refl _, fun _ listed => .inl listed⟩, ?_⟩
      intro m member
      cases member
    · apply StepSystem.restrict_preserved
      intro host invocation next before listed taken
      cases taken
      exact attempt_step before.1 before.2 listed
  exact ⟨kept.1.rules, kept.1.routes⟩

/-- The first `down` finds nothing to kill and ends; the second goes through. -/
theorem attempts_leave_nothing_second_down :
    ∃ host : Host, host.namespaces.length = 1 ∧ host.routes.length = 1 ∧
      (∀ net, host.masquerade.count net ≤ [7].count net + live net host) ∧
      ∀ route ∈ host.routes, route ∈ [] ∨
        ∃ m ∈ host.namespaces, m.network = some route.1 ∧ route.2 = peer m.name := by
  rcases StepSystem.reachable_of_run ((attempts [] [7]).restrict ListedTunnel)
    [.up ['a'] ['w'] [] answered, .up ['b'] [] [] { answered with serversResolve := false },
      .down ['a'] ⟨[], []⟩, .down ['a'] ⟨[9], [9]⟩]
    (fun host => decide (host.namespaces.length = 1 ∧ host.routes.length = 1))
    (by decide +kernel) with ⟨host, reached, passes⟩
  rcases of_decide_eq_true passes with ⟨one, routed⟩
  exact ⟨host, one, routed, attempts_leave_nothing reached⟩

/-- `down` does not look for the network of a namespace with a tunnel that is not listed. -/
theorem hidden_tunnel_leaves_rule :
    ¬∀ host, (attempts [] []).Reachable host →
      ∀ net, host.masquerade.count net ≤ live net host := by
  intro always
  rcases StepSystem.reachable_of_run (attempts [] [])
    [.up ['n'] ['a'] [] { answered with tunnelListed := false }, .down ['n'] ⟨[9], [9]⟩]
    (fun host => decide ¬host.masquerade.count 1 ≤ live 1 host) (by decide +kernel)
    with ⟨host, reached, passes⟩
  exact of_decide_eq_true passes (always host reached 1)

end runs

end Testings.Netns

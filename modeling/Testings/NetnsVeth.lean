import Testings.NetnsTeardown
import Mathlib.Data.List.Count
import Mathlib.Data.List.Nodup

/-!
# Network namespaces with a veth pair

`netns_veth.sh`, the script before `netns_multi.sh`. It creates the route and
the NAT rule of a namespace behind everything that may fail, and its `down`
always goes through. Each live namespace has its NAT rule in every run of
successful commands, and no run leaves a rule or a route behind, whatever its commands
are answered.
-/

set_option autoImplicit false

namespace Testings.NetnsVeth

open ErrExit Netns

def netnsCreate (answers : UpAnswers) (ns : Name) (net : Nat) : Command Host :=
  body
    [require fun host => !nsExists ns host,
      act (ipNetnsAdd ns),
      require fun _ => answers.linkAdded,
      act (addInterface ns ⟨veth ns, false⟩),
      require fun _ => decide (net ≤ 255),
      act (ipAddrAdd ns net),
      require fun _ => answers.serversResolve,
      require fun _ => answers.routesAdded,
      act (ipRouteReplace net (peer ns)),
      act (iptablesAppend net)]

/-- `wg-quick` names a tunnel after the file that it is given, here the copy in
`/run`. -/
def tunnelName (ns wgConfig : Name) : Name := "netns-".toList ++ ns ++ "-".toList ++ wgConfig

def wgUp (answers : UpAnswers) (ns wgConfig : Name) : Command Host :=
  body
    [require fun _ => answers.configFound,
      require fun _ => answers.vpnStarts,
      act (addInterface ns ⟨tunnelName ns wgConfig, answers.tunnelListed⟩)]

/-- `tunnelStops` when there is a configuration of the tunnel's name. -/
structure DownAnswers extends Netns.DownAnswers where
  tunnelStops : Bool

/-- Without an address neither the route nor the rule is found. -/
def netnsDestroy (answers : DownAnswers) (ns : Name) (net : Option Nat) : Command Host :=
  body
    [andList (fun _ => answers.tunnelStops) (vpnStop ns),
      andList (fun _ => !answers.running.isEmpty) (act id),
      act id,
      andList (fun _ => !answers.surviving.isEmpty) (act id),
      netVethDestroy ns net,
      act (ipNetnsDel ns)]

def netnsUp (answers : UpAnswers) (ns wgConfig : Name) : Command Host := fun host =>
  let networkId := host.namespaces.length + 1
  body
    [require fun host => !nsExists ns host,
      call (netnsCreate answers ns networkId),
      if wgConfig.isEmpty then act id else call (wgUp answers ns wgConfig)] host

def netnsDown (answers : DownAnswers) (ns : Name) : Command Host := fun host =>
  body
    [require (nsExists ns),
      call (netnsDestroy answers ns (netVethAddress ns host))] host

inductive Invocation where
  | up (ns wgConfig : Name) (answers : UpAnswers)
  | down (ns : Name) (answers : DownAnswers)

def script : Invocation → Command Host
  | .up ns wgConfig answers => netnsUp answers ns wgConfig
  | .down ns answers => netnsDown answers ns

/-- Commands that end where an answer fails them. -/
def hosts (routes : List (Nat × Name)) (masquerade : List Nat) : StepSystem Host Invocation where
  start := { namespaces := [], routes := routes, masquerade := masquerade }
  step host invocation := some (script invocation host).1

def Succeeds (host : Host) (invocation : Invocation) : Prop :=
  (script invocation host).2 = .ok

instance (host : Host) (invocation : Invocation) : Decidable (Succeeds host invocation) :=
  inferInstanceAs (Decidable (_ = _))

section up

variable {ns : Name} {network : Option Nat} {host after : Host}

/-- The new namespace stands on top of the others and has nothing on the host. -/
structure Added (ns : Name) (network : Option Nat) (host after : Host) : Prop where
  absent : ∀ m ∈ host.namespaces, m.name ≠ ns
  top : OnTop ns network host.namespaces after
  routes : after.routes = host.routes
  masquerade : after.masquerade = host.masquerade

/-- It has its route and its NAT rule. -/
structure Routed (ns : Name) (host after : Host) : Prop where
  absent : ∀ m ∈ host.namespaces, m.name ≠ ns
  top : OnTop ns (some (host.namespaces.length + 1)) host.namespaces after
  routes : after.routes = (ipRouteReplace (host.namespaces.length + 1) (peer ns) host).routes
  masquerade : after.masquerade = host.masquerade ++ [host.namespaces.length + 1]

/-- Where an `up` may end. -/
def UpEnds (ns : Name) (host after : Host) : Prop :=
  after = host ∨ (∃ network, Added ns network host after) ∨ Routed ns host after

theorem Added.ends (added : Added ns network host after) : UpEnds ns host after :=
  .inr (.inl ⟨network, added⟩)

theorem Routed.ends (routed : Routed ns host after) : UpEnds ns host after :=
  .inr (.inr routed)

theorem Added.interface (added : Added ns network host after) (interface : Interface) :
    Added ns network host (addInterface ns interface after) where
  absent := added.absent
  top := on_top_interface added.absent interface added.top
  routes := added.routes
  masquerade := added.masquerade

theorem Added.address (added : Added ns network host after) (net : Nat) :
    Added ns (some net) host (ipAddrAdd ns net after) where
  absent := added.absent
  top := on_top_address added.absent net added.top
  routes := added.routes
  masquerade := added.masquerade

theorem Added.routed (added : Added ns (some (host.namespaces.length + 1)) host after) :
    Routed ns host (iptablesAppend (host.namespaces.length + 1)
      (ipRouteReplace (host.namespaces.length + 1) (peer ns) after)) where
  absent := added.absent
  top := added.top
  routes := by
    simp only [iptablesAppend, ipRouteReplace]
    rw [added.routes]
  masquerade := by
    simp only [iptablesAppend, ipRouteReplace]
    rw [added.masquerade]

theorem Routed.interface (routed : Routed ns host after) (interface : Interface) :
    Routed ns host (addInterface ns interface after) where
  absent := routed.absent
  top := on_top_interface routed.absent interface routed.top
  routes := routed.routes
  masquerade := routed.masquerade

/-- A check that changes nothing. -/
theorem added_checked (holds : Bool) :
    Triple (Added ns network host) (require fun _ => holds) (Added ns network host)
      (UpEnds ns host) :=
  (preserves_require _ _).triple fun _ added => added.ends

theorem routed_checked (holds : Bool) :
    Triple (Routed ns host) (require fun _ => holds) (Routed ns host) (UpEnds ns host) :=
  (preserves_require _ _).triple fun _ routed => routed.ends

theorem absent_checked (ns : Name) (host : Host) :
    Triple (· = host) (require fun host => !nsExists ns host)
      (fun after => after = host ∧ ∀ m ∈ host.namespaces, m.name ≠ ns) (· = host) := by
  apply triple_require
  · rintro _ rfl missing
    rw [Bool.not_eq_true'] at missing
    exact ⟨rfl, ns_exists_false.mp missing⟩
  · exact fun _ same _ => same

theorem netns_add_ends (ns : Name) (host : Host) (ended : Host → Prop) :
    Triple (fun after => after = host ∧ ∀ m ∈ host.namespaces, m.name ≠ ns)
      (act (ipNetnsAdd ns)) (Added ns none host) ended := by
  apply triple_act
  rintro _ ⟨rfl, absent⟩
  exact ⟨absent, ⟨_, rfl, rfl, rfl⟩, rfl, rfl⟩

theorem netns_create_ends (answers : UpAnswers) (ns : Name) (host : Host) :
    Triple (· = host) (netnsCreate answers ns (host.namespaces.length + 1)) (Routed ns host)
      (UpEnds ns host) := by
  simp only [netnsCreate, body]
  have absent := (absent_checked ns host).weaken (fun _ checked => checked)
    fun after (same : after = host) => (.inl same : UpEnds ns host after)
  have routed : Triple (Added ns (some (host.namespaces.length + 1)) host)
      (act (ipRouteReplace (host.namespaces.length + 1) (peer ns)))
      (fun after => Routed ns host (iptablesAppend (host.namespaces.length + 1) after))
      (UpEnds ns host) := triple_act fun _ added => added.routed
  apply triple_seq absent
  apply triple_seq (netns_add_ends ns host _)
  apply triple_seq (added_checked answers.linkAdded)
  apply triple_seq (triple_act fun _ added => Added.interface added _)
  apply triple_seq (added_checked (decide (host.namespaces.length + 1 ≤ 255)))
  apply triple_seq (triple_act fun _ added => Added.address added _)
  apply triple_seq (added_checked answers.serversResolve)
  apply triple_seq (added_checked answers.routesAdded)
  exact triple_seq routed (triple_act fun _ routed => routed)

theorem wg_up_ends (answers : UpAnswers) (ns wgConfig : Name) (host : Host) :
    Triple (Routed ns host) (wgUp answers ns wgConfig) (Routed ns host) (UpEnds ns host) := by
  apply triple_seq (routed_checked answers.configFound)
  apply triple_seq (routed_checked answers.vpnStarts)
  exact triple_act fun _ routed => Routed.interface routed _

/-- An `up` that succeeds has routed its namespace; one that fails has changed
nothing, or has left the namespace without or with its route and its rule. -/
theorem netns_up_ends (answers : UpAnswers) (ns wgConfig : Name) (host : Host) :
    Triple (· = host) (netnsUp answers ns wgConfig) (Routed ns host) (UpEnds ns host) := by
  have spared (after : Host) (routed : Routed ns host after) : UpEnds ns host after :=
    routed.ends
  have created := triple_call (netns_create_ends answers ns host) spared
  have started : Triple (Routed ns host)
      (if wgConfig.isEmpty then act id else call (wgUp answers ns wgConfig)) (Routed ns host)
      (UpEnds ns host) := by
    split_ifs
    · exact triple_act fun _ routed => routed
    · exact triple_call (wg_up_ends answers ns wgConfig host) spared
  have absent := (absent_checked ns host).weaken (fun _ checked => checked)
    fun after (same : after = host) => (.inl same : UpEnds ns host after)
  have whole := triple_seq absent
    (triple_seq (created.strengthen fun _ checked => checked.1) started)
  rintro _ rfl
  exact whole _ rfl

end up

section down

variable {ns : Name} {host : Host} {m : Namespace}

/-- The host once `wg-quick down` has been tried. -/
def tunnelStopped (answers : DownAnswers) (ns : Name) (host : Host) : Host :=
  if answers.tunnelStops then (vpnStop ns host).1 else host

/-- Behind the tests `set -e` ends nothing: every command of `netns_destroy` runs. -/
theorem netns_destroy_run (answers : DownAnswers) (ns : Name) (net : Option Nat) (host : Host) :
    netnsDestroy answers ns net host =
      (ipNetnsDel ns (cleaned ns net (tunnelStopped answers ns host)), .ok) := by
  cases stops : answers.tunnelStops <;> cases running : answers.running <;>
    cases surviving : answers.surviving <;>
    simp [netnsDestroy, body, seq, andList, act, vpnStop, veth_destroy_run, tunnelStopped, stops,
      running, surviving]

theorem tunnel_stopped_others (answers : DownAnswers) (ns : Name) (host : Host) :
    ((tunnelStopped answers ns host).namespaces.filter fun other => other.name ≠ ns) =
      host.namespaces.filter fun other => other.name ≠ ns := by
  unfold tunnelStopped
  split_ifs
  · exact vpn_stop_keeps ns host
  · rfl

theorem tunnel_stopped_veth (answers : DownAnswers) (ns : Name) (host : Host) :
    hasVeth ns (tunnelStopped answers ns host) = hasVeth ns host := by
  unfold tunnelStopped
  split_ifs
  · exact vpn_stop_any ns (fun name network => name == ns && network.isSome) host
  · rfl

theorem tunnel_stopped_host (answers : DownAnswers) (ns : Name) (host : Host) :
    (tunnelStopped answers ns host).routes = host.routes ∧
      (tunnelStopped answers ns host).masquerade = host.masquerade := by
  unfold tunnelStopped
  split_ifs
  · exact ⟨rfl, rfl⟩
  · exact ⟨rfl, rfl⟩

/-- The only namespace of its name. -/
theorem only_named {namespaces : List Namespace} (names : (namespaces.map Namespace.name).Nodup)
    (member : m ∈ namespaces) : (namespaces.filter fun other => other.name == m.name) = [m] := by
  induction namespaces with
  | nil => cases member
  | cons first rest ih =>
      rw [List.map_cons, List.nodup_cons] at names
      rcases List.mem_cons.mp member with rfl | later
      · rw [List.filter_cons, if_pos (beq_self_eq_true _), List.filter_eq_nil_iff.mpr]
        intro other listed same
        exact names.1 (List.mem_map.mpr ⟨other, listed, beq_iff_eq.mp same⟩)
      · have other : ¬(first.name == m.name) = true := by
          intro same
          exact names.1 (List.mem_map.mpr ⟨m, later, (beq_iff_eq.mp same).symm⟩)
        rw [List.filter_cons, if_neg other]
        exact ih names.2 later

theorem exists_named (member : m ∈ host.namespaces) : nsExists m.name host = true :=
  List.any_eq_true.mpr ⟨m, member, beq_self_eq_true _⟩

theorem find_named (names : (host.namespaces.map Namespace.name).Nodup)
    (member : m ∈ host.namespaces) :
    (host.namespaces.find? fun other => other.name == m.name) = some m := by
  rw [← List.head?_filter, only_named names member]
  rfl

theorem has_veth_named (names : (host.namespaces.map Namespace.name).Nodup)
    (member : m ∈ host.namespaces) : hasVeth m.name host = m.network.isSome := by
  rw [hasVeth, ← List.any_filter, only_named names member]
  exact Bool.or_false _

theorem address_named (names : (host.namespaces.map Namespace.name).Nodup)
    (member : m ∈ host.namespaces) : netVethAddress m.name host = m.network := by
  rw [netVethAddress, find_named names member]
  rfl

/-- A namespace is torn down with the network that it has. -/
theorem torn_down (answers : DownAnswers) (veth : hasVeth m.name host = m.network.isSome) :
    TornDown m host
      (ipNetnsDel m.name (cleaned m.name m.network (tunnelStopped answers m.name host))) := by
  have others := tunnel_stopped_others answers m.name host
  rcases tunnel_stopped_host answers m.name host with ⟨routes, masquerade⟩
  have seen := (tunnel_stopped_veth answers m.name host).trans veth
  cases network : m.network with
  | none =>
      rw [network] at seen
      refine ⟨others, ?_, ?_⟩
      · rw [ipNetnsDel, cleaned, seen, network]
        exact routes
      · rw [network]
        exact masquerade
  | some net =>
      rw [network] at seen
      refine ⟨others, ?_, ?_⟩
      · have kept : hasVeth m.name
            (cleaned m.name (some net) (tunnelStopped answers m.name host)) = true := seen
        have erased : ((host.routes.erase (net, peer m.name)).filter
            fun route => route.2 ≠ peer m.name) =
              host.routes.filter fun route => route.2 ≠ peer m.name := by
          rw [← List.erase_filter]
          apply List.erase_of_not_mem
          simp
        rw [ipNetnsDel, kept, network, cleaned, iptablesDelete, ipRouteDel, routes]
        exact erased
      · rw [network, ipNetnsDel, cleaned, iptablesDelete, ipRouteDel, masquerade]

theorem netns_down_absent (answers : DownAnswers) (absent : nsExists ns host = false) :
    netnsDown answers ns host = (host, .exited) := by
  simp [netnsDown, body, seq, require, absent]

/-- `down` goes through on every namespace that exists. -/
theorem netns_down_run (answers : DownAnswers)
    (names : (host.namespaces.map Namespace.name).Nodup) (member : m ∈ host.namespaces) :
    ∃ after, netnsDown answers m.name host = (after, .ok) ∧ TornDown m host after := by
  have present := exists_named member
  have address := address_named names member
  refine ⟨_, ?_, torn_down answers (has_veth_named names member)⟩
  simp [netnsDown, body, seq, call, require, present, address, netns_destroy_run]

end down

/-- The live namespaces with a network. -/
def live (net : Nat) (host : Host) : Nat :=
  host.namespaces.countP fun m => m.network = some net

section runs

variable {routes : List (Nat × Name)} {masquerade : List Nat} {ns : Name} {host after : Host}
  {m : Namespace}

theorem live_on_top {network : Option Nat} (top : OnTop ns network host.namespaces after)
    (net : Nat) : live net after = live net host + if network = some net then 1 else 0 := by
  rcases top with ⟨fresh, _, addressed, namespaces⟩
  rw [live, namespaces, List.countP_cons, addressed]
  simp [live]

theorem live_torn_down (names : (host.namespaces.map Namespace.name).Nodup)
    (member : m ∈ host.namespaces) (torn : TornDown m host after) (net : Nat) :
    live net host = live net after + if m.network = some net then 1 else 0 := by
  have only := only_named names member
  have rest : (host.namespaces.filter fun other => !(other.name == m.name)) =
      host.namespaces.filter fun other => other.name ≠ m.name := by
    apply List.filter_congr
    intro other _
    rw [Bool.beq_eq_decide_eq, decide_not]
  rw [live, live, torn.namespaces,
    List.countP_eq_countP_filter_add host.namespaces _ fun other => other.name == m.name, only,
    rest, List.countP_singleton, Nat.add_comm]
  simp

theorem names_on_top {network : Option Nat} (names : (host.namespaces.map Namespace.name).Nodup)
    (absent : ∀ m ∈ host.namespaces, m.name ≠ ns) (top : OnTop ns network host.namespaces after) :
    (after.namespaces.map Namespace.name).Nodup := by
  rcases top with ⟨fresh, rfl, _, namespaces⟩
  rw [namespaces, List.map_cons, List.nodup_cons]
  refine ⟨?_, names⟩
  intro taken
  rcases List.mem_map.mp taken with ⟨m, member, same⟩
  exact absent m member same

theorem names_torn_down (names : (host.namespaces.map Namespace.name).Nodup)
    (torn : TornDown m host after) : (after.namespaces.map Namespace.name).Nodup := by
  rw [torn.namespaces]
  exact names.sublist (List.filter_sublist.map Namespace.name)

theorem routed_rules (routed : Routed ns host after) (net : Nat) :
    after.masquerade.count net + live net host = host.masquerade.count net + live net after := by
  rw [routed.masquerade, List.count_append, List.count_singleton, live_on_top routed.top net]
  simp only [beq_iff_eq, Option.some.injEq]
  split_ifs <;> omega

theorem live_torn_down_le (torn : TornDown m host after) (net : Nat) :
    live net after ≤ live net host := by
  rw [live, live, torn.namespaces]
  exact List.filter_sublist.countP_le

theorem torn_down_rules (names : (host.namespaces.map Namespace.name).Nodup)
    (member : m ∈ host.namespaces) (torn : TornDown m host after) (net : Nat) :
    after.masquerade.count net =
      host.masquerade.count net - (live net host - live net after) := by
  rw [live_torn_down names member torn net, torn.masquerade, Nat.add_sub_cancel_left]
  cases network : m.network with
  | none => rfl
  | some own => simp only [List.count_erase, beq_iff_eq, Option.some.injEq]

/-- What a command of the script does to a host. -/
theorem script_ends (names : (host.namespaces.map Namespace.name).Nodup)
    (invocation : Invocation) :
    Triple (· = host) (script invocation)
      (fun after => (∃ ns, Routed ns host after) ∨ ∃ m ∈ host.namespaces, TornDown m host after)
      (fun after => (∃ ns, UpEnds ns host after) ∨
        ∃ m ∈ host.namespaces, TornDown m host after) := by
  cases invocation with
  | up ns wgConfig answers =>
      apply (netns_up_ends answers ns wgConfig host).weaken
      · exact fun after routed => .inl ⟨ns, routed⟩
      · exact fun after ends => .inl ⟨ns, ends⟩
  | down ns answers =>
      rintro _ rfl after
      rw [Passes, script]
      cases present : nsExists ns _ with
      | false =>
          rw [netns_down_absent answers present]
          constructor
          · rintro (passed | passed)
            · cases (Prod.mk.inj passed).2
            · cases (Prod.mk.inj passed).2
          · intro stopped
            rw [← (Prod.mk.inj stopped).1]
            exact .inl ⟨ns, .inl rfl⟩
      | true =>
          rcases List.any_eq_true.mp present with ⟨m, member, named⟩
          cases beq_iff_eq.mp named
          rcases netns_down_run answers names member with ⟨left, run, torn⟩
          rw [run]
          constructor
          · rintro (passed | passed)
            · rw [← (Prod.mk.inj passed).1]
              exact .inr ⟨m, member, torn⟩
            · cases (Prod.mk.inj passed).2
          · intro stopped
            cases (Prod.mk.inj stopped).2

/-- Nothing stands on the host but what was there and what belongs to a live
namespace. -/
structure Accounted (routes : List (Nat × Name)) (masquerade : List Nat) (host : Host) : Prop where
  names : (host.namespaces.map Namespace.name).Nodup
  rules : ∀ net, host.masquerade.count net ≤ masquerade.count net + live net host
  routes : ∀ route ∈ host.routes, route ∈ routes ∨
    ∃ m ∈ host.namespaces, m.network = some route.1 ∧ route.2 = peer m.name

theorem Accounted.kept_route (before : Accounted routes masquerade host)
    (kept : ∀ m ∈ host.namespaces, m ∈ after.namespaces) {route : Nat × Name}
    (listed : route ∈ host.routes) :
    route ∈ routes ∨ ∃ m ∈ after.namespaces, m.network = some route.1 ∧ route.2 = peer m.name := by
  rcases before.routes route listed with old | ⟨m, member, leads⟩
  · exact .inl old
  · exact .inr ⟨m, kept m member, leads⟩

theorem Accounted.up (before : Accounted routes masquerade host) (ends : UpEnds ns host after) :
    Accounted routes masquerade after := by
  rcases ends with rfl | ⟨network, added⟩ | routed
  · exact before
  · have kept : ∀ m ∈ host.namespaces, m ∈ after.namespaces := by
      rcases added.top with ⟨fresh, _, _, namespaces⟩
      rw [namespaces]
      exact fun m member => List.mem_cons_of_mem fresh member
    refine ⟨names_on_top before.names added.absent added.top, ?_, ?_⟩
    · intro net
      have rules := before.rules net
      rw [added.masquerade, live_on_top added.top net]
      omega
    · intro route listed
      rw [added.routes] at listed
      exact before.kept_route kept listed
  · refine ⟨names_on_top before.names routed.absent routed.top, ?_, ?_⟩
    · intro net
      have rules := before.rules net
      have balance := routed_rules routed net
      omega
    · rcases routed.top with ⟨fresh, named, addressed, namespaces⟩
      have kept : ∀ m ∈ host.namespaces, m ∈ after.namespaces := by
        rw [namespaces]
        exact fun m member => List.mem_cons_of_mem fresh member
      intro route listed
      rw [routed.routes] at listed
      rcases List.mem_cons.mp listed with rfl | old
      · refine .inr ⟨fresh, ?_, addressed, ?_⟩
        · rw [namespaces]
          exact List.mem_cons_self
        · rw [named]
      · exact before.kept_route kept (List.mem_of_mem_eraseP old)

theorem Accounted.down (before : Accounted routes masquerade host) (member : m ∈ host.namespaces)
    (torn : TornDown m host after) : Accounted routes masquerade after := by
  refine ⟨names_torn_down before.names torn, ?_, ?_⟩
  · intro net
    have rules := before.rules net
    have fewer := live_torn_down_le torn net
    rw [torn_down_rules before.names member torn net]
    omega
  · intro route listed
    have left : route ∈ host.routes ∧ (m.network.isSome = true → route.2 ≠ peer m.name) := by
      rw [torn.routes] at listed
      split_ifs at listed with veth
      · rcases List.mem_filter.mp listed with ⟨old, other⟩
        exact ⟨old, fun _ => of_decide_eq_true other⟩
      · exact ⟨listed, fun veth' => absurd veth' veth⟩
    rcases before.routes route left.1 with old | ⟨owner, lives, network, leads⟩
    · exact .inl old
    · refine .inr ⟨owner, ?_, network, leads⟩
      rw [torn.namespaces, List.mem_filter]
      refine ⟨lives, decide_eq_true ?_⟩
      intro same
      have own : owner = m := List.inj_on_of_nodup_map before.names lives member same
      subst own
      exact left.2 (by rw [network]; rfl) leads

theorem Accounted.step (before : Accounted routes masquerade host) (invocation : Invocation) :
    Accounted routes masquerade (script invocation host).1 := by
  have ends := (script_ends before.names invocation).ends
    (fun _ passed => passed.imp_left fun ⟨ns, routed⟩ => ⟨ns, routed.ends⟩) rfl
  rcases ends with ⟨ns, ends⟩ | ⟨m, member, torn⟩
  · exact before.up ends
  · exact before.down member torn

/-- Whatever the commands of a run are answered, there are no more NAT rules for a network
than there were and live namespaces have it, and no new route that does not
lead to a live namespace. -/
theorem veth_leaves_nothing (reached : (hosts routes masquerade).Reachable host) :
    (∀ net, host.masquerade.count net ≤ masquerade.count net + live net host) ∧
      ∀ route ∈ host.routes, route ∈ routes ∨
        ∃ m ∈ host.namespaces, m.network = some route.1 ∧ route.2 = peer m.name := by
  have accounted : Accounted routes masquerade host := by
    apply reached.invariant (Accounted routes masquerade)
    · exact ⟨List.nodup_nil, fun _ => Nat.le_refl _, fun _ listed => .inl listed⟩
    · intro host invocation next before taken
      cases taken
      exact before.step invocation
  exact ⟨accounted.rules, accounted.routes⟩

/-- The second `up` does not find its servers; the first namespace goes with
what it has. -/
theorem veth_leaves_nothing_half_built :
    ∃ host : Host, host.namespaces.length = 1 ∧ host.routes = [] ∧
      (∀ net, host.masquerade.count net ≤ [7].count net + live net host) ∧
      ∀ route ∈ host.routes, route ∈ [] ∨
        ∃ m ∈ host.namespaces, m.network = some route.1 ∧ route.2 = peer m.name := by
  rcases StepSystem.reachable_of_run (hosts [] [7])
    [.up ['a'] [] answered, .up ['b'] [] { answered with serversResolve := false },
      .down ['a'] ⟨⟨[], []⟩, false⟩]
    (fun host => decide (host.namespaces.length = 1 ∧ host.routes = [])) (by decide +kernel)
    with ⟨host, reached, passes⟩
  rcases of_decide_eq_true passes with ⟨one, unrouted⟩
  exact ⟨host, one, unrouted, veth_leaves_nothing reached⟩

/-- Each live namespace has its NAT rule. -/
structure Ruled (masquerade : List Nat) (host : Host) : Prop where
  names : (host.namespaces.map Namespace.name).Nodup
  rules : ∀ net, host.masquerade.count net = masquerade.count net + live net host

theorem Ruled.step (before : Ruled masquerade host) {invocation : Invocation}
    (succeeds : Succeeds host invocation) : Ruled masquerade (script invocation host).1 := by
  have ended : script invocation host = ((script invocation host).1, .ok) :=
    Prod.ext rfl succeeds
  rcases (script_ends before.names invocation).ok rfl ended with
    ⟨ns, routed⟩ | ⟨m, member, torn⟩
  · refine ⟨names_on_top before.names routed.absent routed.top, ?_⟩
    intro net
    have rules := before.rules net
    have balance := routed_rules routed net
    omega
  · refine ⟨names_torn_down before.names torn, ?_⟩
    intro net
    have rules := before.rules net
    have fewer := live_torn_down_le torn net
    rw [torn_down_rules before.names member torn net]
    omega

/-- As long as the commands succeed, each network has a NAT rule for each live
namespace that has it, beside those that were there. -/
theorem veth_rules_exact
    (reached : ((hosts routes masquerade).restrict Succeeds).Reachable host) (net : Nat) :
    host.masquerade.count net = masquerade.count net + live net host := by
  have ruled : Ruled masquerade host := by
    apply reached.invariant (Ruled masquerade)
    · exact ⟨List.nodup_nil, fun _ => rfl⟩
    · apply StepSystem.restrict_preserved
      intro host invocation next before succeeds taken
      cases taken
      exact before.step succeeds
  exact ruled.rules net

/-- Two namespaces with one network have a rule each. -/
theorem veth_rules_exact_same_network :
    ∃ host : Host, live 2 host = 2 ∧ host.masquerade.count 2 = [].count 2 + live 2 host := by
  rcases StepSystem.reachable_of_run ((hosts [] []).restrict Succeeds)
    [.up ['a'] [] answered, .up ['b'] [] answered, .down ['a'] ⟨⟨[], []⟩, false⟩,
      .up ['c'] [] answered]
    (fun host => decide (live 2 host = 2)) (by decide +kernel) with ⟨host, reached, passes⟩
  exact ⟨host, of_decide_eq_true passes, veth_rules_exact reached 2⟩

end runs

end Testings.NetnsVeth

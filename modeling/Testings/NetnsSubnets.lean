import Testings.NetnsMulti
import Mathlib.Logic.Function.Basic

/-!
# The networks of live namespaces

`up` numbers its network by the count of namespaces that are alive. A count
that was met before, by a namespace that is still alive, gives that
namespace's network a second time.
-/

set_option autoImplicit false

namespace Testings.Netns

/-- The host route and the MASQUERADE rule of a namespace are those of its network. -/
def DistinctNetworks (host : Host) : Prop :=
  host.namespaces.Pairwise fun m other => m.network ≠ other.network

instance (host : Host) : Decidable (DistinctNetworks host) := by
  unfold DistinctNetworks
  infer_instance

def VethOnly (_host : Host) : Invocation → Prop
  | .up _ _ iface _ => iface = []
  | .down _ _ => True

instance (host : Host) (invocation : Invocation) : Decidable (VethOnly host invocation) := by
  unfold VethOnly
  split <;> infer_instance

/-- How many namespaces were alive when each one was brought up. -/
def recordCount (host : Host) (invocation : Invocation) (_next : Host) (counts : Name → Nat) :
    Name → Nat :=
  match invocation with
  | .up ns _ _ _ => Function.update counts ns host.namespaces.length
  | .down _ _ => counts

def counted (routes : List (Nat × Name)) (masquerade : List Nat) :
    StepSystem (Host × (Name → Nat)) Invocation :=
  (hosts routes masquerade).observe (fun _ => 0) recordCount

/-- No live namespace was brought up when exactly as many were alive as now. -/
def NewCount (state : Host × (Name → Nat)) : Invocation → Prop
  | .up _ _ _ _ => ∀ m ∈ state.1.namespaces, state.2 m.name ≠ state.1.namespaces.length
  | .down _ _ => True

instance (state : Host × (Name → Nat)) (invocation : Invocation) :
    Decidable (NewCount state invocation) := by
  unfold NewCount
  split <;> infer_instance

/-- The number of a live namespace's network is one more than its count. -/
def Numbered (state : Host × (Name → Nat)) : Prop :=
  ∀ m ∈ state.1.namespaces, m.network = some (state.2 m.name + 1)

theorem numbered_step {host next : Host} {invocation : Invocation} {counts : Name → Nat}
    (before : Numbered (host, counts)) (veth : VethOnly host invocation)
    (taken : step host invocation = some next) :
    Numbered (next, recordCount host invocation next counts) := by
  cases invocation with
  | up ns wgConfig iface answers =>
      subst veth
      obtain ⟨absent, fresh, named, addressed, namespaces⟩ := up_ok (step_ok.mp taken)
      intro m member
      simp only [recordCount]
      rcases List.mem_cons.mp (namespaces ▸ member) with new | old
      · rw [new, named, addressed, Function.update_self]
      · rw [Function.update_of_ne (absent m old)]
        exact before m old
  | down ns answers =>
      obtain ⟨_, _, namespaces⟩ := down_ok (step_ok.mp taken)
      intro m member
      exact before m (List.mem_of_mem_filter (namespaces ▸ member))

/-- What an `up` adds collides exactly when its count was met by a namespace
that is alive. -/
theorem distinct_up_iff {host next : Host} {ns wgConfig : Name} {answers : UpAnswers}
    {counts : Name → Nat} (before : Numbered (host, counts)) (distinct : DistinctNetworks host)
    (taken : step host (.up ns wgConfig [] answers) = some next) :
    DistinctNetworks next ↔ NewCount (host, counts) (.up ns wgConfig [] answers) := by
  obtain ⟨_, fresh, _, addressed, namespaces⟩ := up_ok (step_ok.mp taken)
  have others : host.namespaces.Pairwise fun m other => m.network ≠ other.network := distinct
  rw [DistinctNetworks, namespaces, List.pairwise_cons, and_iff_left others, NewCount]
  constructor
  · intro apart m member same
    apply apart m member
    rw [addressed, before m member, same]
  · intro new m member same
    rw [addressed, before m member] at same
    exact new m member (Nat.succ.inj (Option.some.inj same)).symm

theorem distinct_step {host next : Host} {invocation : Invocation} {counts : Name → Nat}
    (before : Numbered (host, counts)) (distinct : DistinctNetworks host)
    (veth : VethOnly host invocation) (new : NewCount (host, counts) invocation)
    (taken : step host invocation = some next) : DistinctNetworks next := by
  cases invocation with
  | up ns wgConfig iface answers =>
      subst veth
      exact (distinct_up_iff before distinct taken).mpr new
  | down ns answers =>
      rw [DistinctNetworks, (down_ok (step_ok.mp taken)).2.2]
      exact List.Pairwise.filter _ distinct

theorem distinct_start (routes : List (Nat × Name)) (masquerade : List Nat) :
    DistinctNetworks (hosts routes masquerade).start :=
  List.Pairwise.nil

theorem live_networks_distinct (routes : List (Nat × Name)) (masquerade : List Nat)
    (state : Host × (Name → Nat))
    (reached : ((counted routes masquerade).restrict fun state invocation =>
      VethOnly state.1 invocation ∧ NewCount state invocation).Reachable state) :
    DistinctNetworks state.1 := by
  have kept : Numbered state ∧ DistinctNetworks state.1 := by
    apply reached.invariant (fun state => Numbered state ∧ DistinctNetworks state.1)
    · refine ⟨?_, distinct_start routes masquerade⟩
      intro m member
      cases member
    · apply StepSystem.restrict_observe_preserved
      intro host invocation next counts before permitted taken
      exact ⟨numbered_step before.1 permitted.1 taken,
        distinct_step before.1 before.2 permitted.1 permitted.2 taken⟩
  exact kept.2

def answered : UpAnswers where
  linkAdded := true
  serversResolve := true
  routesAdded := true
  interfaceExists := true
  configFound := true
  vpnStarts := true
  tunnelListed := true
  defGw := false

theorem live_networks_distinct_after_down :
    ∃ host : Host, host.namespaces.map Namespace.network = [some 2, some 1] ∧
      DistinctNetworks host := by
  obtain ⟨state, reached, passes⟩ := StepSystem.reachable_of_run
    ((counted [] []).restrict fun state invocation =>
      VethOnly state.1 invocation ∧ NewCount state invocation)
    [.up ['a'] [] [] answered, .up ['b'] [] [] answered, .down ['b'] ⟨[7], [7]⟩,
      .up ['c'] [] [] answered]
    (fun state => decide (state.1.namespaces.map Namespace.network = [some 2, some 1]))
    (by decide +kernel)
  exact ⟨state.1, of_decide_eq_true passes, live_networks_distinct [] [] state reached⟩

/-- `a` goes while `b` has network 2; `c` is the second namespace again. -/
theorem earlier_down_repeats_network :
    ¬∀ (routes : List (Nat × Name)) (masquerade : List Nat) (host : Host),
      ((hosts routes masquerade).restrict VethOnly).Reachable host → DistinctNetworks host := by
  intro always
  obtain ⟨host, reached, passes⟩ := StepSystem.reachable_of_run
    ((hosts [] []).restrict VethOnly)
    [.up ['a'] [] [] answered, .up ['b'] [] [] answered, .down ['a'] ⟨[7], [7]⟩,
      .up ['c'] [] [] answered]
    (fun host => decide ¬DistinctNetworks host) (by decide +kernel)
  exact of_decide_eq_true passes (always [] [] host reached)

def YoungestFirst (host : Host) : Invocation → Prop
  | .up _ _ _ _ => True
  | .down ns _ => ∀ m ∈ host.namespaces.head?, m.name = ns

instance (host : Host) (invocation : Invocation) : Decidable (YoungestFirst host invocation) := by
  unfold YoungestFirst
  split <;> infer_instance

/-- Each namespace was brought up on top of those that are listed after it. -/
def Stacked (counts : Name → Nat) : List Namespace → Prop
  | [] => True
  | m :: rest => counts m.name = rest.length ∧ (∀ other ∈ rest, other.name ≠ m.name) ∧
      Stacked counts rest

theorem Stacked.count_lt {counts : Name → Nat} {namespaces : List Namespace}
    (stacked : Stacked counts namespaces) :
    ∀ m ∈ namespaces, counts m.name < namespaces.length := by
  induction namespaces with
  | nil => nofun
  | cons first rest induction =>
      intro m member
      rw [List.length_cons]
      rcases List.mem_cons.mp member with rfl | later
      · rw [stacked.1]
        exact Nat.lt_succ_self _
      · exact Nat.lt_succ_of_lt (induction stacked.2.2 m later)

theorem stacked_update {counts : Name → Nat} {ns : Name} {namespaces : List Namespace}
    (absent : ∀ m ∈ namespaces, m.name ≠ ns) (count : Nat) (stacked : Stacked counts namespaces) :
    Stacked (Function.update counts ns count) namespaces := by
  induction namespaces with
  | nil => trivial
  | cons first rest induction =>
      refine ⟨?_, stacked.2.1, ?_⟩
      · rw [Function.update_of_ne (absent first List.mem_cons_self)]
        exact stacked.1
      · exact induction (fun m member => absent m (List.mem_cons_of_mem _ member)) stacked.2.2

theorem stacked_step {host next : Host} {invocation : Invocation} {counts : Name → Nat}
    (before : Stacked counts host.namespaces) (veth : VethOnly host invocation)
    (youngest : YoungestFirst host invocation) (taken : step host invocation = some next) :
    Stacked (recordCount host invocation next counts) next.namespaces := by
  cases invocation with
  | up ns wgConfig iface answers =>
      subst veth
      obtain ⟨absent, fresh, rfl, _, namespaces⟩ := up_ok (step_ok.mp taken)
      rw [namespaces]
      refine ⟨?_, absent, stacked_update absent _ before⟩
      rw [recordCount, Function.update_self]
  | down ns answers =>
      obtain ⟨_, _, namespaces⟩ := down_ok (step_ok.mp taken)
      rw [namespaces, recordCount]
      cases listed : host.namespaces with
      | nil => trivial
      | cons m rest =>
          rw [listed] at before
          have named : m.name = ns := youngest m (by rw [listed]; rfl)
          subst named
          have kept : rest.filter (fun other => other.name ≠ m.name) = rest := by
            rw [List.filter_eq_self]
            intro other member
            exact decide_eq_true (before.2.1 other member)
          rw [List.filter_cons_of_neg (by simp), kept]
          exact before.2.2

/-- Hosts whose namespaces are taken down in the reverse of their order never
use a network twice. -/
theorem youngest_first_distinct (routes : List (Nat × Name)) (masquerade : List Nat) (host : Host)
    (reached : ((hosts routes masquerade).restrict fun host invocation =>
      VethOnly host invocation ∧ YoungestFirst host invocation).Reachable host) :
    DistinctNetworks host := by
  have kept : ∃ counts, Numbered (host, counts) ∧ DistinctNetworks host ∧
      Stacked counts host.namespaces := by
    apply reached.invariant (fun host => ∃ counts, Numbered (host, counts) ∧
      DistinctNetworks host ∧ Stacked counts host.namespaces)
    · refine ⟨fun _ => 0, ?_, distinct_start routes masquerade, trivial⟩
      intro m member
      cases member
    · apply StepSystem.restrict_preserved
      rintro host invocation next ⟨counts, numbered, distinct, stacked⟩ ⟨veth, youngest⟩ taken
      have new : NewCount (host, counts) invocation := by
        cases invocation with
        | up ns wgConfig iface answers =>
            intro m member
            exact Nat.ne_of_lt (stacked.count_lt m member)
        | down ns answers => trivial
      exact ⟨_, numbered_step numbered veth taken, distinct_step numbered distinct veth new taken,
        stacked_step stacked veth youngest taken⟩
  obtain ⟨_, _, distinct, _⟩ := kept
  exact distinct

end Testings.Netns

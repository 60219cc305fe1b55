import Testings.XorProxyClients

/-!
# The record in use

`get_client` drops the lock before the main loop uses the record it returned.
The cleanup thread compares that record's time with a clock reading of its own,
made before it took the lock. With a clock that never goes back, a reading made
before `get_client` spares the record; only a reading made while the main loop
holds it, and more than `CLIENT_TIMEOUT` later, can free it under the main loop.
-/

set_option autoImplicit false

namespace Testings.XorProxy

/-- The record the main loop is about to use is in the list and its socket is open. -/
def RecordAlive (s : Server) : Prop :=
  ∀ c ∈ s.main.record, c ∈ s.proxy.clients ∧ (s.proxy.sockets c.remoteFd).isSome = true

instance (s : Server) : Decidable (RecordAlive s) := by
  unfold RecordAlive
  infer_instance

def ClockForward (s : Server) : Action → Prop
  | .setClock time => s.clock ≤ time
  | _ => True

instance (s : Server) (action : Action) : Decidable (ClockForward s action) := by
  unfold ClockForward
  split <;> infer_instance

/-- Whether the pending clock reading was made while the main loop held the
record that it holds now. -/
def recordReading (s : Server) (action : Action) (_next : Server) (within : Bool) : Bool :=
  match action with
  | .request _ _ _ => false
  | .readClock => s.main.record.isSome
  | _ => within

def readings (key : ProxyKey) : StepSystem (Server × Bool) Action :=
  (server key).observe false recordReading

/-- No sweep goes by a reading made within the use of a record and more than
`CLIENT_TIMEOUT` after the `get_client` that returned it. -/
def UsedInTime (state : Server × Bool) : Action → Prop
  | .sweep => state.2 = true → ∀ now ∈ state.1.cleanup, ∀ c ∈ state.1.main.record,
      now - c.lastSeen ≤ clientTimeout
  | _ => True

instance (state : Server × Bool) (action : Action) : Decidable (UsedInTime state action) := by
  unfold UsedInTime
  split <;> infer_instance

structure LifetimeInv (state : Server × Bool) : Prop where
  table : TableInv state.1.proxy
  held : ∀ c ∈ state.1.main.record, c ∈ state.1.proxy.clients
  past : ∀ now ∈ state.1.cleanup, now ≤ state.1.clock
  stale : state.2 = false → ∀ now ∈ state.1.cleanup, ∀ c ∈ state.1.main.record, now ≤ c.lastSeen

theorem LifetimeInv.alive {state : Server × Bool} (inv : LifetimeInv state) :
    RecordAlive state.1 := by
  intro c record
  have member := inv.held c record
  exact ⟨member, (inv.table.opened _).mpr (List.mem_map_of_mem member)⟩

/-- A reading that is not later than `get_client`, or in time, spares the record. -/
theorem LifetimeInv.spared {s : Server} {within : Bool} (before : LifetimeInv (s, within))
    (inTime : UsedInTime (s, within) .sweep) {now : Int} (reading : s.cleanup = some now)
    {c : Client} (record : s.main.record = some c) : idle now c = false := by
  have early : now - c.lastSeen ≤ clientTimeout := by
    cases within with
    | true => exact inTime rfl now reading c record
    | false =>
        have notLater := before.stale rfl now reading c record
        unfold clientTimeout
        omega
  rw [idle, decide_eq_false_iff_not]
  omega

theorem lifetime_step {s next : Server} {action : Action} {within : Bool}
    (before : LifetimeInv (s, within)) (forward : ClockForward s action)
    (inTime : UsedInTime (s, within) action) (taken : step s action = some next) :
    LifetimeInv (next, recordReading s action next within) := by
  have table := table_step before.table taken
  cases step_cases taken with
  | setClock time =>
      refine ⟨table, before.held, ?_, before.stale⟩
      intro now reading
      exact Int.le_trans (before.past now reading) forward
  | ignored _ _ ready | refused _ _ _ ready =>
      refine ⟨table, before.held, before.past, ?_⟩
      intro _ now _ c record
      rw [ready] at record
      cases record
  | renewed _ _ _ _ c clients _ _ known =>
      -- the record's time is the clock, which no reading is ahead of
      obtain ⟨member, _, lastSeen, _⟩ := touch_some known
      refine ⟨table, ?_, before.past, ?_⟩
      · rintro _ ⟨⟩
        exact member
      · rintro _ now reading _ ⟨⟩
        rw [lastSeen]
        exact before.past now reading
  | opened =>
      refine ⟨table, ?_, before.past, ?_⟩
      · rintro _ ⟨⟩
        exact List.mem_cons_self
      · rintro _ now reading _ ⟨⟩
        exact before.past now reading
  | send c data point alive =>
      refine ⟨table, ?_, before.past, ?_⟩
      · rintro _ ⟨⟩
        exact alive
      · rintro early now reading _ ⟨⟩
        exact before.stale early now reading c (by rw [point]; rfl)
  | nothing | dropped | forward => exact ⟨table, nofun, before.past, nofun⟩
  | received c reply masked unread point alive =>
      refine ⟨table, ?_, before.past, ?_⟩
      · rintro _ ⟨⟩
        exact alive
      · rintro early now reading _ ⟨⟩
        exact before.stale early now reading c (by rw [point]; rfl)
  | arrive => exact ⟨table, before.held, before.past, before.stale⟩
  | readClock waiting =>
      refine ⟨table, before.held, ?_, ?_⟩
      · rintro _ ⟨⟩
        exact Int.le_refl _
      · intro early now _ c record
        rw [recordReading, record] at early
        cases early
  | sweep now reading =>
      refine ⟨table, ?_, nofun, nofun⟩
      intro c record
      exact mem_sweep.mpr ⟨before.held c record, before.spared inTime reading record⟩

theorem lifetime_start (key : ProxyKey) : LifetimeInv (serverStart key, false) where
  table := table_start key
  held := nofun
  past := nofun
  stale := nofun

theorem record_stays_alive (key : ProxyKey) (state : Server × Bool)
    (reached : ((readings key).restrict fun state action =>
      ClockForward state.1 action ∧ UsedInTime state action).Reachable state) :
    RecordAlive state.1 := by
  apply LifetimeInv.alive
  apply reached.invariant LifetimeInv (lifetime_start key)
  apply StepSystem.restrict_observe_preserved
  intro s action next within before permitted taken
  exact lifetime_step before permitted.1 permitted.2 taken

theorem record_stays_alive_sweep_in_time :
    ∃ s : Server, s.main.record = some ⟨⟨2, 40000, 0x7F000001⟩, 3, 0⟩ ∧ s.clock = 60 ∧
      RecordAlive s := by
  obtain ⟨state, reached, passes⟩ := StepSystem.reachable_of_run
    ((readings (multiCleanupKey ⟨[0x6B], by decide⟩)).restrict fun state action =>
      ClockForward state.1 action ∧ UsedInTime state action)
    [.request ⟨2, 40000, 0x7F000001⟩ [0x01] (.socket 3), .setClock 60, .readClock, .sweep, .send]
    (fun state => decide (state.1.main.record = some ⟨⟨2, 40000, 0x7F000001⟩, 3, 0⟩ ∧
      state.1.clock = 60)) (by decide +kernel)
  obtain ⟨record, clock⟩ := of_decide_eq_true passes
  exact ⟨state.1, record, clock, record_stays_alive _ state reached⟩

/-- A sweep that is not in time frees the record in use. -/
theorem late_sweep_frees_record {s next : Server} {within : Bool}
    (late : ¬UsedInTime (s, within) .sweep) (taken : step s .sweep = some next) :
    ¬RecordAlive next := by
  simp only [UsedInTime, not_forall] at late
  obtain ⟨_, now, reading, c, record, gone⟩ := late
  intro alive
  cases step_cases taken with
  | sweep reading' same =>
      cases same.symm.trans reading
      obtain ⟨_, kept⟩ := mem_sweep.mp (alive c record).1
      rw [idle, decide_eq_false_iff_not] at kept
      omega

/-- More than a minute passes between `get_client` and `sendto`. -/
theorem stalled_main_loop_loses_record :
    ¬∀ (key : ProxyKey) (s : Server), ((server key).restrict ClockForward).Reachable s →
      RecordAlive s := by
  intro always
  obtain ⟨s, reached, passes⟩ := StepSystem.reachable_of_run
    ((server (multiCleanupKey ⟨[0x6B], by decide⟩)).restrict ClockForward)
    [.request ⟨2, 40000, 0x7F000001⟩ [0x01] (.socket 3), .setClock 61, .readClock, .sweep]
    (fun s => decide ¬RecordAlive s) (by decide +kernel)
  exact of_decide_eq_true passes (always _ s reached)

end Testings.XorProxy

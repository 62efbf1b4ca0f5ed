import LosantDevice.Sync.Outcome
import LosantDevice.Sync.World

/-!
# What a stored status says is true

Every status in the log was written by a job whose calls are on record. An active status names
a sync that was reported, a degraded one a sync that failed, the bootstrap is never taken back,
and the time of the last sync moves only with the write that ends a successful sync. An active
status names the next sync exactly if the schedule has one.
-/
namespace LosantDevice.Sync
open Effect Kube Go Program Monitor

variable {lib : Externals} {σ : System losantSync calls (Except String Result)} {c : Config σ}

/-! ## The end of a job -/

theorem observe_ended {e : Event interface} {v : View} (hv : v.ended = true) :
    (observe e v).ended = true := by
  unfold observe
  split
  case h_1 => split <;> simp [hv]
  all_goals first | exact hv | (split <;> exact hv)

theorem view_append_ended (p : Past) {h : Past} (hv : (view h).ended = true) :
    (view (p ++ h)).ended = true := by
  induction p with
  | nil => exact hv
  | cons e p ih => exact observe_ended ih

def IsClock (e : interface.Call) : Prop := ∃ site, e = .inr (.now site)

theorem Permits.isClock {h : Past} {e : interface.Call} (hp : Permits h e)
    (hv : (view h).ended = true) : IsClock e := by
  cases e with
  | inl e =>
    cases e with
    | get =>
      obtain rfl : h = [] := hp
      cases hv
    | update | updateStatus => exact absurd (hv.symm.trans hp.1) (by decide)
  | inr e =>
    cases e with
    | now site => exact ⟨site,rfl⟩
    | rangeNodes | rangeDevices | healthSnapshot | getSecret | getDeployment | patchDeployment
    | reportState => exact absurd (hv.symm.trans hp) (by decide)
    | createSecret | updateSecret | losant => exact absurd (hv.symm.trans hp.1) (by decide)

/-- The history `h` is that of a job that wrote the status of `a` after the calls `k` and from
then on has only read the clock. -/
def EndedBy (h : Past) (a : LosantSync) (k : Past) : Prop :=
  ∃ v p, h = p ++ ⟨.inl (.updateStatus a),.ok v⟩::k ∧ ∀ e ∈ p, IsClock e.call

theorem endedBy_of_active (hc : c.Traced Permits) {h k : Past} {a : LosantSync} {v : ℕ}
    (hh : h ∈ c.histories) (he : ⟨.inl (.updateStatus a),.ok v⟩::k <:+ h)
    (ha : a.status.phase = .active) : EndedBy h a k := by
  obtain ⟨p,rfl⟩ := he
  refine ⟨v,p,rfl,fun e hep => ?_⟩
  obtain ⟨p₁,p₂,rfl⟩ := List.append_of_mem hep
  have hend : (view (⟨.inl (.updateStatus a),.ok v⟩::k)).ended = true := by
    change ((view k).ended || decide (a.status.phase = .active)) = true
    simp [ha]
  refine Permits.isClock (hc.allowed hh ⟨p₁,?_⟩) (view_append_ended p₂ hend)
  simp

/-! ## The statuses -/

theorem encode_conditions (t : LosantSyncStatus) {ty : SyncCondition} {v : ConditionStatus} :
    HasStatus t.encode.conditions ty v ↔ HasStatus t.conditions ty v := hasStatus_map_encode

/-- The times of a status that ends a sync. That of the sync is there unless the clock showed the
zero time, that of the next sync exactly if the schedule has a tick after the reading it is
computed from. -/
structure Timed (lib : Externals) (spec : LosantSyncSpec) (k : Past) (t : LosantSyncStatus) :
    Prop where
  last : ∃ u : Time, (⟨.inr (.now .lastSync),u⟩ : Event interface) ∈ k ∧
    (t.lastSyncTime.isSome ↔ Storable u)
  next : ∃ u, (view k).scheduled = some u ∧ (t.nextScheduledTime.isSome ↔ Ticks lib spec u)

theorem Outcome.timed {h : Past} {b : LosantSync} {t : LosantSyncStatus}
    (ho : Outcome lib h b t) (hp : t.phase = .active) : Timed lib b.spec h t.encode := by
  obtain ⟨⟨u,hu,hlast⟩,⟨v,hv,hnext⟩,-⟩ := ho.of_active hp
  refine ⟨⟨u,hu,?_⟩,v,hv,?_⟩
  · change (storedTime t.lastSyncTime).isSome ↔ _
    rw [hlast]
    exact isSome_storedTime_iff.trans (by simp)
  · change (storedTime t.nextScheduledTime).isSome ↔ _
    rw [hnext]
    exact isSome_storedTime_iff

/-- What a status says about the sync that wrote it. -/
structure HonestStatus (lib : Externals) (c : Config σ) (t : LosantSyncStatus) : Prop where
  active : t.phase = .active →
    HasStatus t.conditions .geaBootstrapped .true ∧
    HasStatus t.conditions .devicesProvisioned .true ∧
    HasStatus t.conditions .geaReachable .true ∧
    HasStatus t.conditions .lastSyncSucceeded .true ∧
    ∃ h ∈ c.histories, ∃ a k, EndedBy h a k ∧ t = a.status.encode ∧ Reported k t ∧
      Timed lib a.spec k t
  degraded : t.phase = .degraded → HasStatus t.conditions .lastSyncSucceeded .false

theorem honestStatus (hc : c.Traced fun h e => Permits h e ∧ Tells lib h e) {o : LosantSync}
    (ho : some o ∈ c.server.log) : HonestStatus lib c o.status := by
  rcases hc.status_written (List.suffix_refl _) ho with hi | ⟨h,hh,a,v,k,he,ht⟩
  · rw [hi]
    exact ⟨nofun,nofun⟩
  · obtain ⟨⟨-,b,hb,-,hspec,hw⟩,b',hb',hout⟩ := hc.allowed hh he
    obtain rfl : b = b' := Option.some.inj (hb.1.symm.trans hb')
    have ht : o.status = a.status.encode := ht
    rw [ht]
    refine ⟨fun hp => ?_,fun hp => (encode_conditions _).mpr (hw.of_degraded hp)⟩
    obtain ⟨hcond,hrep⟩ := hw.of_active hp
    have htraced : c.Traced Permits := hc.mono fun _ _ h => h.1
    refine ⟨(encode_conditions _).mpr (hcond _ (by decide)),
      (encode_conditions _).mpr (hcond _ (by decide)),
      (encode_conditions _).mpr (hcond _ (by decide)),
      (encode_conditions _).mpr (hcond _ (by decide)),
      h,hh,a,k,endedBy_of_active htraced hh he hp,rfl,hrep,?_⟩
    rw [hspec]
    exact hout.timed hp

/-- The bootstrap is kept from one state of an object to the next. -/
theorem bootstrapped_step (hc : c.Traced Permits) {o b : LosantSync} {l : List (Option LosantSync)}
    (hl : some o::some b::l <:+ c.server.log) (hu : o.metadata.uid = b.metadata.uid)
    (hb : HasStatus b.status.conditions .geaBootstrapped .true) :
    HasStatus o.status.conditions .geaBootstrapped .true := by
  rcases hc.status_step hl hu with hst | ⟨h,hm,a,v,k,he,hcopy,rfl⟩
  · rw [hst]
    exact hb
  · obtain ⟨-,b',hb',-,-,hw⟩ := hc.allowed hm he
    obtain rfl : b = b' := Option.some.inj (hcopy.symm.trans hb'.1)
    exact (encode_conditions _).mpr (hw.boot hb)

/-- The time of the last sync moves only with the write that ends a reported sync. -/
theorem lastSync_step (hc : c.Traced Permits) {o b : LosantSync} {l : List (Option LosantSync)}
    (hl : some o::some b::l <:+ c.server.log) (hu : o.metadata.uid = b.metadata.uid)
    (hne : o.status.lastSyncTime ≠ b.status.lastSyncTime) :
    o.status.phase = .active ∧ ∃ h ∈ c.histories, ∃ a k, EndedBy h a k ∧ lastCopy k = some b ∧
      o.status = a.status.encode ∧ Reported k o.status := by
  have henc : storedTime b.status.lastSyncTime = b.status.lastSyncTime := by
    have hmem : some b ∈ c.server.log := hl.subset (by simp)
    exact congrArg LosantSyncStatus.lastSyncTime (hc.server.encoded hmem)
  rcases hc.status_step hl hu with hst | ⟨h,hm,a,v,k,he,hcopy,rfl⟩
  · rw [hst] at hne
    exact absurd rfl hne
  · obtain ⟨-,b',hb',-,-,hw⟩ := hc.allowed hm he
    obtain rfl : b = b' := Option.some.inj (hcopy.symm.trans hb'.1)
    have hne : storedTime a.status.lastSyncTime ≠ b.status.lastSyncTime := hne
    rcases hw.lastSync with hls | hp
    · rw [hls] at hne
      exact absurd henc hne
    · obtain ⟨-,hrep⟩ := hw.of_active hp
      exact ⟨hp,h,hm,a,k,endedBy_of_active hc hm he hp,hcopy,rfl,hrep⟩

/-- In every reachable configuration, whatever users do and whatever the calls answer. -/
theorem status_honest (lib : Externals) (σ : System losantSync calls (Except String Result))
    (hmain : σ.main = reconcile lib) (c : Config σ) (hc : σ.Reachable c) :
    (∀ o, some o ∈ c.server.log → HonestStatus lib c o.status) ∧
    (∀ o l o', some o::l <:+ c.server.log → some o' ∈ l → o'.metadata.uid = o.metadata.uid →
      HasStatus o'.status.conditions .geaBootstrapped .true →
      HasStatus o.status.conditions .geaBootstrapped .true ∧
        ¬HasStatus o.status.conditions .geaBootstrapped .false) ∧
    (∀ o b l, some o::some b::l <:+ c.server.log → o.metadata.uid = b.metadata.uid →
      o.status.lastSyncTime ≠ b.status.lastSyncTime →
      o.status.phase = .active ∧ ∃ h ∈ c.histories, ∃ a k, EndedBy h a k ∧ lastCopy k = some b ∧
        o.status = a.status.encode ∧ Reported k o.status) := by
  have ht := traced hmain hc
  refine ⟨fun o ho => honestStatus (traced_telling hmain hc) ho,?_,fun o b l hl hu hne =>
    lastSync_step ht hl hu hne⟩
  intro o l o' hl ho' hu hb
  have htrue := ht.inherits (P := fun o => HasStatus o.status.conditions .geaBootstrapped .true)
    (fun hl hu hb => bootstrapped_step ht hl hu hb) hl ho' hu hb
  exact ⟨htrue,fun hfalse => absurd (htrue.unique hfalse) (by decide)⟩

/-! ## A run that becomes active -/

/-- A world that says nothing about the answers. -/
def anyAnswers (lib : Externals) : System losantSync calls (Except String Result) where
  World := Unit
  start _ := True
  answers _ _ _ _ := True
  others _ _ := False
  main := reconcile lib

/-- Every call succeeds, there are no credentials yet and no nodes. -/
def smooth (h : Past) : (e : Call) → Option (calls.Answer e)
  | .now _ => some (h.length*second : ℤ)
  | .rangeNodes m => if hm : m = ∅ then some ⟨[],by rw [hm]; rfl⟩ else none
  | .rangeDevices m => if hm : m = ∅ then some ⟨[],by rw [hm]; rfl⟩ else none
  | .healthSnapshot => some ({},∅)
  | .getSecret ref =>
    if ref.name = geaCredentialsSecretName then some (.error ⟨.notFound,"secrets not found"⟩)
    else some (.ok { data := (∅ : GoMap String).insert "api-token" "token" })
  | .createSecret _ => some (.ok ())
  | .losant _ .ping => some (.ok ())
  | .losant _ (.ensureClusterDevice _) => some (.ok "device")
  | .losant _ (.createDeviceAccessKey _ _ _) => some (.ok ⟨"id","key","secret"⟩)
  | .losant _ (.deleteDevice _ _) => some (.ok ())
  | .reportState _ _ => some (.ok ())
  | _ => none

def smoothJob (lib : Externals) : (anyAnswers lib).Act := .job
  { refuse := fun _ => none
    serve := fun h _ e => (smooth h e).map (·,())
    sound := fun _ => trivial }

/-- Created, held by the finalizer, scheduled, and synced. -/
theorem status_honest_active : ∃ c, (anyAnswers .plain).Reachable c ∧
    ∃ o, c.server.current = some o ∧ o.status.phase = .active ∧
      o.status.nextScheduledTime.isSome ∧ HonestStatus .plain c o.status := by
  obtain ⟨c,o,hc,ho,hp⟩ := System.exists_reachable (σ := anyAnswers .plain) (w := ()) trivial
    [.create newSync,smoothJob .plain,smoothJob .plain,smoothJob .plain] (fun _ o =>
      o.status.phase = .active ∧ o.status.nextScheduledTime.isSome) rfl
  obtain ⟨hphase,hnext⟩ := of_decide_eq_true hp
  exact ⟨c,hc,o,ho,hphase,hnext,
    (status_honest .plain _ rfl c hc).1 o (Server.mem_of_current ho)⟩

def onSchedule (cron : String) : LosantSync :=
  { newSync with spec := { newSync.spec with cronSchedule := cron } }

/-- A schedule without a tick is accepted, and the sync becomes active with no next time. -/
theorem untimed_active : ∃ c, (anyAnswers .cron).Reachable c ∧
    ∃ o, c.server.current = some o ∧ o.spec.cronSchedule = "0 0 30 2 *" ∧
      o.status.phase = .active ∧ o.status.lastSyncTime.isSome ∧
      o.status.nextScheduledTime = none := by
  obtain ⟨c,o,hc,ho,hp⟩ := System.exists_reachable (σ := anyAnswers .cron) (w := ()) trivial
    [.create (onSchedule "0 0 30 2 *"),smoothJob .cron,smoothJob .cron,smoothJob .cron]
    (fun _ o => o.spec.cronSchedule = "0 0 30 2 *" ∧ o.status.phase = .active ∧
      o.status.lastSyncTime.isSome ∧ o.status.nextScheduledTime = none) rfl
  exact ⟨c,hc,o,ho,of_decide_eq_true hp⟩

end LosantDevice.Sync

import LosantDevice.Sync.Honesty

/-!
# Phases, next times and workflows over whole runs

The documents ask three things of the stored statuses of an object: the phases follow a table,
the times of the syncs keep to the schedule without drift, and the condition of the workflows is
there exactly if the spec lists workflows. Each holds from some copies and not from others.
-/
namespace LosantDevice.Sync
open Effect Kube Go Program

variable {lib : Externals} {σ : System losantSync calls (Except String Result)} {c : Config σ}

/-! ## The phases -/

/-- The phases a phase may be followed by, as the acceptance criteria list them. -/
def documented : LosantSyncPhase → LosantSyncPhase → Bool
  | .unset,.provisioning | .unset,.suspended => true
  | .provisioning,.active | .provisioning,.degraded | .provisioning,.suspended => true
  | .active,.degraded | .active,.suspended => true
  | .degraded,.active | .degraded,.suspended => true
  | .suspended,.provisioning => true
  | _,_ => false

/-- What the outcomes of a job leave open about two phases. -/
theorem documented_iff_of {p q : LosantSyncPhase} (hne : q ≠ p)
    (h : q = .suspended ∨ q = .provisioning ∧ p = .unset ∨
      (q = .degraded ∨ q = .active) ∧ p ≠ .unset) :
    documented p q = true ↔ p ≠ .suspended := by
  cases p <;> cases q <;> simp_all [documented]

/-- A write that changes the phase goes along an edge unless it leaves the suspended phase. -/
theorem Outcome.documented_iff {h : Past} {b : LosantSync} {t : LosantSyncStatus}
    (ho : Outcome lib h b t) (hne : t.phase ≠ b.status.phase) :
    documented b.status.phase t.phase = true ↔ b.status.phase ≠ .suspended := by
  apply documented_iff_of hne
  cases ho with
  | suspended hp _ => exact .inl hp
  | first hp hb => exact .inr (.inl ⟨hp,hb⟩)
  | degraded hp hb => exact .inr (.inr ⟨.inl hp,hb⟩)
  | active hp hb _ _ _ => exact .inr (.inr ⟨.inr hp,hb⟩)

/-- In every run, for every two successive states of an object that differ in their phase. -/
theorem phase_documented_iff (lib : Externals)
    (σ : System losantSync calls (Except String Result)) (hmain : σ.main = reconcile lib)
    (c : Config σ) (hc : σ.Reachable c) (o b : LosantSync) (l : List (Option LosantSync))
    (hl : some o::some b::l <:+ c.server.log) (hu : o.metadata.uid = b.metadata.uid)
    (hne : o.status.phase ≠ b.status.phase) :
    documented b.status.phase o.status.phase = true ↔ b.status.phase ≠ .suspended := by
  have ht := traced_telling hmain hc
  rcases ht.status_step hl hu with hsame | ⟨h,hh,a,v,k,he,hcopy,rfl⟩
  · rw [hsame] at hne
    exact absurd rfl hne
  · obtain ⟨-,b',hb',ho⟩ := ht.allowed hh he
    obtain rfl : b = b' := Option.some.inj (hcopy.symm.trans hb')
    exact ho.documented_iff hne

/-- A sync that was provisioned becomes active, as documented. -/
theorem phase_documented_active : ∃ c o b l, (system .plain edgeSite).Reachable c ∧
    c.server.log = some o::some b::l ∧ b.status.phase = .provisioning ∧
    o.status.phase = .active ∧ documented b.status.phase o.status.phase = true := by
  obtain ⟨c,o,b,l,hc,hl,hp⟩ := System.exists_lastTwo (σ := system .plain edgeSite) start_emptyWorld
    (activate .plain) (fun (o b : LosantSync) => b.status.phase = .provisioning ∧
      o.status.phase = .active ∧ o.metadata.uid = b.metadata.uid) (by decide +kernel)
  obtain ⟨hb,ho,hu⟩ := of_decide_eq_true hp
  refine ⟨c,o,b,l,hc,hl,hb,ho,?_⟩
  refine (phase_documented_iff .plain _ rfl c hc o b l (hl ▸ List.suffix_refl _) hu ?_).mpr ?_
  · rw [ho,hb]
    decide
  · rw [hb]
    decide

/-- Suspended and resumed, an object is not provisioned again but synced at once. -/
theorem resumed_not_provisioned : ∃ c o b l, (system .plain edgeSite).Reachable c ∧
    c.server.log = some o::some b::l ∧ o.metadata.uid = b.metadata.uid ∧
    b.status.phase = .suspended ∧ o.status.phase = .active ∧
    documented b.status.phase o.status.phase = false := by
  obtain ⟨c,o,b,l,hc,hl,hp⟩ := System.exists_lastTwo (σ := system .plain edgeSite) start_emptyWorld
    (activate .plain ++ [.edit (fun spec : LosantSyncSpec => { spec with suspend := true }),
      job .plain edgeSite (40*second),
      .edit (fun spec : LosantSyncSpec => { spec with suspend := false }),
      job .plain edgeSite (50*second)])
    (fun (o b : LosantSync) => o.metadata.uid = b.metadata.uid ∧ b.status.phase = .suspended ∧
      o.status.phase = .active) (by decide +kernel)
  obtain ⟨hu,hb,ho⟩ := of_decide_eq_true hp
  refine ⟨c,o,b,l,hc,hl,hu,hb,ho,?_⟩
  rw [hb,ho]
  rfl

/-! ## The schedule -/

/-- What a schedule promises of its `Next`: the first tick after the given time, in whole seconds,
or the zero time if there is none. -/
structure IsNext (next : Time → Time) : Prop where
  whole : ∀ t, truncateSecond (next t) = next t
  later : ∀ t : Time, next t ≠ zeroTime → (t : ℤ) < next t
  first : ∀ t u : Time, next t ≠ zeroTime → (t : ℤ) ≤ u → (u : ℤ) < next t → next u = next t

/-- A sync that computes its next time at `t` is still within the cycle that began at `prev`. An
interval must be a whole number of seconds and the reading fall in the second of `prev`; a cron
schedule must not have ticked. -/
def OnCycle (lib : Externals) (spec : LosantSyncSpec) (prev t : Time) : Prop :=
  if spec.cronSchedule ≠ "" then
    ∃ next, lib.parseCron spec.cronSchedule = .ok next ∧ (t : ℤ) < next prev
  else ∃ d, parseDuration spec.interval = some d ∧ second ∣ (d : ℤ) ∧ truncateSecond t = prev

/-- After `prev`, the first tick after `t` is that after `prev` unless it has passed. -/
theorem IsNext.stored_iff {next : Time → Time} (hn : IsNext next) {prev t : Time}
    (hle : (prev : ℤ) ≤ t) (hs : Storable (next prev)) :
    storedTime (some (next t)) = some (next prev) ↔ (t : ℤ) < next prev := by
  have hprev : next prev ≠ zeroTime := hn.whole prev ▸ hs
  constructor
  · intro hst
    have he : next prev = next t := (eq_of_mem_storedTime hst).trans (hn.whole t)
    rw [he] at hprev ⊢
    exact hn.later t hprev
  · intro hlt
    rw [hn.first prev t hprev hle hlt,storedTime_some hs,hn.whole prev]

/-- The same for an interval, from a whole second. -/
theorem storedTime_add_iff {prev t : Time} {d : Duration} (hprev : truncateSecond prev = prev)
    (hs : Storable ((prev : ℤ)+d : ℤ)) :
    storedTime (some ((t : ℤ)+d : ℤ)) = some ((prev : ℤ)+d : ℤ) ↔
      second ∣ (d : ℤ) ∧ truncateSecond t = prev := by
  rw [← truncateSecond_add_eq_iff hprev]
  constructor
  · exact fun hst => (eq_of_mem_storedTime hst).symm
  · intro he
    have ht : Storable ((t : ℤ)+d : ℤ) := by
      unfold Storable
      rw [← truncateSecond_truncateSecond,he]
      exact hs
    rw [storedTime_some ht,he]

theorem storedTime_nextAfter_iff {spec : LosantSyncSpec} {prev t : Time}
    (hcron : ∀ s next, lib.parseCron s = .ok next → IsNext next)
    (hprev : truncateSecond prev = prev) (hle : (prev : ℤ) ≤ t) (hticks : Ticks lib spec prev) :
    storedTime (nextAfter lib spec t) = nextAfter lib spec prev ↔ OnCycle lib spec prev t := by
  obtain ⟨n,hn,hs⟩ := hticks
  unfold nextAfter OnCycle at *
  by_cases hc : spec.cronSchedule ≠ ""
  · simp only [if_pos hc] at hn ⊢
    cases hp : lib.parseCron spec.cronSchedule with
    | error err => simp [hp] at hn
    | ok next =>
      simp only [hp,Option.mem_def,Option.some.injEq] at hn
      subst hn
      simpa using (hcron _ _ hp).stored_iff hle hs
  · simp only [if_neg hc] at hn ⊢
    cases hp : parseDuration spec.interval with
    | none => simp [hp] at hn
    | some d =>
      simp only [hp,Option.map_some,Option.mem_def,Option.some.injEq] at hn
      subst hn
      simpa using storedTime_add_iff hprev hs

/-- The step from `c` to `d` ends a successful sync that had made the calls `k`. -/
def Succeeds (c d : Config σ) (k : Past) : Prop :=
  ∃ a v next, a.status.phase = .active ∧ c.job = some (k,.call (.inl (.updateStatus a)) next) ∧
    d.job = some (⟨.inl (.updateStatus a),.ok v⟩::k,next (.ok v))

/-- In every run, for every successful sync of an object for which a next time `prev` was stored and
whose schedule goes on after it. The reading `t` is the one the sync computes its next time from,
and the sync has not begun before `prev`. -/
theorem next_on_schedule_iff (lib : Externals)
    (hcron : ∀ s next, lib.parseCron s = .ok next → IsNext next)
    (σ : System losantSync calls (Except String Result)) (hmain : σ.main = reconcile lib)
    (c d : Config σ) (hc : σ.Reachable c) (hs : σ.Step c d) (k : Past) (hk : Succeeds c d k)
    (b : LosantSync) (prev : Time) (hb : c.server.current = some b)
    (hprev : b.status.nextScheduledTime = some prev) (hticks : Ticks lib b.spec prev) :
    ∃ (o : LosantSync) (t : Time), d.server.current = some o ∧ (view k).scheduled = some t ∧
      ((prev : ℤ) ≤ t →
        (o.status.nextScheduledTime = nextAfter lib b.spec prev ↔ OnCycle lib b.spec prev t)) := by
  obtain ⟨a,v,next,hphase,hj,hj'⟩ := hk
  have hsound := sound_telling hmain hc
  have hwrite := hs.replies hj hj'
  obtain ⟨b',l,hcopy,hlog,-,-,hafter⟩ :=
    hsound.updateStatus (fun h e hp => hp.1.disciplined h e) hj hwrite
  -- The copy of the job is the latest state, or the write would not have been accepted.
  obtain rfl : b = b' := Option.some.inj (hb.symm.trans (Server.current_eq_some.mpr ⟨l,hlog⟩))
  have hcur : d.server.current = some (a.stored v) := by
    rcases hafter with ⟨hsame,hst⟩ | ⟨hpush,-⟩
    · rw [hsame,hst]
      exact hb
    · rw [hpush]
      rfl
  have hwhole : truncateSecond prev = prev := by
    have henc := congrArg LosantSyncStatus.nextScheduledTime
      (hsound.server.encoded (Server.mem_of_current hb))
    change storedTime b.status.nextScheduledTime = b.status.nextScheduledTime at henc
    exact (storedTime_eq_some (henc.trans hprev)).1
  obtain ⟨-,b₂,hb₂,ho⟩ := (hsound.obeys hj).1
  obtain rfl : b = b₂ := Option.some.inj (hcopy.symm.trans hb₂)
  obtain ⟨-,⟨t,ht,hnext⟩,-⟩ := ho.of_active hphase
  refine ⟨_,t,hcur,ht,fun hle => ?_⟩
  change storedTime a.status.nextScheduledTime = _ ↔ _
  rw [hnext]
  exact storedTime_nextAfter_iff hcron hwhole hle hticks

theorem isNext_hourly : IsNext hourly := by
  have hpos : (0 : ℤ) < 3600*second := by decide
  refine ⟨fun t => ?_,fun t _ => Int.lt_ediv_add_one_mul_self _ hpos,fun t u _ hle hlt => ?_⟩
  · change ((t : ℤ)/(3600*second)+1)*(3600*second)/second*second = _
    rw [← Int.mul_assoc,Int.mul_ediv_cancel _ (by decide)]
    exact Int.mul_assoc _ _ _
  · -- No full hour lies between the two, so they are in the same hour.
    have hlo := Int.ediv_le_ediv hpos hle
    have hhi : (u : ℤ)/(3600*second) < (t : ℤ)/(3600*second)+1 := Int.ediv_lt_of_lt_mul hpos hlt
    have he : (u : ℤ)/(3600*second) = (t : ℤ)/(3600*second) :=
      Int.le_antisymm (Int.le_of_lt_add_one hhi) hlo
    change ((u : ℤ)/(3600*second)+1)*(3600*second) = ((t : ℤ)/(3600*second)+1)*(3600*second)
    rw [he]

theorem isNext_cron (s : String) (next : Time → Time) (hp : Externals.cron.parseCron s = .ok next) :
    IsNext next := by
  change (if _ then _ else if _ then _ else _) = _ at hp
  split at hp
  · cases hp
    exact isNext_hourly
  · split at hp
    · cases hp
      exact ⟨fun _ => by decide,fun _ h => absurd rfl h,fun _ _ h => absurd rfl h⟩
    · cases hp

/-- Ten seconds late, a sync that is to take place every hour stores the next full hour. -/
theorem next_on_schedule_hourly : ∃ (c d : Config (system .cron edgeSite)) (k : Past)
    (b o : LosantSync), (system .cron edgeSite).Reachable c ∧ (system .cron edgeSite).Step c d ∧
    Succeeds c d k ∧ c.server.current = some b ∧ d.server.current = some o ∧
    b.status.nextScheduledTime = some (20*second : ℤ) ∧
    o.status.nextScheduledTime = nextAfter .cron b.spec (20*second : ℤ) := by
  obtain ⟨c,hc,hp⟩ := System.exists_config (σ := system .cron edgeSite) start_emptyWorld
    [writeSecret .cron edgeSite ⟨"default","losant"⟩
        ((∅ : GoMap String).insert "api-token" "token"),
      .create (onSchedule "0 * * * *"),job .cron edgeSite (10*second),
      job .cron edgeSite (20*second),job .cron edgeSite (30*second)]
    (fun c => c.past.head?.any (fun h => (accepted h).any (fun x =>
      (lastCopy x.2.2).any (fun (b : LosantSync) => x.1.status.phase = .active ∧
        (view x.2.2).scheduled = some (30*second : ℤ) ∧
        b.spec = (onSchedule "0 * * * *").spec ∧
        b.status.nextScheduledTime = some (20*second : ℤ))))) (by decide +kernel)
  obtain ⟨h,hh,hp⟩ := (Option.any_eq_true _ _).mp hp
  obtain ⟨⟨a,v,k⟩,ha,hp⟩ := (Option.any_eq_true _ _).mp hp
  obtain ⟨b,hcopy,hp⟩ := (Option.any_eq_true _ _).mp hp
  obtain ⟨hphase,hread,hspec,hnext⟩ := of_decide_eq_true hp
  have hmem : h ∈ c.histories := List.mem_append_right _ (List.mem_of_mem_head? hh)
  obtain ⟨c',d',next,hc',hs,-,hj,hj'⟩ := hc.exists_step hmem (suffix_of_accepted ha)
  have hsound := sound_telling rfl hc'
  obtain ⟨b',l,hcopy',hlog,-⟩ :=
    hsound.updateStatus (fun h e hp => hp.1.disciplined h e) hj (hs.replies hj hj')
  obtain rfl : b = b' := Option.some.inj (hcopy.symm.trans hcopy')
  have hb : c'.server.current = some b := Server.current_eq_some.mpr ⟨l,hlog⟩
  have hk : Succeeds c' d' k := ⟨a,v,next,hphase,hj,hj'⟩
  have hticks : Ticks .cron b.spec (20*second : ℤ) := by
    rw [hspec]
    exact ⟨hourly (20*second : ℤ),rfl,by decide⟩
  obtain ⟨o,t,ho,ht,hiff⟩ :=
    next_on_schedule_iff .cron isNext_cron _ rfl c' d' hc' hs k hk b _ hb hnext hticks
  obtain rfl : (30*second : ℤ) = t := Option.some.inj (hread.symm.trans ht)
  refine ⟨c',d',k,b,o,hc',hs,hk,hb,ho,hnext,(hiff (by decide)).mpr ?_⟩
  rw [hspec]
  exact ⟨hourly,rfl,by decide⟩

/-- Ten seconds late, a sync moves the whole schedule by ten seconds. -/
theorem late_sync_drifts : ∃ c o b l, (system .plain edgeSite).Reachable c ∧
    c.server.log = some o::some b::l ∧ o.spec = b.spec ∧
    b.status.phase = .active ∧ b.status.nextScheduledTime = some (330*second : ℤ) ∧
    o.status.phase = .active ∧ o.status.lastSyncTime = some (340*second : ℤ) ∧
    nextAfter .plain b.spec (330*second : ℤ) = some (630*second : ℤ) ∧
    o.status.nextScheduledTime = some (640*second : ℤ) := by
  obtain ⟨c,o,b,l,hc,hl,hp⟩ := System.exists_lastTwo (σ := system .plain edgeSite) start_emptyWorld
    (activate .plain ++ [job .plain edgeSite (340*second)])
    (fun (o b : LosantSync) => o.spec = b.spec ∧ b.status.phase = .active ∧
      b.status.nextScheduledTime = some (330*second : ℤ) ∧ o.status.phase = .active ∧
      o.status.lastSyncTime = some (340*second : ℤ) ∧
      nextAfter .plain b.spec (330*second : ℤ) = some (630*second : ℤ) ∧
      o.status.nextScheduledTime = some (640*second : ℤ)) (by decide +kernel)
  exact ⟨c,o,b,l,hc,hl,of_decide_eq_true hp⟩

/-! ## The workflows -/

/-- The condition of the workflows is there exactly if the spec lists any, and is then true. -/
def Tracks (spec : LosantSyncSpec) (t : LosantSyncStatus) : Prop :=
  ((findStatusCondition t.conditions .workflowDeployed).isSome ↔ spec.workflowDeployments ≠ []) ∧
    ∀ v, HasStatus t.conditions .workflowDeployed v → v = .true

/-- The status was written by a job that worked on the copy `b`. -/
def WrittenFrom (c : Config σ) (t : LosantSyncStatus) (b : LosantSync) : Prop :=
  ∃ h ∈ c.histories, ∃ a v k, ⟨.inl (.updateStatus a),.ok v⟩::k <:+ h ∧ lastCopy k = some b ∧
    t = a.status.encode

/-- Nobody takes the condition away, so one that is there already must be asked for. -/
theorem Deployed.tracks_iff {b : LosantSync} {t : LosantSyncStatus}
    (hd : Deployed b t.conditions) : Tracks b.spec t.encode ↔ (b.spec.workflowDeployments = [] →
      findStatusCondition b.status.conditions .workflowDeployed = none) := by
  have hfind : (findStatusCondition t.encode.conditions .workflowDeployed).isSome =
      (findStatusCondition t.conditions .workflowDeployed).isSome := by
    change (findStatusCondition (t.conditions.map Condition.encode) _).isSome = _
    rw [findStatusCondition_map_encode,Option.isSome_map]
  have hstatus : ∀ v, HasStatus t.encode.conditions .workflowDeployed v ↔
      HasStatus t.conditions .workflowDeployed v := fun v => hasStatus_map_encode
  unfold Tracks
  rw [hfind]
  by_cases hnone : b.spec.workflowDeployments = []
  · rw [hd.1 hnone]
    constructor
    · intro htracks _
      simpa [hnone] using htracks.1
    · intro habsent
      have habsent := habsent hnone
      refine ⟨by simp [habsent,hnone],fun v hv => ?_⟩
      obtain ⟨cond,hcond,-⟩ := (hstatus v).mp hv
      rw [hd.1 hnone,habsent] at hcond
      cases hcond
  · refine iff_of_true ⟨?_,fun v hv => ?_⟩ (fun h => absurd h hnone)
    · obtain ⟨cond,hcond,-⟩ := hd.2 hnone
      simp [hcond,hnone]
    · exact ((hstatus v).mp hv).unique (hd.2 hnone)

/-- In every run, for every active status that was ever stored and every job that wrote it. -/
theorem workflows_tracked_iff (lib : Externals)
    (σ : System losantSync calls (Except String Result)) (hmain : σ.main = reconcile lib)
    (c : Config σ) (hc : σ.Reachable c) (o : LosantSync) (ho : some o ∈ c.server.log)
    (hactive : o.status.phase = .active) :
    (∃ b, WrittenFrom c o.status b) ∧ ∀ b, WrittenFrom c o.status b →
      (Tracks b.spec o.status ↔ (b.spec.workflowDeployments = [] →
        findStatusCondition b.status.conditions .workflowDeployed = none)) := by
  have ht := traced_telling hmain hc
  constructor
  · rcases ht.status_written (List.suffix_refl _) ho with hi | ⟨h,hh,a,v,k,he,hst⟩
    · rw [hi] at hactive
      cases hactive
    · obtain ⟨-,b,hb,-⟩ := ht.allowed hh he
      exact ⟨b,h,hh,a,v,k,he,hb,hst⟩
  · rintro b ⟨h,hh,a,v,k,he,hcopy,hst⟩
    obtain ⟨-,b',hb',hout⟩ := ht.allowed hh he
    obtain rfl : b = b' := Option.some.inj (hcopy.symm.trans hb')
    rw [hst] at hactive ⊢
    exact (hout.of_active hactive).2.2.tracks_iff

/-- An object that never had workflows tracks them. -/
theorem workflows_tracked_none : ∃ c o b, (system .plain edgeSite).Reachable c ∧
    some o ∈ c.server.log ∧ o.status.phase = .active ∧ WrittenFrom c o.status b ∧
    Tracks b.spec o.status := by
  obtain ⟨c,o,b,l,hc,hl,hp⟩ := System.exists_lastTwo (σ := system .plain edgeSite) start_emptyWorld
    (activate .plain) (fun (o b : LosantSync) => o.metadata.uid = b.metadata.uid ∧
      o.status.phase = .active ∧ b.status.phase = .provisioning ∧
      findStatusCondition b.status.conditions .workflowDeployed = none) (by decide +kernel)
  obtain ⟨hu,hactive,hbefore,hnone⟩ := of_decide_eq_true hp
  have ho : some o ∈ c.server.log := by simp [hl]
  have hsuf : some o::some b::l <:+ c.server.log := hl ▸ List.suffix_refl _
  rcases (traced_telling rfl hc).status_step hsuf hu with hsame | ⟨h,hh,a,v,k,he,hcopy,rfl⟩
  · rw [hsame,hbefore] at hactive
    cases hactive
  · have hfrom : WrittenFrom c (a.stored v).status b := ⟨h,hh,a,v,k,he,hcopy,rfl⟩
    refine ⟨c,_,b,hc,ho,hactive,hfrom,?_⟩
    exact ((workflows_tracked_iff .plain _ rfl c hc _ ho hactive).2 b hfrom).mpr (fun _ => hnone)

/-- The workflows are taken out of the spec, and the next sync leaves their condition. -/
theorem workflows_left_behind : ∃ c o b l, (system .plain edgeSite).Reachable c ∧
    c.server.log = some o::some b::l ∧ o.status ≠ b.status ∧ b.spec.workflowDeployments = [] ∧
    o.status.phase = .active ∧ HasStatus o.status.conditions .workflowDeployed .true := by
  obtain ⟨c,o,b,l,hc,hl,hp⟩ := System.exists_lastTwo (σ := system .plain edgeSite) start_emptyWorld
    (activate .plain ++
      [.edit (fun spec : LosantSyncSpec => { spec with workflowDeployments := [⟨"flow","v1"⟩] }),
        job .plain edgeSite (340*second),
        .edit (fun spec : LosantSyncSpec => { spec with workflowDeployments := [] }),
        job .plain edgeSite (700*second)])
    (fun (o b : LosantSync) => o.status ≠ b.status ∧ b.spec.workflowDeployments = [] ∧
      o.status.phase = .active ∧
      isStatusConditionTrue o.status.conditions .workflowDeployed) (by decide +kernel)
  obtain ⟨hne,hnone,hactive,htrue⟩ := of_decide_eq_true hp
  exact ⟨c,o,b,l,hc,hl,hne,hnone,hactive,isStatusConditionTrue_iff.mp htrue⟩

end LosantDevice.Sync

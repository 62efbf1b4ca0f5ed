import LosantDevice.Sync.Trace

/-!
# `Reconcile` makes only permitted calls

The proof follows the steps of the source from the last to the first, so that each step finds
the one it goes on to already proved.
-/
namespace LosantDevice.Sync
open Effect Kube Go Monitor Program

variable {lib : Externals} {h : Past} {b ls : LosantSync} {α : Type} {Ψ : Past → α → Prop}

/-- The calls are permitted and the result is right, for a job on the object `b`. -/
abbrev Good (lib : Externals) (b : LosantSync) (h : Past) (p : M (Except String Result)) : Prop :=
  Obeys Permits (Returns lib b) h p

theorem obeys_now {site : Clock} {f : Time → M α}
    (hf : ∀ t : Time, Obeys Permits Ψ (⟨.inr (.now site),t⟩::h) (f t)) :
    Obeys Permits Ψ h (now site >>= f) := ⟨trivial,hf⟩

theorem obeys_setCondition {ty : SyncCondition} {v : ConditionStatus} {reason message : String}
    {f : LosantSync → M α}
    (hf : ∀ t : Time, Obeys Permits Ψ (⟨.inr (.now .transition),t⟩::h)
      (f (withCondition lib t ls ty v reason message))) :
    Obeys Permits Ψ h (setCondition lib ls ty v reason message >>= f) := ⟨trivial,hf⟩

/-- The secret is read and the client made of it. -/
theorem obeys_client {Φ : Past → interface.Call → Prop} {ref : NamespacedName} {app : String}
    {unread : ApiError → M α} {unmade : String → M α} {made : Losant.HTTPClient → M α}
    (hask : Φ h (.inr (.getSecret ref)))
    (hunread : ∀ err, Obeys Φ Ψ (⟨.inr (.getSecret ref),.error err⟩::h) (unread err))
    (hunmade : ∀ s err, Losant.newHTTPClient ⟨s,ref.namespace_,ref.name⟩ app = .error err →
      Obeys Φ Ψ (⟨.inr (.getSecret ref),.ok s⟩::h) (unmade err))
    (hmade : ∀ s lc, Losant.newHTTPClient ⟨s,ref.namespace_,ref.name⟩ app = .ok lc →
      Obeys Φ Ψ (⟨.inr (.getSecret ref),.ok s⟩::h) (made lc)) :
    Obeys Φ Ψ h (do
      match ← getSecret ref with
      | .error err => unread err
      | .ok secret =>
        match Losant.newHTTPClient secret app with
        | .error err => unmade err
        | .ok lc => made lc) := by
  refine ⟨hask,?_⟩
  rintro (err | (s : StoredSecret))
  · exact hunread err
  · cases hlc : Losant.newHTTPClient ⟨s,ref.namespace_,ref.name⟩ app with
    | error err => simpa only [Program.bind,Bind.bind,Pure.pure,hlc] using hunmade s err hlc
    | ok lc => simpa only [Program.bind,Bind.bind,Pure.pure,hlc] using hmade s lc hlc

/-- A job that ends with an error promises nothing about its delay. -/
theorem good_error {err : String} : Good lib b h (pure (.error err)) :=
  fun _ _ _ hr => by cases hr

/-- What `nextScheduleAndDuration` adds to the calls when the schedule parses. -/
structure Scheduled (h h' : Past) (t : Time) : Prop where
  suffix : h <:+ h'
  copy : lastCopy h' = lastCopy h
  view : view h' = { view h with scheduled := some t }

/-- The delay is positive exactly if the next instant is later than the last reading. -/
theorem obeys_nextSchedule {Φ : Past → interface.Call → Prop} {spec : LosantSyncSpec}
    {f : Except String (Time × Duration) → M α} (hnow : ∀ h site, Φ h (.inr (.now site)))
    (hbad : (∀ t, nextAfter lib spec t = none) → ∀ err, Obeys Φ Ψ h (f (.error err)))
    (hok : ∀ h' t u next d, nextAfter lib spec t = some next → Scheduled h h' t →
      lastReading h' = some u → ((0 : ℤ) < d ↔ (u : ℤ) < next) →
      Obeys Φ Ψ h' (f (.ok (next,d)))) :
    Obeys Φ Ψ h (nextScheduleAndDuration lib spec >>= f) := by
  unfold nextScheduleAndDuration
  by_cases hc : spec.cronSchedule ≠ ""
  · rw [if_pos hc]
    cases hp : lib.parseCron spec.cronSchedule with
    | error err =>
      refine hbad (fun t => ?_) _
      simp only [nextAfter,if_pos hc,hp]
    | ok next =>
      refine ⟨hnow _ _,fun t => ⟨hnow _ _,fun u => ?_⟩⟩
      refine hok (⟨.inr (.now .scheduleUntil),u⟩::⟨.inr (.now .scheduleFrom),t⟩::h) t u (next t) _
        ?_ ⟨?_,rfl,rfl⟩ rfl timeUntil_pos
      · simp only [nextAfter,if_pos hc,hp]
      · exact (List.suffix_cons _ _).trans (List.suffix_cons _ _)
  · rw [if_neg hc]
    cases hp : parseDuration spec.interval with
    | none =>
      refine hbad (fun t => ?_) _
      simp only [nextAfter,if_neg hc,hp,Option.map_none]
    | some d =>
      refine ⟨hnow _ _,fun (t : Time) => ?_⟩
      refine hok (⟨.inr (.now .scheduleFrom),t⟩::h) t t ((t : ℤ)+d : ℤ) d ?_
        ⟨List.suffix_cons _ _,rfl,rfl⟩ rfl ?_
      · simp only [nextAfter,if_neg hc,hp,Option.map_some]
      · have hd : ∀ x y : ℤ, 0 < y ↔ x < x+y := by omega
        exact hd t d

/-- The status is written and nothing follows. -/
theorem obeys_write {Φ : Past → interface.Call → Prop} {Ψ : Past → Except String Result → Prop}
    {res : Result} (hwrite : Φ h (.inl (.updateStatus ls))) (hend : ∀ h' x, Ψ h' x) :
    Obeys Φ Ψ h (do
      match ← updateStatus ls with
      | .error err => pure (.error err.text)
      | .ok _ => pure (.ok res)) := by
  refine ⟨hwrite,?_⟩
  rintro (err | v)
  · exact hend _ _
  · exact hend _ _

/-- `writeDegraded` writes `ls` once, with another time of the next sync at most. -/
theorem obeys_writeDegraded {Φ : Past → interface.Call → Prop}
    {Ψ : Past → Except String Result → Prop} (hnow : ∀ h site, Φ h (.inr (.now site)))
    (hwrite : ∀ h' next, h <:+ h' → lastCopy h' = lastCopy h → Φ h' (.inl (.updateStatus
      { ls with status := { ls.status with nextScheduledTime := next } })))
    (hend : ∀ h' x, Ψ h' x) : Obeys Φ Ψ h (writeDegraded lib ls) := by
  unfold writeDegraded
  refine obeys_nextSchedule hnow (fun _ _ => ?_) ?_
  · exact obeys_write (hwrite h ls.status.nextScheduledTime (List.suffix_refl h) rfl) hend
  · intro h' t u next d _ hs _ _
    exact obeys_write (hwrite h' (some next) hs.suffix hs.copy) hend

theorem writeDegraded_good (hm : Mem h b ls) (hphase : ls.status.phase = .degraded)
    (hfail : HasStatus ls.status.conditions .lastSyncSucceeded .false) :
    Good lib b h (writeDegraded lib ls) := by
  unfold writeDegraded
  refine obeys_nextSchedule (fun _ _ => trivial) (fun hbad err => ?_)
    (fun h' t u next d hnext hs hlast hd => ?_)
  · refine ⟨⟨hm.ended,b,hm.held,hm.metadata,hm.spec,.degraded hphase hm.kept hfail hm.lastSync⟩,?_⟩
    rintro (err | v)
    · exact good_error
    · intro _ _ res hres
      cases hres
      -- Nothing was computed from the schedule, and the fallback delay is positive.
      refine iff_of_true (.inr (by decide)) (onTime_of_none ?_)
      exact resumeAt_unscheduled hm.waited hm.scheduled
  · have hview := hs.view
    have hkept : Kept h' b ls.status :=
      hm.kept.later hs.suffix (by rw [hview]) (by rw [hview]) (by rw [hview])
    have hended : (view h').ended = false := by rw [hview]; exact hm.ended
    refine ⟨⟨hended,b,⟨hs.copy.trans hm.held.1,hm.held.2⟩,hm.metadata,hm.spec,
      .degraded hphase ⟨hkept.cluster,hkept.nodes,hkept.boot,hkept.booted⟩ hfail hm.lastSync⟩,?_⟩
    rintro (err | v)
    · exact good_error
    · intro _ _ res hres
      cases hres
      have hwaited : (view h').waited = false := by rw [hview]; exact hm.waited
      have hsched : (view h').scheduled = some t := by rw [hview]
      have hr : resumeAt lib b (view h') = some next := by
        rw [resumeAt_scheduled hwaited hsched,← hm.spec]
        exact hnext
      refine Iff.trans ?_ (Iff.symm (onTime_iff hr hlast))
      simp [Result.AsksAgain,hd]

theorem setDegraded_good (hm : Mem h b ls) {ty : SyncCondition}
    (hty : ty = .geaBootstrapped → ¬HasStatus b.status.conditions .geaBootstrapped .true)
    (reason message : String) : Good lib b h (setDegraded lib ls ty reason message) := by
  refine obeys_setCondition fun t₁ => obeys_setCondition fun t₂ => ?_
  exact writeDegraded_good (((hm.phase .degraded).condition_false hty).condition_of_ne (by decide))
    rfl hasStatus_withCondition

theorem setDegraded_good_of_ne (hm : Mem h b ls) {ty : SyncCondition}
    (hne : ty ≠ .geaBootstrapped) (reason message : String) :
    Good lib b h (setDegraded lib ls ty reason message) :=
  setDegraded_good hm (fun he => absurd he hne) reason message

/-! ## Steps 9 to 6 -/

theorem Reported.later {h' : Past} {t : LosantSyncStatus} (hr : Reported h t) (hs : h <:+ h') :
    Reported h' t := by
  obtain ⟨cluster,nodes,gc,hsnap,hrep,hkeys⟩ := hr
  exact ⟨cluster,nodes,gc,hs.subset hsnap,hs.subset hrep,hkeys⟩

theorem finishSync_good (hm : Mem h b ls)
    (hcond : ∀ ty, ty ≠ .workflowDeployed → ty ≠ .lastSyncSucceeded →
      HasStatus ls.status.conditions ty .true)
    (hrep : Reported h ls.status) : Good lib b h (finishSync lib ls) := by
  unfold finishSync
  refine obeys_nextSchedule (fun _ _ => trivial)
    (fun hbad err => setDegraded_good_of_ne hm (by decide) _ _)
    (fun h' t u next d hnext hs hlast hd => ?_)
  refine obeys_now fun t₁ => obeys_setCondition fun t₂ => ?_
  have hview := hs.view
  have hkept : Kept h' b ls.status :=
    hm.kept.later hs.suffix (by rw [hview]) (by rw [hview]) (by rw [hview])
  have hended : (view h').ended = false := by rw [hview]; exact hm.ended
  have hwaited : (view h').waited = false := by rw [hview]; exact hm.waited
  have hsched : (view h').scheduled = some t := by rw [hview]
  have hsuf : h' <:+ ⟨.inr (.now .transition),t₂⟩::⟨.inr (.now .lastSync),t₁⟩::h' :=
    (List.suffix_cons _ _).trans (List.suffix_cons _ _)
  have hlater := hkept.later hsuf rfl rfl rfl
  -- Only the phase, the two times and the last condition differ from what was kept so far.
  refine ⟨⟨hended,b,⟨hs.copy.trans hm.held.1,hm.held.2⟩,hm.metadata,hm.spec,.active rfl
    (Kept.condition_of_ne ⟨hlater.cluster,hlater.nodes,hlater.boot,hlater.booted⟩ (by decide))
    (fun ty hty => ?_) (hrep.later (hs.suffix.trans hsuf))⟩,?_⟩
  · by_cases he : ty = .lastSyncSucceeded
    · subst he
      exact hasStatus_withCondition
    · exact (hasStatus_withCondition_of_ne he).mpr (hcond ty hty he)
  · rintro (err | v)
    · exact good_error
    · refine obeys_now fun u' => ?_
      intro _ _ res hres
      cases hres
      have hr : resumeAt lib b (view h') = some next := by
        rw [resumeAt_scheduled hwaited hsched,← hm.spec]
        exact hnext
      refine Iff.trans ?_ (Iff.symm (onTime_iff hr rfl))
      simp [Result.AsksAgain,timeUntil_pos]

theorem reportNodes_obeys {gc : Gea.HTTPClient} (hm : Mem h b ls)
    (l : List (Sigma fun _ : String => NodeHealth)) :
    Obeys Permits (fun h' _ => Mem h' b ls ∧ h <:+ h') h (reportNodes gc ls l) := by
  induction l generalizing h with
  | nil => exact ⟨hm,List.suffix_refl h⟩
  | cons p rest ih =>
    obtain ⟨nodeName,nh⟩ := p
    unfold reportNodes
    dsimp only
    split
    · exact ih hm
    · refine ⟨hm.ended,fun r => ?_⟩
      refine (ih (hm.quiet rfl rfl)).mono (fun _ _ hp => hp) (fun h' _ hq => ?_)
      exact ⟨hq.1,(List.suffix_cons _ _).trans hq.2⟩

theorem reportCluster_good {gc : Gea.HTTPClient} {cluster : ClusterHealth}
    {nodes : GoMap NodeHealth} (hm : Mem h b ls)
    (hcond : ∀ ty, ty ≠ .workflowDeployed → ty ≠ .lastSyncSucceeded → ty ≠ .geaReachable →
      HasStatus ls.status.conditions ty .true)
    (hsnap : (⟨.inr .healthSnapshot,(cluster,nodes)⟩ : Event interface) ∈ h)
    (hkeys : ∀ n ∈ nodes, n ∈ ls.status.nodeDevices) :
    Good lib b h (reportCluster lib gc cluster nodes ls) := by
  unfold reportCluster
  refine ⟨hm.ended,?_⟩
  rintro (err | ⟨⟩)
  · exact setDegraded_good_of_ne (hm.quiet (by rfl) (by rfl)) (by decide) _ _
  · refine obeys_setCondition fun t => ⟨hm.ended,fun order => ?_⟩
    have hm₁ : Mem _ b (withCondition lib t ls .geaReachable .true "Reachable"
        "GEA accepted cluster state") :=
      (hm.quiet (e := ⟨.inr (.reportState gc
        ⟨ls.status.clusterDeviceID,clusterAttributes cluster⟩),.ok ()⟩) rfl rfl).condition_of_ne
        (by decide)
    refine (reportNodes_obeys (hm₁.quiet (by rfl) (by rfl)) _).bind ?_
    rintro h' ⟨⟩ ⟨hm',hs⟩
    refine finishSync_good hm' (fun ty h1 h2 => ?_) ⟨cluster,nodes,gc,?_,?_,hkeys⟩
    · by_cases he : ty = .geaReachable
      · subst he
        exact hasStatus_withCondition
      · exact (hasStatus_withCondition_of_ne he).mpr (hcond ty h1 h2 he)
    · exact hs.subset (by simp [hsnap])
    · exact hs.subset (by simp [withCondition])

/-! ## Steps 5b and 5 -/

/-- The object in memory is as it was, and nothing was said about its fields. -/
abbrev Same (b ls : LosantSync) (h h' : Past) : Prop := Mem h' b ls ∧ h <:+ h'

theorem Same.cons {e : Event interface} {h' : Past} (hs : Same b ls (e::h) h') :
    Same b ls h h' := ⟨hs.1,(List.suffix_cons e h).trans hs.2⟩

theorem releaseWorkflows_obeys {lc : Losant.HTTPClient}
    {current : GoMap Losant.EdgeDeploymentStatus} (hm : Mem h b ls) (l : List WorkflowDeployment)
    (allConfirmed : Bool) :
    Obeys Permits (fun h' _ => Same b ls h h') h
      (releaseWorkflows lc ls current l allConfirmed) := by
  induction l generalizing h allConfirmed with
  | nil => exact ⟨hm,List.suffix_refl h⟩
  | cons wd rest ih =>
    unfold releaseWorkflows
    dsimp only
    split
    · refine ⟨⟨hm.ended,trivial⟩,?_⟩
      rintro (err | ⟨⟩)
      · have hs : Same b ls h _ := ⟨hm.quiet (e := ⟨.inr (.losant lc (.releaseWorkflow
          ls.spec.applicationID ls.status.clusterDeviceID wd.flowID wd.version)),.error err⟩)
            rfl rfl,
          List.suffix_cons _ _⟩
        change Obeys _ _ _ (if _ then _ else _)
        split
        · exact hs
        · exact hs
      · exact (ih (hm.quiet (by rfl) (by rfl)) _).mono (fun _ _ hp => hp)
          (fun _ _ hq => Same.cons hq)
    · split
      · exact ih hm _
      · exact ih hm _

theorem ensureWorkflowDeployments_obeys {lc : Losant.HTTPClient} (hm : Mem h b ls) :
    Obeys Permits (fun h' _ => Same b ls h h') h (ensureWorkflowDeployments lc ls) := by
  unfold ensureWorkflowDeployments
  split
  · exact ⟨hm,List.suffix_refl h⟩
  · refine ⟨⟨hm.ended,trivial⟩,?_⟩
    rintro (err | deployments)
    · exact ⟨hm.quiet (by rfl) (by rfl),List.suffix_cons _ _⟩
    · refine (releaseWorkflows_obeys (hm.quiet (by rfl) (by rfl)) _ _).bind ?_
      rintro h' (err | _ | _) hs
      · exact hs.cons
      · exact hs.cons
      · exact hs.cons

theorem deployWorkflows_good {lc : Losant.HTTPClient} {gc : Gea.HTTPClient}
    {cluster : ClusterHealth} {nodes : GoMap NodeHealth} (hm : Mem h b ls)
    (hboot : HasStatus ls.status.conditions .geaBootstrapped .true)
    (hdev : HasStatus ls.status.conditions .devicesProvisioned .true)
    (hsnap : (⟨.inr .healthSnapshot,(cluster,nodes)⟩ : Event interface) ∈ h)
    (hkeys : ∀ n ∈ nodes, n ∈ ls.status.nodeDevices) :
    Good lib b h (deployWorkflows lib lc gc cluster nodes ls) := by
  have hcond : ∀ ty, ty ≠ .workflowDeployed → ty ≠ .lastSyncSucceeded → ty ≠ .geaReachable →
      HasStatus ls.status.conditions ty .true := by
    intro ty h1 h2 h3
    cases ty
    · exact hboot
    · exact hdev
    · exact absurd rfl h1
    · exact absurd rfl h3
    · exact absurd rfl h2
  refine (ensureWorkflowDeployments_obeys hm).bind ?_
  rintro h' (⟨reason,message⟩ | ⟨reason,message⟩) ⟨hm',hs⟩
  · exact setDegraded_good_of_ne hm' (by decide) _ _
  · change Good lib b h' (if reason ≠ "" then _ else _)
    split
    · refine obeys_setCondition fun t => ?_
      refine reportCluster_good (hm'.condition_of_ne (by decide)) (fun ty h1 h2 h3 => ?_)
        (List.mem_cons_of_mem _ (hs.subset hsnap)) hkeys
      exact (hasStatus_withCondition_of_ne h1).mpr (hcond ty h1 h2 h3)
    · exact reportCluster_good hm' hcond (hs.subset hsnap) hkeys

/-- A device for a node. -/
theorem Mem.node (hm : Mem h b ls) {lc : Losant.HTTPClient} {spec : LosantSyncSpec}
    {n gatewayID id : String} :
    Mem (⟨.inr (.losant lc (.ensureNodeDevice spec n gatewayID)),.ok id⟩::h) b
      { ls with status :=
        { ls.status with nodeDevices := ls.status.nodeDevices.insert n id } } where
  held := hm.held
  running := hm.running
  metadata := hm.metadata
  spec := hm.spec
  kept :=
    { cluster := hm.kept.cluster
      nodes := congrArg (fun m : GoMap String => m.insert n id) hm.kept.nodes
      boot := hm.kept.boot
      booted := fun ht => (hm.kept.booted ht).imp (fun hb => hb)
        (fun hp => hp.later (List.suffix_cons _ _) rfl rfl) }
  lastSync := hm.lastSync
  waited := hm.waited
  scheduled := hm.scheduled
  ended := hm.ended

/-- What the loop over the nodes leaves behind. -/
structure Nodes (b ls : LosantSync) (h : Past) (l : List (Sigma fun _ : String => NodeHealth))
    (h' : Past) (r : LosantSync × Option (String × Losant.Error)) : Prop where
  mem : Mem h' b r.1
  suffix : h <:+ h'
  conditions : r.1.status.conditions = ls.status.conditions
  before : ∀ n ∈ ls.status.nodeDevices, n ∈ r.1.status.nodeDevices
  ensured : r.2 = none → ∀ p ∈ l, p.1 ∈ r.1.status.nodeDevices

theorem ensureNodes_obeys {lc : Losant.HTTPClient} (hm : Mem h b ls)
    (l : List (Sigma fun _ : String => NodeHealth)) :
    Obeys Permits (Nodes b ls h l) h (ensureNodes lc ls l) := by
  induction l generalizing h ls with
  | nil => exact ⟨hm,List.suffix_refl h,rfl,fun _ hn => hn,fun _ p hp => absurd hp (by simp)⟩
  | cons p rest ih =>
    obtain ⟨n,nh⟩ := p
    refine ⟨⟨hm.ended,b,hm.held,hm.spec⟩,?_⟩
    rintro (err | id)
    · exact ⟨hm.quiet (by rfl) (by rfl),List.suffix_cons _ _,rfl,fun _ hn => hn,nofun⟩
    · refine (ih hm.node).mono (fun _ _ hp => hp) (fun h' r hr => ?_)
      have hn : n ∈ r.1.status.nodeDevices :=
        hr.before n (Finmap.mem_insert.mpr (.inl rfl))
      refine ⟨hr.mem,(List.suffix_cons _ _).trans hr.suffix,hr.conditions,?_,?_⟩
      · exact fun m hmem => hr.before m (Finmap.mem_insert.mpr (.inr hmem))
      · intro hnone q hq
        rcases List.mem_cons.mp hq with rfl | hq
        · exact hn
        · exact hr.ensured hnone q hq

theorem provisionNodes_good {lc : Losant.HTTPClient} {gc : Gea.HTTPClient} (hm : Mem h b ls)
    (hboot : HasStatus ls.status.conditions .geaBootstrapped .true) :
    Good lib b h (provisionNodes lib lc gc ls) := by
  refine ⟨hm.ended,?_⟩
  rintro ⟨cluster,nodes⟩
  refine ⟨hm.ended,fun (order : nodes.Order) => ?_⟩
  have hm₁ := hm.quiet (e := ⟨.inr .healthSnapshot,(cluster,nodes)⟩) rfl rfl
  have hm₂ := hm₁.quiet (e := ⟨.inr (.rangeNodes nodes),order⟩) rfl rfl
  refine (ensureNodes_obeys hm₂ order.val).bind ?_
  rintro h' ⟨ls',_ | ⟨n,err⟩⟩ hr
  · refine obeys_setCondition fun t => ?_
    refine deployWorkflows_good
      (hr.mem.condition_of_ne (by decide)) ?_ hasStatus_withCondition ?_ ?_
    · refine (hasStatus_withCondition_of_ne (by decide)).mpr ?_
      have hc := hr.conditions
      dsimp only at hc
      rw [hc]
      exact hboot
    · exact List.mem_cons_of_mem _ (hr.suffix.subset (by simp))
    · intro n hn
      obtain ⟨v,hv⟩ := order.exists_of_mem hn
      exact hr.ensured rfl _ hv
  · exact setDegraded_good_of_ne hr.mem (by decide) _ _

/-! ## The bootstrap -/

/-- The object in memory, with the Secret known to hold its credentials. -/
abbrev Credited (b ls : LosantSync) (h : Past) : Prop :=
  Mem h b ls ∧ Provisioned h b ls.status.clusterDeviceID

theorem Credited.quiet (hm : Credited b ls h) {e : Event interface}
    (hc : lastCopy (e::h) = lastCopy h) (hv : view (e::h) = view h) : Credited b ls (e::h) :=
  ⟨hm.1.quiet hc hv,hm.2.later (List.suffix_cons e h) (by rw [hv]) (by rw [hv])⟩

theorem restartGEA_obeys (hm : Credited b ls h) :
    Obeys Permits (fun h' _ => Credited b ls h') h (restartGEA lib ls) := by
  unfold restartGEA restartDeployment
  split
  · refine ⟨hm.1.ended,?_⟩
    rintro (err | annotations)
    · exact hm.quiet (by rfl) (by rfl)
    · refine obeys_now fun t => ⟨hm.1.ended,?_⟩
      have hm₁ := hm.quiet (e := ⟨.inr (.getDeployment ⟨ls.spec.provisioningSecretRef.namespace_,
          ls.spec.gea.deploymentRef⟩),.ok annotations⟩) rfl rfl
      have hm₂ := hm₁.quiet (e := ⟨.inr (.now .restartedAt),t⟩) rfl rfl
      rintro (err | ⟨⟩)
      · exact hm₂.quiet (by rfl) (by rfl)
      · exact hm₂.quiet (by rfl) (by rfl)
  · exact hm

/-- The bootstrap keeps the object in memory, and leaves credentials when it succeeds. -/
def Bootstrapped (b ls : LosantSync) (h : Past) (r : Except String Unit) : Prop :=
  Mem h b ls ∧ (r = .ok () → Provisioned h b ls.status.clusterDeviceID)

theorem Bootstrapped.error (hm : Mem h b ls) {err : String} :
    Bootstrapped b ls h (.error err) := ⟨hm,nofun⟩

theorem restartGEA_bootstrapped (hm : Mem h b ls)
    (hp : Provisioned h b ls.status.clusterDeviceID) :
    Obeys Permits (Bootstrapped b ls) h (restartGEA lib ls) :=
  (restartGEA_obeys ⟨hm,hp⟩).mono (fun _ _ hq => hq) (fun _ _ hq => ⟨hq.1,fun _ => hq.2⟩)

/-- A Secret written with the data of a new key is one that holds credentials. -/
theorem provisioned_of_know {id : String} {e : Event interface} {data : GoMap String}
    (hc : (view h).cluster = some id) (hk : KeyData h id data)
    (hv : view (e::h) = (view h).know (credentialsRef b) data) : Provisioned (e::h) b id := by
  refine ⟨?_,data,by simp [hv,View.know],.inr (hk.later (List.suffix_cons _ _))⟩
  rw [hv]
  exact hc

theorem storeCredentials_obeys (hm : Mem h b ls)
    (hn : ¬HasStatus ls.status.conditions .geaBootstrapped .true)
    (hc : (view h).cluster = some ls.status.clusterDeviceID) {data : GoMap String}
    (hkey : KeyData h ls.status.clusterDeviceID data) {existing : Option Secret}
    (href : ∀ s, existing = some s → s.namespacedName = credentialsRef b) :
    Obeys Permits (Bootstrapped b ls) h (storeCredentials lib ls data existing) := by
  cases existing with
  | none =>
    have hns : (⟨ls.spec.provisioningSecretRef.namespace_,geaCredentialsSecretName⟩ :
        NamespacedName) = credentialsRef b := by rw [credentialsRef,hm.spec]
    refine ⟨⟨hm.ended,.inl ⟨b,hm.held,hns,_,hc,hkey⟩⟩,?_⟩
    rintro (err | ⟨⟩)
    · exact Bootstrapped.error (hm.quiet (by rfl) (by rfl))
    · exact restartGEA_bootstrapped (hm.know hn (by rfl) (by rfl))
        (provisioned_of_know hc hkey (by rw [← hns]; rfl))
  | some s =>
    have hns := href s rfl
    refine ⟨⟨hm.ended,b,hm.held,hns,_,hc,hkey⟩,?_⟩
    rintro (err | ⟨⟩)
    · exact Bootstrapped.error (hm.quiet (by rfl) (by rfl))
    · exact restartGEA_bootstrapped (hm.know hn (by rfl) (by rfl))
        (provisioned_of_know hc hkey (by rw [← hns]; rfl))

theorem writeCredentials_obeys {lc : Losant.HTTPClient} (hm : Mem h b ls)
    (hn : ¬HasStatus ls.status.conditions .geaBootstrapped .true)
    (hc : (view h).cluster = some ls.status.clusterDeviceID) {existing : Option Secret}
    (href : ∀ s, existing = some s → s.namespacedName = credentialsRef b) :
    Obeys Permits (Bootstrapped b ls) h
      (writeCredentials lib lc ls ls.status.clusterDeviceID existing) := by
  refine obeys_now fun t => ?_
  have hm₁ := hm.quiet (e := ⟨.inr (.now .keyName),t⟩) rfl rfl
  refine ⟨⟨hm.ended,b,hm.held,by rw [hm.spec],hc⟩,?_⟩
  rintro (err | (key : Losant.AccessKey))
  · exact Bootstrapped.error (hm₁.quiet (by rfl) (by rfl))
  · exact storeCredentials_obeys (hm₁.quiet (by rfl) (by rfl)) hn (by exact hc)
      ⟨lc,_,_,key,List.mem_cons_self,rfl⟩ href

theorem bootstrap_obeys {lc : Losant.HTTPClient} (hm : Mem h b ls)
    (hn : ¬HasStatus ls.status.conditions .geaBootstrapped .true)
    (hc : (view h).cluster = some ls.status.clusterDeviceID) :
    Obeys Permits (Bootstrapped b ls) h (bootstrap lib lc ls ls.status.clusterDeviceID) := by
  have href : (⟨ls.spec.provisioningSecretRef.namespace_,geaCredentialsSecretName⟩ :
      NamespacedName) = credentialsRef b := by rw [credentialsRef,hm.spec]
  refine ⟨hm.ended,?_⟩
  rintro (err | (s : StoredSecret))
  · have hm₁ := hm.quiet (e := ⟨.inr (.getSecret
      ⟨ls.spec.provisioningSecretRef.namespace_,geaCredentialsSecretName⟩),.error err⟩) rfl rfl
    change Obeys _ _ _ (if err.reason = .notFound then _ else _)
    split
    · exact writeCredentials_obeys hm₁ hn hc nofun
    · exact Bootstrapped.error hm₁
  · have hm₁ := hm.know (e := ⟨.inr (.getSecret
      ⟨ls.spec.provisioningSecretRef.namespace_,geaCredentialsSecretName⟩),.ok s⟩) hn rfl rfl
    change Obeys _ _ _ (if Complete s.data _ then _ else _)
    split
    · rename_i hcomp
      refine restartGEA_bootstrapped hm₁ ⟨hc,s.data,?_,.inl hcomp⟩
      rw [← href]
      exact Function.update_self _ _ _
    · refine writeCredentials_obeys hm₁ hn hc ?_
      rintro _ ⟨⟩
      exact href

/-! ## Steps 4.5 to 1 -/

theorem bootstrapGEA_good {lc : Losant.HTTPClient} {gc : Gea.HTTPClient} (hm : Mem h b ls)
    (hc : (view h).cluster = some ls.status.clusterDeviceID) :
    Good lib b h (bootstrapGEA lib lc gc ls) := by
  unfold bootstrapGEA
  split
  · rename_i hboot
    exact provisionNodes_good hm (isStatusConditionTrue_iff.mp hboot)
  · rename_i hboot
    have hn : ¬HasStatus ls.status.conditions .geaBootstrapped .true :=
      fun ht => hboot (isStatusConditionTrue_iff.mpr ht)
    refine (bootstrap_obeys hm hn hc).bind ?_
    rintro h' (err | ⟨⟩) ⟨hm',hp⟩
    · exact setDegraded_good hm' (fun _ hb => hn (hm'.kept.boot hb)) _ _
    · refine obeys_setCondition fun t => ?_
      exact provisionNodes_good (hm'.condition_bootstrapped (hp rfl)) hasStatus_withCondition

/-- The cluster device, found before anything else has been said about the object. -/
theorem Mem.clusterDevice (hm : Mem h b b) {lc : Losant.HTTPClient} {spec : LosantSyncSpec}
    {id : String} :
    Mem (⟨.inr (.losant lc (.ensureClusterDevice spec)),.ok id⟩::h) b
      { b with status := { b.status with clusterDeviceID := id } } where
  held := hm.held
  running := hm.running
  metadata := rfl
  spec := rfl
  kept :=
    { cluster := rfl
      nodes := hm.kept.nodes
      boot := fun hb => hb
      booted := .inl }
  lastSync := rfl
  waited := hm.waited
  scheduled := hm.scheduled
  ended := hm.ended

theorem provisionCluster_good {lc : Losant.HTTPClient} {gc : Gea.HTTPClient} (hm : Mem h b b)
    (hnone : (view h).cluster = none) : Good lib b h (provisionCluster lib lc gc b) := by
  refine ⟨⟨hm.ended,trivial⟩,?_⟩
  rintro (err | ⟨⟩)
  · exact setDegraded_good_of_ne (hm.quiet (by rfl) (by rfl)) (by decide) _ _
  · have hm₁ := hm.quiet (e := ⟨.inr (.losant lc .ping),.ok ()⟩) rfl rfl
    refine ⟨⟨hm.ended,b,hm.held,rfl,hnone⟩,?_⟩
    rintro (err | id)
    · exact setDegraded_good_of_ne (hm₁.quiet (by rfl) (by rfl)) (by decide) _ _
    · exact bootstrapGEA_good hm₁.clusterDevice rfl

/-- An object just read. -/
theorem Mem.read (hc : Held h b) (hsus : b.spec.suspend = false)
    (hv : (view h).cluster = none ∧ (view h).nodes = [] ∧ (view h).waited = false ∧
      (view h).scheduled = none ∧ (view h).ended = false) : Mem h b b where
  held := hc
  running := hsus
  metadata := rfl
  spec := rfl
  kept :=
    { cluster := by simp [hv.1]
      nodes := by simp [View.nodeDevices,hv.2.1]
      boot := fun hb => hb
      booted := .inl }
  lastSync := rfl
  waited := hv.2.2.1
  scheduled := hv.2.2.2.1
  ended := hv.2.2.2.2

theorem sync_good (hc : Held h b) (hsus : b.spec.suspend = false)
    (hv : (view h).cluster = none ∧ (view h).nodes = [] ∧ (view h).waited = false ∧
      (view h).scheduled = none ∧ (view h).ended = false) : Good lib b h (sync lib b) := by
  have hm : ∀ s,
      Mem (⟨.inr (.getSecret b.spec.provisioningSecretRef.namespacedName),.ok s⟩::h) b b :=
    fun s => Mem.read hc hsus hv
  refine obeys_client hv.2.2.2.2 (fun err => ?_) (fun s err _ => ?_) (fun s lc _ => ?_)
  · exact setDegraded_good_of_ne ((Mem.read hc hsus hv).quiet (by rfl) (by rfl)) (by decide) _ _
  · exact setDegraded_good_of_ne (hm s) (by decide) _ _
  · exact provisionCluster_good (hm s) hv.1

theorem syncWhenDue_good (hc : Held h b) (hsus : b.spec.suspend = false)
    (hv : (view h).cluster = none ∧ (view h).nodes = [] ∧ (view h).waited = false ∧
      (view h).scheduled = none ∧ (view h).ended = false) : Good lib b h (syncWhenDue lib b) := by
  unfold syncWhenDue
  split
  · rename_i next hphase hnext
    refine obeys_now fun t => ?_
    split
    · refine obeys_now fun u => ?_
      intro _ _ res hres
      cases hres
      -- The job waits for the recorded time, and the second reading decides the delay.
      refine Iff.trans ?_ (Iff.symm (onTime_iff hnext rfl))
      simp [Result.AsksAgain,timeUntil_pos]
    · exact sync_good hc hsus hv
  · exact sync_good hc hsus hv

/-! ## The other branches -/

theorem ensureCredentialPlaceholder_obeys {ns : String} (hended : (view h).ended = false) :
    Obeys Permits (fun h' _ => (view h').waited = (view h).waited ∧
      (view h').scheduled = (view h).scheduled) h (ensureCredentialPlaceholder ns) := by
  refine ⟨hended,?_⟩
  rintro (err | s)
  · change Obeys _ _ _ (if err.reason ≠ .notFound then _ else _)
    split
    · exact ⟨rfl,rfl⟩
    · refine ⟨⟨hended,.inr rfl⟩,?_⟩
      rintro (err | ⟨⟩)
      · change Obeys _ _ _ (if err.reason ≠ .alreadyExists then _ else _)
        split
        · exact ⟨rfl,rfl⟩
        · exact ⟨rfl,rfl⟩
      · exact ⟨rfl,rfl⟩
  · exact ⟨rfl,rfl⟩

theorem firstReconcile_good (hc : Held h b) (hunset : b.status.phase = .unset)
    (hv : (view h).waited = false ∧ (view h).scheduled = none ∧ (view h).ended = false) :
    Good lib b h (firstReconcile b) := by
  refine obeys_now fun t => ?_
  refine ⟨⟨hv.2.2,b,hc,rfl,rfl,.first t hunset⟩,?_⟩
  rintro (err | v)
  · exact good_error
  · have hended : (view h).ended = false := hv.2.2
    refine (ensureCredentialPlaceholder_obeys ?_).bind ?_
    · change ((view h).ended || false) = false
      rw [hended]
      rfl
    · rintro h' _ ⟨hw,hs⟩
      intro _ _ res hres
      cases hres
      refine iff_of_true (.inr (by decide)) (onTime_of_none (resumeAt_unscheduled ?_ ?_))
      · exact hw.trans hv.1
      · exact hs.trans hv.2.1

theorem suspended_good (hc : Held h b) (hsus : b.spec.suspend = true)
    (hended : (view h).ended = false) : Good lib b h (suspended b) := by
  have hret : ∀ h' r, Returns lib b h' r := by
    intro h' r _ hf
    rw [hsus] at hf
    cases hf
  unfold suspended
  split
  · refine ⟨⟨hended,b,hc,rfl,rfl,.suspended hsus⟩,?_⟩
    rintro (err | v)
    · exact hret _ _
    · exact hret _ _
  · exact hret _ _

theorem addFinalizer_good (hc : lastCopy h = some b) (hlive : b.metadata.deletionTimestamp = none)
    (hf : finalizer ∉ b.metadata.finalizers)
    (hv : (view h).waited = false ∧ (view h).scheduled = none ∧ (view h).ended = false) :
    Good lib b h (addFinalizer b) := by
  refine ⟨⟨hv.2.2,b,hc,.inl ⟨hlive,hf,rfl⟩⟩,?_⟩
  rintro (err | v)
  · exact good_error
  · intro _ _ res hres
    cases hres
    exact iff_of_true (.inl rfl) (onTime_of_none (resumeAt_unscheduled hv.1 hv.2.1))

/-- What the loop of `handleDeletion` leaves behind. -/
structure Cleared (b : LosantSync) (h : Past) (l : List (Sigma fun _ : String => String))
    (h' : Past) (r : Except Losant.Error Unit) : Prop where
  deleting : Deleting h' b
  ended : (view h').ended = false
  suffix : h <:+ h'
  deleted : r = .ok () → ∀ p ∈ l, Deleted h' b.spec.applicationID p.2

theorem Deleted.later {h' : Past} {app id : String} (hd : Deleted h app id) (hs : h <:+ h') :
    Deleted h' app id := by
  obtain ⟨c,hm⟩ := hd
  exact ⟨c,hs.subset hm⟩

theorem deleteDevices_obeys (lc : Losant.HTTPClient) (hd : Deleting h b)
    (hended : (view h).ended = false) (l : List (Sigma fun _ : String => String))
    (hl : ∀ p ∈ l, Recorded b.status p.2) :
    Obeys Permits (Cleared b h l) h (deleteDevices lc b.spec.applicationID l) := by
  induction l generalizing h with
  | nil => exact ⟨hd,hended,List.suffix_refl h,fun _ p hp => absurd hp (by simp)⟩
  | cons p rest ih =>
    obtain ⟨n,id⟩ := p
    refine ⟨⟨hended,b,hd,rfl,hl _ List.mem_cons_self⟩,?_⟩
    rintro (err | ⟨⟩)
    · exact ⟨hd,hended,List.suffix_cons _ _,nofun⟩
    · refine (ih (h := ⟨.inr (.losant lc (.deleteDevice b.spec.applicationID id)),.ok ()⟩::h) hd
        hended (fun q hq => hl q (List.mem_cons_of_mem _ hq))).mono
        (fun _ _ hp => hp) (fun h' r hr => ?_)
      refine ⟨hr.deleting,hr.ended,(List.suffix_cons _ _).trans hr.suffix,fun hok q hq => ?_⟩
      rcases List.mem_cons.mp hq with rfl | hq
      · exact ⟨lc,hr.suffix.subset List.mem_cons_self⟩
      · exact hr.deleted hok q hq

/-- A job on an object that is being deleted promises nothing about its delay. -/
theorem returns_of_deleting (hd : b.metadata.deletionTimestamp.isSome) (h' : Past)
    (r : Except String Result) : Returns lib b h' r := by
  intro hnone
  rw [hnone] at hd
  cases hd

theorem removeFinalizer_good (hd : Deleting h b) (hended : (view h).ended = false)
    (hall : ∀ id, Recorded b.status id → Deleted h b.spec.applicationID id) :
    Good lib b h (removeFinalizer b) := by
  refine ⟨⟨hended,b,hd.1,.inr ⟨hd,hall,rfl⟩⟩,?_⟩
  rintro (err | v)
  · exact returns_of_deleting hd.2.1 _ _
  · exact returns_of_deleting hd.2.1 _ _

theorem deleteClusterDevice_good {lc : Losant.HTTPClient} (hd : Deleting h b)
    (hended : (view h).ended = false)
    (hnodes : ∀ n id, b.status.nodeDevices.lookup n = some id → Deleted h b.spec.applicationID id) :
    Good lib b h (deleteClusterDevice lc b) := by
  unfold deleteClusterDevice
  split
  · rename_i hid
    refine ⟨⟨hended,b,hd,rfl,.inr ⟨rfl,hid⟩⟩,?_⟩
    rintro (err | ⟨⟩)
    · exact returns_of_deleting hd.2.1 _ _
    · refine removeFinalizer_good hd hended ?_
      rintro id (⟨n,hn⟩ | ⟨rfl,-⟩)
      · exact (hnodes n id hn).later (List.suffix_cons _ _)
      · exact ⟨lc,List.mem_cons_self⟩
  · rename_i hid
    refine removeFinalizer_good hd hended ?_
    rintro id (⟨n,hn⟩ | ⟨rfl,hne⟩)
    · exact hnodes n id hn
    · exact absurd hne hid

theorem handleDeletion_good (hc : lastCopy h = some b)
    (hdel : b.metadata.deletionTimestamp.isSome) (hended : (view h).ended = false) :
    Good lib b h (handleDeletion b) := by
  unfold handleDeletion
  split
  · exact returns_of_deleting hdel _ _
  · rename_i hf
    have hd : Deleting h b := ⟨hc,hdel,not_not.mp hf⟩
    refine obeys_client hended (fun err => ?_) (fun s err _ => ?_) (fun s lc _ => ?_)
    · exact returns_of_deleting hdel _ _
    · exact returns_of_deleting hdel _ _
    · refine ⟨hended,fun (order : b.status.nodeDevices.Order) => ?_⟩
      have hloop := deleteDevices_obeys (h := ⟨.inr (.rangeDevices b.status.nodeDevices),order⟩::
        ⟨.inr (.getSecret b.spec.provisioningSecretRef.namespacedName),.ok s⟩::h) lc hd hended
        order.val (fun p hp => .inl ⟨p.1,order.mem_iff.mp hp⟩)
      refine hloop.bind ?_
      rintro h' (err | ⟨⟩) hcl
      · exact returns_of_deleting hdel _ _
      · refine deleteClusterDevice_good hcl.deleting hcl.ended (fun n id hn => ?_)
        exact hcl.deleted rfl ⟨n,id⟩ (order.mem_iff.mpr hn)

/-- A job on the object it has read. -/
theorem reconcileObject_good (lib : Externals) (b : LosantSync) :
    Good lib b [⟨.inl .get,.ok b⟩] (reconcileObject lib b) := by
  unfold reconcileObject
  split
  · rename_i hdel
    exact handleDeletion_good rfl hdel rfl
  · rename_i hdel
    have hlive : b.metadata.deletionTimestamp = none := by simpa using hdel
    split
    · rename_i hf
      exact addFinalizer_good rfl hlive hf ⟨rfl,rfl,rfl⟩
    · rename_i hf
      have hc : Held [⟨.inl .get,.ok b⟩] b := ⟨rfl,hlive,not_not.mp hf⟩
      split
      · rename_i hsus
        exact suspended_good hc hsus rfl
      · rename_i hsus
        have hsus : b.spec.suspend = false := by simpa using hsus
        split
        · rename_i hunset
          exact firstReconcile_good hc hunset ⟨rfl,rfl,rfl⟩
        · exact syncWhenDue_good hc hsus ⟨rfl,rfl,rfl,rfl,rfl⟩

/-- Every call of `Reconcile` is permitted. -/
theorem reconcile_obeys (lib : Externals) :
    Obeys Permits (fun _ _ => True) [] (reconcile lib) := by
  refine ⟨rfl,?_⟩
  rintro (err | (b : LosantSync))
  · change Obeys _ _ _ (if err.reason = .notFound then _ else _)
    split
    · trivial
    · trivial
  · exact (reconcileObject_good lib b).mono (fun _ _ hp => hp) (fun _ _ _ => trivial)

theorem run_reconcile (lib : Externals) (s : Strategy interface) {b : LosantSync}
    (hread : s [] (.inl .get) = .ok b) :
    run s [] (reconcile lib) = run s [⟨.inl .get,.ok b⟩] (reconcileObject lib b) := by
  change run s [⟨.inl .get,s [] (.inl .get)⟩] (_ : M _) = _
  rw [hread]
  rfl

theorem traced {σ : System losantSync calls (Except String Result)} {c : Config σ}
    (hmain : σ.main = reconcile lib) (hc : σ.Reachable c) : c.Traced Permits :=
  System.Reachable.traced Permits.disciplined (hmain ▸ reconcile_obeys lib) hc

end LosantDevice.Sync

import LosantDevice.Sync.Obeys

/-!
# What a sync writes, asks for and reports

A second statement about the whole of `Reconcile`, beside the one of `Permits`. It says how the
phase, the next time and the condition of the workflows in a status come from the copy the job
works on, that the device of a node is asked for once and before anything is written, and that what
is reported to the gateway is what the health snapshot holds, for the device the job was given.
-/
namespace LosantDevice.Sync
open Effect Kube Go Monitor Program

/-- The calls that neither go to the server nor report. -/
def Aside : interface.Call → Prop
  | .inl _ | .inr (.reportState _ _) => False
  | _ => True

/-- Those that do not ask for the device of a node either. -/
def Plain : interface.Call → Prop
  | .inl _ | .inr (.reportState _ _) | .inr (.losant _ (.ensureNodeDevice _ _ _)) => False
  | _ => True

/-- Nothing was called yet but the read and plain calls. -/
def Early (h : Past) : Prop := ∀ ev ∈ h, ev.call = .inl .get ∨ Plain ev.call

/-- No status was stored yet. -/
def Unwritten (h : Past) : Prop :=
  ∀ o v, (⟨.inl (.updateStatus o),.ok v⟩ : Event interface) ∉ h

/-- The condition of the workflows after step 5b: true if any are listed, otherwise untouched. -/
def Deployed (b : LosantSync) (cs : List (Condition SyncCondition)) : Prop :=
  (b.spec.workflowDeployments = [] → findStatusCondition cs .workflowDeployed =
    findStatusCondition b.status.conditions .workflowDeployed) ∧
  (b.spec.workflowDeployments ≠ [] → HasStatus cs .workflowDeployed .true)

/-- The phases of the copy `b` from which a job writes a status. One that does not end a sync is
written before any device is asked for. -/
inductive Outcome (lib : Externals) (h : Past) (b : LosantSync) : LosantSyncStatus → Prop
  | suspended {t} (phase : t.phase = .suspended) (before : b.status.phase ≠ .suspended)
      (early : Early h) : Outcome lib h b t
  | first {t} (phase : t.phase = .provisioning) (before : b.status.phase = .unset)
      (early : Early h) : Outcome lib h b t
  | degraded {t} (phase : t.phase = .degraded) (before : b.status.phase ≠ .unset) :
      Outcome lib h b t
  | active {t} (phase : t.phase = .active) (before : b.status.phase ≠ .unset)
      (last : ∃ u : Time, (⟨.inr (.now .lastSync),u⟩ : Event interface) ∈ h ∧
        t.lastSyncTime = some u)
      (next : ∃ u, (view h).scheduled = some u ∧ t.nextScheduledTime = nextAfter lib b.spec u)
      (workflows : Deployed b t.conditions) : Outcome lib h b t

/-- What the write that ends a successful sync says. -/
theorem Outcome.of_active {lib : Externals} {h : Past} {b : LosantSync} {t : LosantSyncStatus}
    (ho : Outcome lib h b t) (hp : t.phase = .active) :
    (∃ u : Time, (⟨.inr (.now .lastSync),u⟩ : Event interface) ∈ h ∧ t.lastSyncTime = some u) ∧
      (∃ u, (view h).scheduled = some u ∧ t.nextScheduledTime = nextAfter lib b.spec u) ∧
      Deployed b t.conditions := by
  cases ho with
  | suspended hs | first hs | degraded hs => rw [hs] at hp; cases hp
  | active _ _ hl hn hd => exact ⟨hl,hn,hd⟩

/-- The node is in a snapshot the job was given. -/
def Handed (h : Past) (n : String) : Prop :=
  ∃ cluster nodes, (⟨.inr .healthSnapshot,(cluster,nodes)⟩ : Event interface) ∈ h ∧ n ∈ nodes

/-- The job was given the device for the slot. -/
def Known (h : Past) (slot : Slot) (id : String) : Prop := ∃ ev ∈ h, Gives ev slot id

/-- What a snapshot says about a slot. -/
def described (cluster : ClusterHealth) (nodes : GoMap NodeHealth) :
    Slot → Option (List (String × Gea.Value))
  | .cluster => some (clusterAttributes cluster)
  | .node n => (nodes.lookup n).map nodeAttributes

/-- The payload describes the slot by a snapshot the job was given, and is for its device. -/
def Routed (h : Past) (payload : Gea.StatePayload) (slot : Slot) : Prop :=
  (∃ cluster nodes, (⟨.inr .healthSnapshot,(cluster,nodes)⟩ : Event interface) ∈ h ∧
    described cluster nodes slot = some payload.attributes) ∧ Known h slot payload.deviceID

def Tells (lib : Externals) (h : Past) : interface.Call → Prop
  | .inl (.updateStatus o) => ∃ b, lastCopy h = some b ∧ Outcome lib h b o.status
  | .inr (.losant _ (.ensureNodeDevice _ n _)) =>
    Handed h n ∧ Unwritten h ∧ (view h).nodes.lookup n = none
  | .inr (.reportState _ payload) => ∃ slot, Routed h payload slot
  | _ => True

variable {lib : Externals} {h h' : Past} {b ls : LosantSync} {α : Type} {Ψ : Past → α → Prop}
  {lc : Losant.HTTPClient} {gc : Gea.HTTPClient}

theorem Plain.tells {e : interface.Call} (he : Plain e) : Tells lib h e := by
  fun_cases Tells lib h e with
  | case1 | case2 | case3 => exact he.elim
  | case4 => trivial

theorem Plain.aside {e : interface.Call} (he : Plain e) : Aside e := by
  fun_cases Aside e with
  | case1 | case2 => exact he.elim
  | case3 => trivial

/-- A plain call tells the job about no node. -/
theorem Plain.nodes {ev : Event interface} (hp : Plain ev.call) :
    (view (ev::h)).nodes = (view h).nodes := by
  change (observe ev (view h)).nodes = (view h).nodes
  fun_cases observe ev (view h) with
  | case13 => exact hp.elim
  | _ => rfl

/-! ## Before the loop over the nodes -/

theorem Early.cons (he : Early h) {e : interface.Call} {r : interface.Answer e} (hp : Plain e) :
    Early (⟨e,r⟩::h) := by
  intro ev hev
  rcases List.mem_cons.mp hev with rfl | hev
  · exact .inr hp
  · exact he ev hev

theorem Early.tail {ev : Event interface} (he : Early (ev::h)) : Early h :=
  fun ev' hev' => he ev' (List.mem_cons_of_mem _ hev')

theorem Early.unwritten (he : Early h) : Unwritten h := by
  intro o v hev
  rcases he _ hev with hc | hp
  · cases hc
  · exact hp

theorem Early.nodes (he : Early h) : (view h).nodes = [] := by
  induction h with
  | nil => rfl
  | cons ev h ih =>
    obtain ⟨e,r⟩ := ev
    rcases he _ List.mem_cons_self with hc | hp
    · obtain rfl : e = .inl .get := hc
      exact ih he.tail
    · exact hp.nodes.trans (ih he.tail)

/-- Plain calls leave the copy and everything known before as they are. -/
theorem obeys_plain {p : M α} (hp : Obeys (fun _ e => Plain e) Ψ h p) :
    Obeys (Tells lib) (fun h' a =>
      Ψ h' a ∧ lastCopy h' = lastCopy h ∧ h <:+ h' ∧ (Early h → Early h')) h p := by
  induction p generalizing h with
  | done a => exact ⟨hp,rfl,List.suffix_refl h,id⟩
  | call e next ih =>
    refine ⟨hp.1.tells,fun r => (ih r (hp.2 r)).mono (fun _ _ hq => hq) fun h' a hq => ?_⟩
    obtain ⟨hΨ,hcopy,hs,hearly⟩ := hq
    refine ⟨hΨ,hcopy.trans ?_,(List.suffix_cons _ _).trans hs,fun he => hearly (he.cons hp.1)⟩
    cases e with
    | inl e => exact hp.1.elim
    | inr e => rfl

/-- So do those of the loop over the nodes. -/
theorem obeys_aside {p : M α} (hp : Obeys (fun _ e => Aside e) Ψ h p) :
    Obeys (fun _ e => Aside e) (fun h' a => Ψ h' a ∧ lastCopy h' = lastCopy h ∧ h <:+ h') h p := by
  induction p generalizing h with
  | done a => exact ⟨hp,rfl,List.suffix_refl h⟩
  | call e next ih =>
    refine ⟨hp.1,fun r => (ih r (hp.2 r)).mono (fun _ _ hq => hq) fun h' a hq => ?_⟩
    obtain ⟨hΨ,hcopy,hs⟩ := hq
    refine ⟨hΨ,hcopy.trans ?_,(List.suffix_cons _ _).trans hs⟩
    cases e with
    | inl e => exact hp.1.elim
    | inr e => rfl

/-! ## The devices a job knows -/

variable {cluster : ClusterHealth} {nodes : GoMap NodeHealth}

/-- The device in the status is one the job was given. -/
def KnownNode (h : Past) (ls : LosantSync) (n : String) : Prop :=
  ∃ id, ls.status.nodeDevices.lookup n = some id ∧ Known h (.node n) id

theorem Handed.later {n : String} (hn : Handed h n) (hs : h <:+ h') : Handed h' n := by
  obtain ⟨cluster,nodes,hev,hmem⟩ := hn
  exact ⟨cluster,nodes,hs.subset hev,hmem⟩

theorem Known.later {slot : Slot} {id : String} (hk : Known h slot id) (hs : h <:+ h') :
    Known h' slot id := by
  obtain ⟨ev,hev,hg⟩ := hk
  exact ⟨ev,hs.subset hev,hg⟩

theorem KnownNode.later {n : String} (hk : KnownNode h ls n) (hs : h <:+ h') :
    KnownNode h' ls n := by
  obtain ⟨id,hid,hk⟩ := hk
  exact ⟨id,hid,hk.later hs⟩

/-- Before it reports, a sync knows the devices of the cluster and of all nodes. -/
structure Ready (h : Past) (cluster : ClusterHealth) (nodes : GoMap NodeHealth)
    (ls : LosantSync) : Prop where
  snapshot : (⟨.inr .healthSnapshot,(cluster,nodes)⟩ : Event interface) ∈ h
  cluster : Known h .cluster ls.status.clusterDeviceID
  nodes : ∀ n ∈ nodes, KnownNode h ls n

theorem Ready.later (hr : Ready h cluster nodes ls) (hs : h <:+ h') : Ready h' cluster nodes ls :=
  ⟨hs.subset hr.snapshot,hr.cluster.later hs,fun n hn => (hr.nodes n hn).later hs⟩

theorem Ready.condition (hr : Ready h cluster nodes ls) {t : Time} {ty : SyncCondition}
    {v : ConditionStatus} {reason message : String} :
    Ready h cluster nodes (withCondition lib t ls ty v reason message) :=
  ⟨hr.snapshot,hr.cluster,hr.nodes⟩

/-- Every call is as `Tells` says. -/
abbrev Telling (lib : Externals) (h : Past) (p : M (Except String Result)) : Prop :=
  Obeys (Tells lib) (fun _ _ => True) h p

/-- The job works on the copy `b`, which has been scheduled before. -/
def Works (h : Past) (b : LosantSync) : Prop := lastCopy h = some b ∧ b.status.phase ≠ .unset

theorem Works.later (hw : Works h b) (hc : lastCopy h' = lastCopy h) : Works h' b :=
  ⟨hc.trans hw.1,hw.2⟩

theorem Works.outside (hw : Works h b) {e : Call} {r : calls.Answer e} :
    Works (⟨.inr e,r⟩::h) b := hw

/-! ## Steps 9 to 6 -/

theorem writeDegraded_telling (hw : Works h b) (hphase : ls.status.phase = .degraded) :
    Telling lib h (writeDegraded lib ls) := by
  refine obeys_writeDegraded (fun _ _ => trivial) ?_ (fun _ _ => trivial)
  intro h' next _ hc
  exact ⟨b,(hw.later hc).1,.degraded hphase hw.2⟩

theorem setDegraded_telling (hw : Works h b) (ty : SyncCondition) (reason message : String) :
    Telling lib h (setDegraded lib ls ty reason message) := by
  refine ⟨trivial,fun t₁ => ⟨trivial,fun t₂ => ?_⟩⟩
  exact writeDegraded_telling (hw.later rfl) rfl

/-- Setting another condition does not touch the one of the workflows. -/
theorem Deployed.condition (hd : Deployed b ls.status.conditions) {t : Time} {ty : SyncCondition}
    {v : ConditionStatus} {reason message : String} (hne : .workflowDeployed ≠ ty) :
    Deployed b (withCondition lib t ls ty v reason message).status.conditions := by
  have hsame := lib.conditions.find_set_of_ne t ls.status.conditions
    { type := ty, status := v, observedGeneration := ls.metadata.generation
      lastTransitionTime := zeroTime, reason, message } _ hne
  refine ⟨fun hnone => hsame.trans (hd.1 hnone),fun hsome => ?_⟩
  exact (hasStatus_withCondition_of_ne hne).mpr (hd.2 hsome)

theorem finishSync_telling (hw : Works h b) (hspec : ls.spec = b.spec)
    (hd : Deployed b ls.status.conditions) : Telling lib h (finishSync lib ls) := by
  unfold finishSync
  refine obeys_nextSchedule (fun _ _ => trivial) (fun _ err => setDegraded_telling hw _ _ _) ?_
  intro h' t u next d hnext hs _ _
  refine ⟨trivial,fun t₁ => ⟨trivial,fun t₂ => ?_⟩⟩
  refine ⟨⟨b,(hw.later hs.copy).1,.active rfl hw.2 ⟨t₁,by simp,rfl⟩ ⟨t,?_,?_⟩ ?_⟩,?_⟩
  · exact congrArg View.scheduled hs.view
  · rw [← hspec]
    exact hnext.symm
  · exact hd.condition (by decide)
  · rintro (err | v)
    · trivial
    · exact ⟨trivial,fun _ => trivial⟩

theorem reportNodes_tells (hr : Ready h cluster nodes ls)
    (l : List (Sigma fun _ : String => NodeHealth)) (hl : ∀ p ∈ l, nodes.lookup p.1 = some p.2) :
    Obeys (Tells lib) (fun h' _ => lastCopy h' = lastCopy h) h (reportNodes gc ls l) := by
  induction l generalizing h with
  | nil => rfl
  | cons p rest ih =>
    obtain ⟨n,nh⟩ := p
    have hrest : ∀ p ∈ rest, nodes.lookup p.1 = some p.2 :=
      fun p hp => hl p (List.mem_cons_of_mem _ hp)
    have hnh : nodes.lookup n = some nh := hl _ List.mem_cons_self
    unfold reportNodes
    dsimp only
    split
    · exact ih hr hrest
    · obtain ⟨id,hid,hknown⟩ := hr.nodes n (Finmap.mem_of_lookup_eq_some hnh)
      refine ⟨⟨.node n,⟨cluster,nodes,hr.snapshot,?_⟩,?_⟩,fun r => ?_⟩
      · exact congrArg (Option.map nodeAttributes) hnh
      · rw [hid]
        exact hknown
      · exact (ih (hr.later (List.suffix_cons _ _)) hrest).mono (fun _ _ hq => hq)
          (fun _ _ hc => hc)

theorem reportCluster_telling (hw : Works h b) (hspec : ls.spec = b.spec)
    (hd : Deployed b ls.status.conditions) (hr : Ready h cluster nodes ls) :
    Telling lib h (reportCluster lib gc cluster nodes ls) := by
  refine ⟨⟨.cluster,⟨cluster,nodes,hr.snapshot,rfl⟩,hr.cluster⟩,?_⟩
  rintro (err | ⟨⟩)
  · exact setDegraded_telling hw.outside _ _ _
  · refine ⟨trivial,fun t => ⟨trivial,fun (order : nodes.Order) => ?_⟩⟩
    refine (reportNodes_tells (?_ : Ready _ cluster nodes _) order.val
      (fun p hp => order.mem_iff.mp hp)).bind ?_
    · exact (((hr.later (List.suffix_cons _ _)).later (List.suffix_cons _ _)).later
        (List.suffix_cons _ _)).condition
    · intro h' _ hc
      exact finishSync_telling (hw.later hc) hspec (hd.condition (by decide))

/-! ## Steps 5b and 5 -/

theorem releaseWorkflows_plain {current : GoMap Losant.EdgeDeploymentStatus}
    (l : List WorkflowDeployment) (allConfirmed : Bool) :
    Obeys (fun _ e => Plain e) (fun _ _ => True) h
      (releaseWorkflows lc ls current l allConfirmed) := by
  induction l generalizing h allConfirmed with
  | nil => trivial
  | cons wd rest ih =>
    unfold releaseWorkflows
    dsimp only
    split
    · refine ⟨trivial,?_⟩
      rintro (err | ⟨⟩)
      · change Obeys _ _ _ (if _ then _ else _)
        split
        · trivial
        · trivial
      · exact ih _
    · split
      · exact ih _
      · exact ih _

/-- A reason is given exactly if there are workflows. -/
theorem ensureWorkflowDeployments_plain :
    Obeys (fun _ e => Plain e) (fun _ r => ∀ reason message, r = .ok (reason,message) →
      (reason ≠ "" ↔ ls.spec.workflowDeployments ≠ [])) h (ensureWorkflowDeployments lc ls) := by
  unfold ensureWorkflowDeployments
  split
  · rename_i hnone
    rintro reason message ⟨⟩
    simp [hnone]
  · rename_i hsome
    refine ⟨trivial,?_⟩
    rintro (err | deployments)
    · rintro reason message ⟨⟩
    · refine (releaseWorkflows_plain _ _).bind ?_
      rintro h' (err | _ | _) - reason message hr
      · cases hr
      · cases hr
        simp [hsome]
      · cases hr
        simp [hsome]

theorem deployWorkflows_telling (hw : Works h b) (hspec : ls.spec = b.spec)
    (hsame : findStatusCondition ls.status.conditions .workflowDeployed =
      findStatusCondition b.status.conditions .workflowDeployed)
    (hr : Ready h cluster nodes ls) :
    Telling lib h (deployWorkflows lib lc gc cluster nodes ls) := by
  refine (obeys_plain ensureWorkflowDeployments_plain).bind ?_
  rintro h' (⟨reason,message⟩ | ⟨reason,message⟩) ⟨hgiven,hc,hs,-⟩
  · exact setDegraded_telling (hw.later hc) _ _ _
  · have hgiven := hgiven reason message rfl
    rw [hspec] at hgiven
    change Telling lib h' (if reason ≠ "" then _ else _)
    split
    · rename_i hreason
      refine ⟨trivial,fun t => ?_⟩
      refine reportCluster_telling (hw.later hc) hspec ⟨fun hnone => ?_,fun _ => ?_⟩
        ((hr.later hs).later (List.suffix_cons _ _)).condition
      · exact absurd hnone (hgiven.mp hreason)
      · exact hasStatus_withCondition
    · rename_i hreason
      refine reportCluster_telling (hw.later hc) hspec ⟨fun _ => hsame,fun hsome => ?_⟩
        (hr.later hs)
      exact absurd (hgiven.mpr hsome) hreason

/-- The invariant of the loop: no status was stored, and the nodes ahead are still to be asked. -/
theorem ensureNodes_tells (hu : Unwritten h) (l : List (Sigma fun _ : String => NodeHealth))
    (hnodup : (l.map Sigma.fst).Nodup)
    (hl : ∀ p ∈ l, Handed h p.1 ∧ (view h).nodes.lookup p.1 = none) :
    Obeys (Tells lib) (fun _ _ => True) h (ensureNodes lc ls l) := by
  induction l generalizing h ls with
  | nil => trivial
  | cons p rest ih =>
    obtain ⟨n,nh⟩ := p
    obtain ⟨hn,hrest⟩ := List.nodup_cons.mp hnodup
    obtain ⟨hhanded,hnone⟩ := hl _ List.mem_cons_self
    refine ⟨⟨hhanded,hu,hnone⟩,?_⟩
    rintro (err | id)
    · trivial
    · refine ih ?_ hrest ?_
      · intro o v hev
        rcases List.mem_cons.mp hev with he | hev
        · cases he
        · exact hu o v hev
      · intro p hp
        obtain ⟨hhanded,hnone⟩ := hl p (List.mem_cons_of_mem _ hp)
        have hne : p.1 ≠ n := by
          intro he
          exact hn (List.mem_map.mpr ⟨p,hp,he⟩)
        refine ⟨hhanded.later (List.suffix_cons _ _),?_⟩
        change List.lookup p.1 ((n,id)::(view h).nodes) = none
        rw [List.lookup_cons,beq_false_of_ne hne]
        exact hnone

/-- What the loop leaves of the object. The devices it was given before are kept. -/
structure Looped (h : Past) (ls : LosantSync) (l : List (Sigma fun _ : String => NodeHealth))
    (h' : Past) (r : LosantSync × Option (String × Losant.Error)) : Prop where
  spec : r.1.spec = ls.spec
  conditions : r.1.status.conditions = ls.status.conditions
  cluster : r.1.status.clusterDeviceID = ls.status.clusterDeviceID
  nodes : r.2 = none → ∀ n, n ∈ l.map Sigma.fst ∨ KnownNode h ls n → KnownNode h' r.1 n

theorem ensureNodes_aside (l : List (Sigma fun _ : String => NodeHealth)) :
    Obeys (fun _ e => Aside e) (Looped h ls l) h (ensureNodes lc ls l) := by
  induction l generalizing h ls with
  | nil => exact ⟨rfl,rfl,rfl,fun _ n hn => hn.resolve_left (by simp)⟩
  | cons p rest ih =>
    obtain ⟨n,nh⟩ := p
    refine ⟨trivial,?_⟩
    rintro (err | id)
    · exact ⟨rfl,rfl,rfl,nofun⟩
    · refine ih.mono (fun _ _ he => he) ?_
      rintro h' r ⟨hspec,hcs,hcluster,hknown⟩
      refine ⟨hspec,hcs,hcluster,fun hok m hm => hknown hok m ?_⟩
      by_cases hmn : m = n
      · subst hmn
        exact .inr ⟨id,Finmap.lookup_insert _,_,List.mem_cons_self,.node⟩
      · rcases hm with hm | ⟨id',hid',hk⟩
        · exact .inl ((List.mem_cons.mp hm).resolve_left hmn)
        · refine .inr ⟨id',?_,hk.later (List.suffix_cons _ _)⟩
          exact (Finmap.lookup_insert_of_ne _ hmn).trans hid'

theorem provisionNodes_telling (hw : Works h b) (he : Early h) (hspec : ls.spec = b.spec)
    (hsame : findStatusCondition ls.status.conditions .workflowDeployed =
      findStatusCondition b.status.conditions .workflowDeployed)
    (hk : Known h .cluster ls.status.clusterDeviceID) :
    Telling lib h (provisionNodes lib lc gc ls) := by
  refine ⟨trivial,?_⟩
  rintro ⟨cluster,nodes⟩
  refine ⟨trivial,fun (order : nodes.Order) => ?_⟩
  have hsnap : Early (⟨.inr .healthSnapshot,(cluster,nodes)⟩::h) := he.cons trivial
  have he' : Early (⟨.inr (.rangeNodes nodes),order⟩::
      ⟨.inr .healthSnapshot,(cluster,nodes)⟩::h) := hsnap.cons trivial
  refine (((ensureNodes_tells he'.unwritten order.val order.nodup ?_).and (obeys_aside
    (ensureNodes_aside order.val))).mono (fun _ _ hp => hp.1) (fun _ _ hq => hq.2)).bind ?_
  · intro p hp
    have hmem := Finmap.mem_of_lookup_eq_some (order.mem_iff.mp hp)
    refine ⟨⟨cluster,nodes,List.mem_cons_of_mem _ List.mem_cons_self,hmem⟩,?_⟩
    rw [he'.nodes]
    rfl
  rintro h' ⟨ls',_ | ⟨n,err⟩⟩ ⟨hl,hc,hs⟩
  · refine ⟨trivial,fun t => ?_⟩
    refine deployWorkflows_telling (hw.later hc) (hl.spec.trans hspec) ?_
      (Ready.condition (Ready.later ⟨?_,?_,fun n hn => ?_⟩ (List.suffix_cons _ _)))
    · have hother : SyncCondition.workflowDeployed ≠ .devicesProvisioned := by decide
      have hcs : ls'.status.conditions = ls.status.conditions := hl.conditions
      rw [← hsame,← hcs]
      exact lib.conditions.find_set_of_ne t ls'.status.conditions _ _ hother
    · exact hs.subset (List.mem_cons_of_mem _ List.mem_cons_self)
    · have hk' := hk.later ((List.suffix_cons _ _).trans ((List.suffix_cons _ _).trans hs))
      rw [← hl.cluster] at hk'
      exact hk'
    · refine hl.nodes rfl n (.inl ?_)
      obtain ⟨nh,hnh⟩ := Finmap.mem_iff.mp hn
      exact List.mem_map.mpr ⟨⟨n,nh⟩,order.mem_iff.mpr hnh,rfl⟩
  · exact setDegraded_telling (hw.later hc) _ _ _

/-! ## Steps 4.5 to 1 -/

theorem restartGEA_plain :
    Obeys (fun _ e => Plain e) (fun _ _ => True) h (restartGEA lib ls) := by
  unfold restartGEA restartDeployment
  split
  · refine ⟨trivial,?_⟩
    rintro (err | annotations)
    · trivial
    · refine ⟨trivial,fun t => ⟨trivial,?_⟩⟩
      rintro (err | ⟨⟩)
      · trivial
      · trivial
  · trivial

theorem storeCredentials_plain {data : GoMap String} {existing : Option Secret} :
    Obeys (fun _ e => Plain e) (fun _ _ => True) h (storeCredentials lib ls data existing) := by
  cases existing with
  | none =>
    refine ⟨trivial,?_⟩
    rintro (err | ⟨⟩)
    · trivial
    · exact restartGEA_plain
  | some s =>
    refine ⟨trivial,?_⟩
    rintro (err | ⟨⟩)
    · trivial
    · exact restartGEA_plain

theorem writeCredentials_plain {id : String} {existing : Option Secret} :
    Obeys (fun _ e => Plain e) (fun _ _ => True) h (writeCredentials lib lc ls id existing) := by
  refine ⟨trivial,fun t => ⟨trivial,?_⟩⟩
  rintro (err | (key : Losant.AccessKey))
  · trivial
  · exact storeCredentials_plain

theorem bootstrap_plain {id : String} :
    Obeys (fun _ e => Plain e) (fun _ _ => True) h (bootstrap lib lc ls id) := by
  refine ⟨trivial,?_⟩
  rintro (err | (s : StoredSecret))
  · change Obeys _ _ _ (if err.reason = .notFound then _ else _)
    exact writeCredentials_plain.ite trivial
  · change Obeys _ _ _ (if Complete s.data _ then _ else _)
    exact restartGEA_plain.ite writeCredentials_plain

theorem bootstrapGEA_telling (hw : Works h b) (he : Early h) (hspec : ls.spec = b.spec)
    (hsame : findStatusCondition ls.status.conditions .workflowDeployed =
      findStatusCondition b.status.conditions .workflowDeployed)
    (hk : Known h .cluster ls.status.clusterDeviceID) :
    Telling lib h (bootstrapGEA lib lc gc ls) := by
  unfold bootstrapGEA
  split
  · exact provisionNodes_telling hw he hspec hsame hk
  · refine (obeys_plain bootstrap_plain).bind ?_
    rintro h' (err | ⟨⟩) ⟨-,hc,hs,hearly⟩
    · exact setDegraded_telling (hw.later hc) _ _ _
    · refine ⟨trivial,fun t => ?_⟩
      refine provisionNodes_telling (hw.later hc) ((hearly he).cons trivial) hspec ?_
        (hk.later (hs.trans (List.suffix_cons _ _)))
      have hother : SyncCondition.workflowDeployed ≠ .geaBootstrapped := by decide
      rw [← hsame]
      exact lib.conditions.find_set_of_ne t ls.status.conditions _ _ hother

theorem provisionCluster_telling (hw : Works h b) (he : Early h) :
    Telling lib h (provisionCluster lib lc gc b) := by
  refine ⟨trivial,?_⟩
  rintro (err | ⟨⟩)
  · exact setDegraded_telling hw.outside _ _ _
  · have hping : Early (⟨.inr (.losant lc .ping),.ok ()⟩::h) := he.cons trivial
    refine ⟨trivial,?_⟩
    rintro (err | id)
    · exact setDegraded_telling hw.outside.outside _ _ _
    · exact bootstrapGEA_telling hw.outside.outside (hping.cons trivial) rfl rfl
        ⟨_,List.mem_cons_self,.cluster⟩

theorem sync_telling (hw : Works h b) (he : Early h) : Telling lib h (sync lib b) := by
  refine obeys_client trivial (fun err => ?_) (fun s err _ => ?_) (fun s lc _ => ?_)
  · exact setDegraded_telling hw.outside _ _ _
  · exact setDegraded_telling hw.outside _ _ _
  · exact provisionCluster_telling hw.outside (he.cons trivial)

theorem syncWhenDue_telling (hw : Works h b) (he : Early h) :
    Telling lib h (syncWhenDue lib b) := by
  unfold syncWhenDue
  split
  · refine ⟨trivial,fun (t : Time) => ?_⟩
    change Telling lib _ (if (t : ℤ) < _ then _ else _)
    split
    · exact ⟨trivial,fun _ => trivial⟩
    · exact sync_telling hw.outside (he.cons trivial)
  · exact sync_telling hw he

/-! ## The other branches -/

theorem ensureCredentialPlaceholder_plain {ns : String} :
    Obeys (fun _ e => Plain e) (fun _ _ => True) h (ensureCredentialPlaceholder ns) := by
  refine ⟨trivial,?_⟩
  rintro (err | s)
  · change Obeys _ _ _ (if err.reason ≠ .notFound then _ else _)
    split
    · trivial
    · refine ⟨trivial,?_⟩
      rintro (err | ⟨⟩)
      · change Obeys _ _ _ (if err.reason ≠ .alreadyExists then _ else _)
        split
        · trivial
        · trivial
      · trivial
  · trivial

theorem firstReconcile_telling (hc : lastCopy h = some b) (he : Early h)
    (hunset : b.status.phase = .unset) : Telling lib h (firstReconcile b) := by
  refine ⟨trivial,fun t => ⟨⟨b,hc,.first rfl hunset (he.cons trivial)⟩,?_⟩⟩
  rintro (err | v)
  · trivial
  · exact (obeys_plain ensureCredentialPlaceholder_plain).bind (fun _ _ _ => trivial)

theorem suspended_telling (hc : lastCopy h = some b) (he : Early h) :
    Telling lib h (suspended b) := by
  unfold suspended
  split
  · rename_i hphase
    refine ⟨⟨b,hc,.suspended rfl hphase he⟩,?_⟩
    rintro (err | v)
    · trivial
    · trivial
  · trivial

theorem deleteDevices_plain (app : String) (l : List (Sigma fun _ : String => String)) :
    Obeys (fun _ e => Plain e) (fun _ _ => True) h (deleteDevices lc app l) := by
  induction l generalizing h with
  | nil => trivial
  | cons p rest ih =>
    refine ⟨trivial,?_⟩
    rintro (err | ⟨⟩)
    · trivial
    · exact ih

section deletion
variable {Φ : Past → interface.Call → Prop}

theorem obeys_removeFinalizer (hupdate : ∀ h o, Φ h (.inl (.update o))) :
    Obeys Φ (fun _ _ => True) h (removeFinalizer ls) := by
  refine ⟨hupdate _ _,?_⟩
  rintro (err | v)
  · trivial
  · trivial

/-- A deletion makes plain calls, and at its end it updates the object. -/
theorem obeys_handleDeletion (hplain : ∀ h e, Plain e → Φ h e)
    (hupdate : ∀ h o, Φ h (.inl (.update o))) :
    Obeys Φ (fun _ _ => True) h (handleDeletion ls) := by
  unfold handleDeletion
  split
  · trivial
  · refine obeys_client (hplain _ _ trivial) (fun _ => trivial) (fun _ _ _ => trivial) ?_
    intro s lc _
    refine ⟨hplain _ _ trivial,fun order => ?_⟩
    refine ((deleteDevices_plain _ _).mono hplain (fun _ _ hq => hq)).bind ?_
    rintro h' (err | ⟨⟩) -
    · trivial
    · refine .ite ⟨hplain _ _ trivial,?_⟩ (obeys_removeFinalizer hupdate)
      rintro (err | ⟨⟩)
      · trivial
      · exact obeys_removeFinalizer hupdate

end deletion

theorem reconcile_telling (lib : Externals) : Telling lib [] (reconcile lib) := by
  refine ⟨trivial,?_⟩
  rintro (err | (b : LosantSync))
  · change Obeys _ _ _ (if err.reason = .notFound then _ else _)
    split
    · trivial
    · trivial
  · have he : Early [⟨.inl .get,.ok b⟩] := fun ev hev => .inl (by rw [List.mem_singleton.mp hev])
    change Telling lib _ (reconcileObject lib b)
    unfold reconcileObject
    split
    · exact obeys_handleDeletion (fun _ _ he => he.tells) (fun _ _ => trivial)
    · split
      · refine ⟨trivial,?_⟩
        rintro (err | v)
        · trivial
        · trivial
      · split
        · exact suspended_telling rfl he
        · split
          · rename_i hunset
            exact firstReconcile_telling rfl he hunset
          · rename_i hunset
            exact syncWhenDue_telling ⟨rfl,hunset⟩ he

theorem sound_telling {σ : System losantSync calls (Except String Result)} {c : Config σ}
    (hmain : σ.main = reconcile lib) (hc : σ.Reachable c) :
    c.Sound (fun h e => Permits h e ∧ Tells lib h e) (fun _ _ => True ∧ True) :=
  System.Reachable.sound (fun h e hp => hp.1.disciplined h e)
    (hmain ▸ (reconcile_obeys lib).and (reconcile_telling lib)) hc

/-- Every call ever made is permitted and as `Tells` says. -/
theorem traced_telling {σ : System losantSync calls (Except String Result)} {c : Config σ}
    (hmain : σ.main = reconcile lib) (hc : σ.Reachable c) :
    c.Traced (fun h e => Permits h e ∧ Tells lib h e) :=
  System.Reachable.traced (fun h e hp => hp.1.disciplined h e)
    (hmain ▸ (reconcile_obeys lib).and (reconcile_telling lib)) hc

end LosantDevice.Sync

import LosantDevice.Kube.Unhindered
import LosantDevice.Sync.Finalizer
import LosantDevice.Sync.Routing

/-!
# A sync recovers by itself

From every state that a live object can get into, three jobs that nothing hinders make it active.
-/
namespace LosantDevice.Sync
open Effect Kube Go Monitor Program

/-- A method of the client succeeds. -/
def Granted : (m : Losant.Method) → m.Answer → Prop
  | .ping,r | .deleteDevice _ _,r | .releaseWorkflow _ _ _ _,r => r = .ok ()
  | .ensureClusterDevice _,r | .ensureNodeDevice _ _ _,r => ∃ id, r = .ok id
  | .createDeviceAccessKey _ _ _,r => ∃ k, r = .ok k
  | .getEdgeDeployments _ _,r => ∃ l, r = .ok l

/-- Every call succeeds. The provisioning Secret holds a token; another Secret may be missing. -/
def Smooth (spec : LosantSyncSpec) : (e : Call) → calls.Answer e → Prop
  | .getSecret ref,r =>
    (∃ s : StoredSecret, r = .ok s ∧
      (ref = spec.provisioningSecretRef.namespacedName → "api-token" ∈ s.data)) ∨
    ref ≠ spec.provisioningSecretRef.namespacedName ∧
      ∃ err : ApiError, r = .error err ∧ err.reason = .notFound
  | .createSecret _,r | .updateSecret _,r | .patchDeployment _ _,r => r = .ok ()
  | .getDeployment _,r => ∃ annotations, r = .ok annotations
  | .losant _ m,r => Granted m r
  | .reportState _ _,r => r = .ok ()
  | .now _,_ | .rangeNodes _,_ | .rangeDevices _,_ | .healthSnapshot,_ => True

/-- All answers were favourable. -/
abbrev Lucky (spec : LosantSyncSpec) (h : Past) : Prop :=
  ∀ ev ∈ h, Favoured (K := losantSync) (Smooth spec) ev

variable {lib : Externals} {h : Past} {b ls : LosantSync} {spec : LosantSyncSpec} {α : Type}
  {lc : Losant.HTTPClient} {gc : Gea.HTTPClient} {cluster : ClusterHealth}
  {nodes : GoMap NodeHealth}

/-- The job works on `b`; it has changed only the status of the copy in memory. -/
structure On (h : Past) (b ls : LosantSync) : Prop where
  copy : lastCopy h = some b
  same : b.Same ls

theorem On.later {h' : Past} (ho : On h b ls) (hc : lastCopy h' = lastCopy h) : On h' b ls :=
  ⟨hc.trans ho.copy,ho.same⟩

theorem Aside.outer {e : interface.Call} (he : Aside e) : Outer e := by
  match e with
  | .inl _ => exact he.elim
  | .inr _ => trivial

/-- A part of the job that makes no call on the object. -/
abbrev Delivers (spec : LosantSyncSpec) (Q : α → Prop) (h : Past) (p : M α) : Prop :=
  Obeys (fun _ e => Outer e) (fun h' a => Lucky spec h' → Q a) h p

/-! ## Parts of a sync -/

theorem restartGEA_delivers : Delivers spec (· = .ok ()) h (restartGEA lib ls) := by
  unfold restartGEA restartDeployment
  split
  · refine ⟨trivial,?_⟩
    rintro (err | annotations)
    · intro hall
      obtain ⟨_,⟨⟩⟩ := hall _ List.mem_cons_self
    · refine ⟨trivial,fun t => ⟨trivial,?_⟩⟩
      rintro (err | ⟨⟩)
      · intro hall
        cases hall _ List.mem_cons_self
      · exact fun _ => rfl
  · exact fun _ => rfl

theorem storeCredentials_delivers {data : GoMap String} {existing : Option Secret} :
    Delivers spec (· = .ok ()) h (storeCredentials lib ls data existing) := by
  cases existing with
  | none =>
    refine ⟨trivial,?_⟩
    rintro (err | ⟨⟩)
    · intro hall
      cases hall _ List.mem_cons_self
    · exact restartGEA_delivers
  | some s =>
    refine ⟨trivial,?_⟩
    rintro (err | ⟨⟩)
    · intro hall
      cases hall _ List.mem_cons_self
    · exact restartGEA_delivers

theorem writeCredentials_delivers {id : String} {existing : Option Secret} :
    Delivers spec (· = .ok ()) h (writeCredentials lib lc ls id existing) := by
  refine ⟨trivial,fun t => ⟨trivial,?_⟩⟩
  rintro (err | (key : Losant.AccessKey))
  · intro hall
    obtain ⟨_,⟨⟩⟩ := hall _ List.mem_cons_self
  · exact storeCredentials_delivers

variable (spec) in
theorem bootstrap_delivers {id : String} :
    Delivers spec (· = .ok ()) h (bootstrap lib lc ls id) := by
  refine ⟨trivial,?_⟩
  rintro (err | (s : StoredSecret))
  · change Delivers spec _ _ (if err.reason = .notFound then _ else _)
    split
    · exact writeCredentials_delivers
    · rename_i hreason
      intro hall
      rcases hall _ List.mem_cons_self with ⟨_,⟨⟩,-⟩ | ⟨-,_,⟨⟩,hr⟩
      exact absurd hr hreason
  · change Delivers spec _ _ (if Complete s.data _ then _ else _)
    exact restartGEA_delivers.ite writeCredentials_delivers

variable (spec) in
theorem releaseWorkflows_delivers {current : GoMap Losant.EdgeDeploymentStatus}
    (l : List WorkflowDeployment) (allConfirmed : Bool) :
    Delivers spec (fun r => ∃ confirmed, r = .ok confirmed) h
      (releaseWorkflows lc ls current l allConfirmed) := by
  induction l generalizing h allConfirmed with
  | nil => exact fun _ => ⟨allConfirmed,rfl⟩
  | cons wd rest ih =>
    unfold releaseWorkflows
    dsimp only
    split
    · refine ⟨trivial,?_⟩
      rintro (err | ⟨⟩)
      · have hbad : ∀ r : Except (String × String) Bool, Lucky spec (⟨.inr (.losant lc
            (.releaseWorkflow ls.spec.applicationID ls.status.clusterDeviceID wd.flowID
              wd.version)),.error err⟩::h) → ∃ confirmed, r = .ok confirmed := by
          intro r hall
          cases hall _ List.mem_cons_self
        exact .ite (hbad _) (hbad _)
      · exact ih _
    · exact .ite (ih _) (ih _)

variable (spec) in
theorem ensureWorkflowDeployments_delivers :
    Delivers spec (fun r => ∃ x, r = .ok x) h (ensureWorkflowDeployments lc ls) := by
  unfold ensureWorkflowDeployments
  split
  · exact fun _ => ⟨_,rfl⟩
  · refine ⟨trivial,?_⟩
    rintro (err | deployments)
    · intro hall
      obtain ⟨_,⟨⟩⟩ := hall _ List.mem_cons_self
    · refine (releaseWorkflows_delivers spec _ _).bind ?_
      rintro h' (err | _ | _) hr
      · intro hall
        obtain ⟨_,⟨⟩⟩ := hr hall
      · exact fun _ => ⟨_,rfl⟩
      · exact fun _ => ⟨_,rfl⟩

variable (spec) in
/-- Every node gets its device; only the recorded devices change. -/
theorem ensureNodes_delivers (hs : b.Same ls) (l : List (Sigma fun _ : String => NodeHealth)) :
    Obeys (fun _ e => Outer e) (fun h' r => b.Same r.1 ∧ (Lucky spec h' → r.2 = none)) h
      (ensureNodes lc ls l) := by
  induction l generalizing h ls with
  | nil => exact ⟨hs,fun _ => rfl⟩
  | cons p rest ih =>
    obtain ⟨n,nh⟩ := p
    refine ⟨trivial,?_⟩
    rintro (err | id)
    · refine ⟨hs,fun hall => ?_⟩
      obtain ⟨_,⟨⟩⟩ := hall _ List.mem_cons_self
    · exact ih ⟨hs.metadata,hs.spec⟩

theorem reportNodes_outer (l : List (Sigma fun _ : String => NodeHealth)) :
    Obeys (fun _ e => Outer e) (fun _ _ => True) h (reportNodes gc ls l) := by
  induction l generalizing h with
  | nil => trivial
  | cons p rest ih =>
    obtain ⟨n,nh⟩ := p
    unfold reportNodes
    exact .ite ih ⟨trivial,fun _ => ih⟩

/-! ## A whole sync -/

/-- Every answer favourable, the job leaves `b` with this phase. -/
abbrev Attains (b : LosantSync) (phase : LosantSyncPhase) (h : Past)
    (p : M (Except String Result)) : Prop :=
  Leads (Smooth b.spec) (Leaves b fun _ (t : LosantSyncStatus) => t.phase = phase) h p

/-- The schedule of the object can be read. -/
def Schedulable (lib : Externals) (spec : LosantSyncSpec) : Prop :=
  ∃ t next, nextAfter lib spec t = some next

theorem finishSync_attains (ho : On h b ls) (hs : Schedulable lib b.spec) :
    Attains b .active h (finishSync lib ls) := by
  refine obeys_nextSchedule (fun _ _ => trivial) (fun hnone err => ?_) ?_
  · obtain ⟨t,next,ht⟩ := hs
    rw [← ho.same.spec,hnone t] at ht
    cases ht
  · intro h' t u next d _ hsched _ _
    refine ⟨trivial,fun t₁ => ⟨trivial,fun t₂ => ?_⟩⟩
    exact leads_leave ⟨ho.same.metadata,ho.same.spec⟩ (fun _ _ => rfl)
      fun v => ⟨trivial,fun _ => trivial⟩

theorem reportCluster_attains (ho : On h b ls) (hs : Schedulable lib b.spec) :
    Attains b .active h (reportCluster lib gc cluster nodes ls) := by
  refine ⟨trivial,?_⟩
  rintro (err | ⟨⟩)
  · refine Leads.spoiled fun hall => ?_
    cases hall _ List.mem_cons_self
  · refine ⟨trivial,fun t => ⟨trivial,fun (order : nodes.Order) => ?_⟩⟩
    change Attains b .active _ (reportNodes _ _ order.val >>= _)
    refine leads_bind (reportNodes_outer order.val) fun h' _ _ hc => finishSync_attains ?_ hs
    exact ⟨hc.trans ho.copy,ho.same.metadata,ho.same.spec⟩

theorem deployWorkflows_attains (ho : On h b ls) (hs : Schedulable lib b.spec) :
    Attains b .active h (deployWorkflows lib lc gc cluster nodes ls) := by
  refine leads_bind (ensureWorkflowDeployments_delivers b.spec) ?_
  rintro h' (⟨reason,message⟩ | ⟨reason,message⟩) hr hc
  · refine Leads.spoiled fun hall => ?_
    obtain ⟨_,⟨⟩⟩ := hr hall
  · refine .ite ⟨trivial,fun t => ?_⟩ (reportCluster_attains (ho.later hc) hs)
    exact reportCluster_attains ⟨hc.trans ho.copy,ho.same.metadata,ho.same.spec⟩ hs

theorem provisionNodes_attains (ho : On h b ls) (hs : Schedulable lib b.spec) :
    Attains b .active h (provisionNodes lib lc gc ls) := by
  refine ⟨trivial,?_⟩
  rintro ⟨cluster,nodes⟩
  refine ⟨trivial,fun (order : nodes.Order) => ?_⟩
  change Attains b .active _ (ensureNodes _ _ order.val >>= _)
  refine leads_bind (ensureNodes_delivers b.spec ho.same order.val) ?_
  rintro h' ⟨ls',_ | ⟨n,err⟩⟩ ⟨hs',hr⟩ hc
  · refine ⟨trivial,fun t => deployWorkflows_attains ?_ hs⟩
    exact ⟨hc.trans ho.copy,hs'.metadata,hs'.spec⟩
  · refine Leads.spoiled fun hall => ?_
    cases hr hall

theorem bootstrapGEA_attains (ho : On h b ls) (hs : Schedulable lib b.spec) :
    Attains b .active h (bootstrapGEA lib lc gc ls) := by
  unfold bootstrapGEA
  split
  · exact provisionNodes_attains ho hs
  · refine leads_bind (bootstrap_delivers b.spec) ?_
    rintro h' (err | ⟨⟩) hr hc
    · refine Leads.spoiled fun hall => ?_
      cases hr hall
    · refine ⟨trivial,fun t => provisionNodes_attains ?_ hs⟩
      exact ⟨hc.trans ho.copy,ho.same.metadata,ho.same.spec⟩

theorem provisionCluster_attains (hb : lastCopy h = some b) (hs : Schedulable lib b.spec) :
    Attains b .active h (provisionCluster lib lc gc b) := by
  refine ⟨trivial,?_⟩
  rintro (err | ⟨⟩)
  · refine Leads.spoiled fun hall => ?_
    cases hall _ List.mem_cons_self
  · refine ⟨trivial,?_⟩
    rintro (err | id)
    · refine Leads.spoiled fun hall => ?_
      obtain ⟨_,⟨⟩⟩ := hall _ List.mem_cons_self
    · exact bootstrapGEA_attains ⟨hb,⟨_,rfl⟩,rfl⟩ hs

section client
variable {Q : Past → Except String Result → Prop} {p : M (Except String Result)}

/-- The provisioning Secret is there. -/
theorem spoiled_unread {err : ApiError} : Leads (Smooth spec) Q
    (⟨.inr (.getSecret spec.provisioningSecretRef.namespacedName),.error err⟩::h) p := by
  refine Leads.spoiled fun hall => ?_
  rcases hall _ List.mem_cons_self with ⟨_,⟨⟩,-⟩ | ⟨hne,-⟩
  exact hne rfl

/-- It holds the token of the client. -/
theorem spoiled_unmade {s : StoredSecret} {ns name app err : String}
    (hc : Losant.newHTTPClient ⟨s,ns,name⟩ app = .error err) : Leads (Smooth spec) Q
    (⟨.inr (.getSecret spec.provisioningSecretRef.namespacedName),.ok s⟩::h) p := by
  refine Leads.spoiled fun hall => ?_
  rcases hall _ List.mem_cons_self with ⟨_,⟨⟩,htoken⟩ | ⟨hne,-⟩
  · obtain ⟨token,ht⟩ := Finmap.mem_iff.mp (htoken rfl)
    simp [Losant.newHTTPClient,ht] at hc
  · exact hne rfl

end client

theorem sync_attains (hb : lastCopy h = some b) (hs : Schedulable lib b.spec) :
    Attains b .active h (sync lib b) :=
  obeys_client trivial (fun _ => spoiled_unread) (fun _ _ hc => spoiled_unmade hc)
    fun _ _ _ => provisionCluster_attains hb hs

theorem syncWhenDue_attains (hb : lastCopy h = some b) (hs : Schedulable lib b.spec) :
    Attains b .active h (syncWhenDue lib b) := by
  unfold syncWhenDue
  split
  · rename_i next hphase hnext
    refine ⟨trivial,fun (t : Time) => ?_⟩
    change Attains b .active _ (if (t : ℤ) < next then _ else _)
    refine .ite ⟨trivial,fun u _ => ?_⟩ (sync_attains hb hs)
    exact ⟨b,hb,b.same_refl,hphase⟩
  · exact sync_attains hb hs

theorem firstReconcile_attains : Attains b .provisioning h (firstReconcile b) := by
  refine ⟨trivial,fun t => leads_leave ⟨⟨_,rfl⟩,rfl⟩ (fun _ _ => rfl) fun v => ?_⟩
  refine (ensureCredentialPlaceholder_plain.mono (fun _ _ he => he.aside.outer)
    (fun _ _ hq => hq)).bind fun _ _ _ => trivial

/-! ## Stages -/

/-- How far a live object has come. -/
def stage (o : LosantSync) : ℕ :=
  if finalizer ∉ o.metadata.finalizers then 0
  else if o.status.phase = .unset then 1
  else if o.status.phase = .active then 3 else 2

/-- The same object, wanted as before, and a stage further if there is one. -/
structure Onward (o o' : LosantSync) : Prop where
  uid : o'.metadata.uid = o.metadata.uid
  live : o'.metadata.deletionTimestamp = none
  spec : o'.spec = o.spec
  further : min 3 (stage o+1) ≤ stage o'

/-- The phase that a job gives a live object which has the finalizer. -/
def nextPhase (o : LosantSync) : LosantSyncPhase :=
  if o.status.phase = .unset then .provisioning else .active

theorem onward_of_same {o o' : LosantSync} (hlive : o.metadata.deletionTimestamp = none)
    (hf : finalizer ∈ o.metadata.finalizers) (hs : o.Same o') (hp : o'.status.phase = nextPhase o) :
    Onward o o' := by
  obtain ⟨⟨n,hm⟩,hspec⟩ := hs
  refine ⟨by rw [hm],by rw [hm]; exact hlive,hspec,?_⟩
  have hf' : finalizer ∈ o'.metadata.finalizers := by rw [hm]; exact hf
  simp only [stage,if_neg (not_not.mpr hf),if_neg (not_not.mpr hf'),hp,nextPhase]
  split
  · simp
  · simp

/-- The finalizer is added; the status may be any. -/
theorem onward_of_added {o b o' : LosantSync} {n : ℕ} (hlive : o.metadata.deletionTimestamp = none)
    (hf : finalizer ∉ o.metadata.finalizers) (hs : o.Same b)
    (ho' : o' = { b with metadata := { b.metadata with
      finalizers := o.metadata.finalizers ++ [finalizer], resourceVersion := n } }) :
    Onward o o' := by
  subst ho'
  obtain ⟨⟨m,hm⟩,hspec⟩ := hs
  refine ⟨by simp [hm],by simp [hm,hlive],hspec,?_⟩
  simp only [stage,if_pos hf]
  split
  · rename_i hnot
    simp at hnot
  · split
    · decide
    · split <;> decide

variable {o : LosantSync}

theorem reconcileObject_attains (hlive : o.metadata.deletionTimestamp = none)
    (hf : finalizer ∈ o.metadata.finalizers) (hwanted : o.spec.suspend = false)
    (hs : Schedulable lib o.spec) :
    Attains o (nextPhase o) [⟨.inl .get,.ok o⟩] (reconcileObject lib o) := by
  have hkept : ¬o.metadata.deletionTimestamp.isSome := by simp [hlive]
  have hruns : ¬o.spec.suspend := by simp [hwanted]
  unfold reconcileObject nextPhase
  rw [if_neg hkept,if_neg (not_not.mpr hf),if_neg hruns]
  split
  · exact firstReconcile_attains
  · exact syncWhenDue_attains rfl hs

theorem reconcileObject_refinalizes (hlive : o.metadata.deletionTimestamp = none)
    (hf : finalizer ∉ o.metadata.finalizers) :
    Leads (Smooth o.spec) (Refinalizes o (fun _ => True) (o.metadata.finalizers ++ [finalizer]))
      [⟨.inl .get,.ok o⟩] (reconcileObject lib o) := by
  have hkept : ¬o.metadata.deletionTimestamp.isSome := by simp [hlive]
  unfold reconcileObject
  rw [if_neg hkept,if_pos hf]
  exact leads_update ⟨o,rfl,o.same_refl,trivial⟩ fun _ => ⟨_,rfl⟩

variable {σ : System losantSync calls (Except String Result)} {c d : Config σ}

/-- One job that nothing hinders takes a live object on. -/
theorem onward_of_unhindered (hmain : σ.main = reconcile lib) (hc : σ.Reachable c)
    (ho : c.server.current = some o) (hlive : o.metadata.deletionTimestamp = none)
    (hwanted : o.spec.suspend = false) (hs : Schedulable lib o.spec)
    (hd : Unhindered (Smooth o.spec) c d) : ∃ o', d.server.current = some o' ∧ Onward o o' := by
  have hobeys : Obeys Permits (fun _ _ => True) [] σ.main := hmain ▸ reconcile_obeys lib
  by_cases hf : finalizer ∈ o.metadata.finalizers
  · obtain ⟨-,o',-,hcur,hsame,hphase⟩ := hd.leaves Permits.disciplined hobeys hmain
      (reconcileObject_attains hlive hf hwanted hs) hc ho
    exact ⟨o',hcur,onward_of_same hlive hf hsame hphase⟩
  · obtain ⟨b,hsame,-,⟨hdel,-⟩ | ⟨n,hcur⟩⟩ := hd.rewrites Permits.disciplined hobeys hmain
      (reconcileObject_refinalizes hlive hf) hc ho
    · obtain ⟨⟨m,hm⟩,-⟩ := hsame
      rw [hm,hlive] at hdel
      cases hdel
    · exact ⟨_,hcur,onward_of_added hlive hf hsame rfl⟩

/-- However an object came to where it is: as many jobs as it has stages to go, with nothing that
hinders them, make it active, and more of them leave it so. -/
theorem sync_converges (lib : Externals) (σ : System losantSync calls (Except String Result))
    (hmain : σ.main = reconcile lib) (c d : Config σ) (hc : σ.Reachable c) (o : LosantSync)
    (ho : c.server.current = some o) (hlive : o.metadata.deletionTimestamp = none)
    (hwanted : o.spec.suspend = false) (hs : Schedulable lib o.spec) (n : ℕ)
    (hn : 3 ≤ stage o+n) (hd : Rounds (Smooth o.spec) n c d) :
    ∃ o', d.server.current = some o' ∧ o'.metadata.uid = o.metadata.uid ∧ o'.spec = o.spec ∧
      finalizer ∈ o'.metadata.finalizers ∧ o'.status.phase = .active := by
  induction n generalizing c o with
  | zero =>
    obtain rfl := hd
    have hstage : 3 ≤ stage o := hn
    unfold stage at hstage
    split at hstage
    · omega
    · split at hstage
      · omega
      · split at hstage
        · exact ⟨o,ho,rfl,rfl,not_not.mp ‹_›,‹_›⟩
        · omega
  | succ n ih =>
    obtain ⟨e,he,hd⟩ := hd
    obtain ⟨o₁,ho₁,hon⟩ := onward_of_unhindered hmain hc ho hlive hwanted hs he
    have hfurther := hon.further
    rw [← hon.spec] at hwanted hs hd
    obtain ⟨o',ho',huid,hspec,hactive⟩ :=
      ih e (he.reachable hc) o₁ ho₁ hon.live hwanted hs (by omega) hd
    exact ⟨o',ho',huid.trans hon.uid,hspec.trans hon.spec,hactive⟩

theorem smooth_answers {h : Past} {e : Call} {r : calls.Answer e}
    (hspec : spec.provisioningSecretRef.name ≠ geaCredentialsSecretName)
    (hr : smooth h e = some r) : Smooth spec e r := by
  match e with
  | .now _ | .rangeNodes _ | .rangeDevices _ | .healthSnapshot => trivial
  | .getSecret ref =>
    obtain ⟨hname,hr⟩ | ⟨-,hr⟩ := ite_eq_iff.mp hr
    · cases hr
      refine .inr ⟨fun href => hspec ?_,_,rfl,rfl⟩
      rw [← hname,href]
      rfl
    · cases hr
      exact .inl ⟨_,rfl,fun _ => by decide⟩
  | .createSecret _ | .losant _ .ping | .losant _ (.deleteDevice _ _) | .reportState _ _ =>
    cases hr
    rfl
  | .losant _ (.ensureClusterDevice _) | .losant _ (.createDeviceAccessKey _ _ _) =>
    cases hr
    exact ⟨_,rfl⟩

def smoothly : (anyAnswers .plain).Script where
  refuse _ := none
  serve h _ e := (smooth h e).map (·,())
  sound _ := trivial

theorem smoothly_smooth {h : Past} {w w' : Unit} {e : Call} {r : calls.Answer e}
    (hs : smoothly.serve h w e = some (r,w')) : Smooth newSync.spec e r := by
  obtain ⟨r,hr,⟨⟩⟩ := Option.map_eq_some_iff.mp hs
  exact smooth_answers (by decide) hr

/-- A new object is active after three jobs. -/
theorem sync_converges_new : ∃ c d o, (anyAnswers .plain).Reachable c ∧
    c.server.current = some o ∧ stage o = 0 ∧ Rounds (Smooth o.spec) 3 c d ∧
    ∃ o', d.server.current = some o' ∧ o'.metadata.uid = o.metadata.uid ∧ o'.spec = o.spec ∧
      finalizer ∈ o'.metadata.finalizers ∧ o'.status.phase = .active := by
  obtain ⟨c,d,hc,hp,hd⟩ := System.exists_rounds (w := ()) trivial [.create newSync]
    smoothly_smooth 3 (fun c => c.server.current.any fun o =>
      o.spec = newSync.spec ∧ stage o = 0 ∧ o.metadata.deletionTimestamp = none) (by decide +kernel)
  obtain ⟨o,ho,hp⟩ := (Option.any_eq_true _ _).mp hp
  obtain ⟨hspec,hstage,hlive⟩ := of_decide_eq_true hp
  rw [← hspec] at hd
  refine ⟨c,d,o,hc,ho,hstage,hd,?_⟩
  exact sync_converges .plain _ rfl c d hc o ho hlive (by rw [hspec]; rfl)
    (by rw [hspec]; exact ⟨(0 : ℤ),_,rfl⟩) 3 (by omega) hd

end LosantDevice.Sync

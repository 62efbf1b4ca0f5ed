import LosantDevice.Kube.Wording
import LosantDevice.Sync.Outcome

/-!
# What a sync records of a failure

Every place where `Reconcile` gives up, with the reason it records, the words it writes itself and
the text it was told. A status that records a failure keeps to the schema exactly if these texts
are short enough, and every other status does anyway.
-/
namespace LosantDevice.Sync
open Effect Kube Go Monitor Program

/-- The failures of `Bootstrap`. -/
inductive BootstrapFails (spec : LosantSyncSpec) (h : Past) : String → String → Prop
  | read {err : ApiError} (told : (⟨.inr (.getSecret ⟨spec.provisioningSecretRef.namespace_,
        geaCredentialsSecretName⟩),.error err⟩ : Event interface) ∈ h) :
      BootstrapFails spec h ("read " ++ spec.provisioningSecretRef.namespace_ ++ "/" ++
        geaCredentialsSecretName ++ ": ") err.text
  | key {lc app id name} {err : Losant.Error}
      (told : (⟨.inr (.losant lc (.createDeviceAccessKey app id name)),.error err⟩ :
        Event interface) ∈ h) :
      BootstrapFails spec h "create device access key: " err.text
  | create {s : Secret} {err : ApiError}
      (told : (⟨.inr (.createSecret s),.error err⟩ : Event interface) ∈ h) :
      BootstrapFails spec h ("create " ++ spec.provisioningSecretRef.namespace_ ++ "/" ++
        geaCredentialsSecretName ++ ": ") err.text
  | update {s : Secret} {err : ApiError}
      (told : (⟨.inr (.updateSecret s),.error err⟩ : Event interface) ∈ h) :
      BootstrapFails spec h ("update " ++ spec.provisioningSecretRef.namespace_ ++ "/" ++
        geaCredentialsSecretName ++ ": ") err.text
  | getDeployment {ref : NamespacedName} {err : ApiError}
      (told : (⟨.inr (.getDeployment ref),.error err⟩ : Event interface) ∈ h) :
      BootstrapFails spec h
        ("get GEA Deployment " ++ spec.provisioningSecretRef.namespace_ ++ "/" ++
        spec.gea.deploymentRef ++ ": ") err.text
  | patchDeployment {ref : NamespacedName} {annotations : GoMap String} {err : ApiError}
      (told : (⟨.inr (.patchDeployment ref annotations),.error err⟩ : Event interface) ∈ h) :
      BootstrapFails spec h ("patch GEA Deployment " ++ spec.provisioningSecretRef.namespace_ ++
        "/" ++ spec.gea.deploymentRef ++ ": ") err.text

/-- The failures of a sync after the calls `h`, each with the condition it is recorded in. -/
inductive Complains (lib : Externals) (spec : LosantSyncSpec) (h : Past) :
    SyncCondition → Complaint → Prop
  | secretNotFound {err : ApiError} (told : (⟨.inr (.getSecret
        spec.provisioningSecretRef.namespacedName),.error err⟩ : Event interface) ∈ h) :
      Complains lib spec h .lastSyncSucceeded ⟨"SecretNotFound","",err.text⟩
  | invalidSecret : Complains lib spec h .lastSyncSucceeded ⟨"InvalidSecret",
      "provisioning secret " ++ spec.provisioningSecretRef.namespace_ ++ "/" ++
        spec.provisioningSecretRef.name ++ " missing key \"api-token\"",""⟩
  | losantUnreachable {lc} {err : Losant.Error}
      (told : (⟨.inr (.losant lc .ping),.error err⟩ : Event interface) ∈ h) :
      Complains lib spec h .lastSyncSucceeded ⟨"LosantUnreachable","",err.text⟩
  | clusterDevice {lc spec'} {err : Losant.Error}
      (told : (⟨.inr (.losant lc (.ensureClusterDevice spec')),.error err⟩ : Event interface) ∈ h) :
      Complains lib spec h .devicesProvisioned ⟨"ClusterDeviceError","",err.text⟩
  | bootstrap {label text} (failed : BootstrapFails spec h label text) :
      Complains lib spec h .geaBootstrapped ⟨"BootstrapFailed",label,text⟩
  | nodeDevice {lc spec' n g} {err : Losant.Error}
      (told : (⟨.inr (.losant lc (.ensureNodeDevice spec' n g)),.error err⟩ :
        Event interface) ∈ h) :
      Complains lib spec h .devicesProvisioned ⟨"NodeDeviceError","node " ++ n ++ ": ",err.text⟩
  | workflowNotFound {lc app id flowID version} {err : Losant.Error}
      (told : (⟨.inr (.losant lc (.releaseWorkflow app id flowID version)),.error err⟩ :
        Event interface) ∈ h) :
      Complains lib spec h .workflowDeployed ⟨"WorkflowNotFound",
        "flowId " ++ flowID ++ " version " ++ version ++ " not found in Losant",""⟩
  | releaseFailed {lc app id flowID version} {err : Losant.Error}
      (told : (⟨.inr (.losant lc (.releaseWorkflow app id flowID version)),.error err⟩ :
        Event interface) ∈ h) :
      Complains lib spec h .workflowDeployed ⟨"ReleaseFailed","",err.text⟩
  | deploymentsUnknown {lc app id} {err : Losant.Error}
      (told : (⟨.inr (.losant lc (.getEdgeDeployments app id)),.error err⟩ :
        Event interface) ∈ h) :
      Complains lib spec h .workflowDeployed ⟨"ReleaseFailed","",err.text⟩
  | geaUnreachable {gc payload} {err : String}
      (told : (⟨.inr (.reportState gc payload),.error err⟩ : Event interface) ∈ h) :
      Complains lib spec h .geaReachable ⟨"GEAUnreachable","",err⟩
  | cronSchedule {err : String} (bad : lib.parseCron spec.cronSchedule = .error err) :
      Complains lib spec h .lastSyncSucceeded ⟨"ScheduleError",
        "invalid cron expression " ++ lib.quote spec.cronSchedule ++ ": ",err⟩
  | interval (bad : parseDuration spec.interval = none) :
      Complains lib spec h .lastSyncSucceeded ⟨"ScheduleError",
        "invalid interval " ++ lib.quote spec.interval ++ ": ",lib.durationError spec.interval⟩

/-- A failure is recorded with the phase `Degraded`, and with no other. -/
def recorder (lib : Externals) : Recorder losantSync calls SyncCondition where
  conditions t := t.conditions
  Complains := Complains lib
  summary := .lastSyncSucceeded
  Records _ ls := ls.status.phase = .degraded

abbrev Words (lib : Externals) : Past → interface.Call → Prop := (recorder lib).Words

abbrev Wording (lib : Externals) (h : Past) (p : M (Except String Result)) : Prop :=
  Obeys (Words lib) (fun _ _ => True) h p

abbrev Tidy (lib : Externals) (h : Past) (ls : LosantSync) : Prop := (recorder lib).Tidy h ls

variable {lib : Externals} {h h' : Past} {ls : LosantSync} {spec : LosantSyncSpec} {α : Type}
  {Ψ : Past → α → Prop} {lc : Losant.HTTPClient} {gc : Gea.HTTPClient} {ty : SyncCondition}
  {f : Complaint}

theorem BootstrapFails.later {label text : String} (hf : BootstrapFails spec h label text)
    (hs : h <:+ h') : BootstrapFails spec h' label text := by
  cases hf with
  | read ht => exact .read (hs.subset ht)
  | key ht => exact .key (hs.subset ht)
  | create ht => exact .create (hs.subset ht)
  | update ht => exact .update (hs.subset ht)
  | getDeployment ht => exact .getDeployment (hs.subset ht)
  | patchDeployment ht => exact .patchDeployment (hs.subset ht)

theorem Complains.later (hf : Complains lib spec h ty f) (hs : h <:+ h') :
    Complains lib spec h' ty f := by
  cases hf with
  | secretNotFound ht => exact .secretNotFound (hs.subset ht)
  | invalidSecret => exact .invalidSecret
  | losantUnreachable ht => exact .losantUnreachable (hs.subset ht)
  | clusterDevice ht => exact .clusterDevice (hs.subset ht)
  | bootstrap hb => exact .bootstrap (hb.later hs)
  | nodeDevice ht => exact .nodeDevice (hs.subset ht)
  | workflowNotFound ht => exact .workflowNotFound (hs.subset ht)
  | releaseFailed ht => exact .releaseFailed (hs.subset ht)
  | deploymentsUnknown ht => exact .deploymentsUnknown (hs.subset ht)
  | geaUnreachable ht => exact .geaUnreachable (hs.subset ht)
  | cronSchedule hb => exact .cronSchedule hb
  | interval hb => exact .interval hb

/-- The reasons are literals that the schema admits. -/
theorem Complains.reasoned (hf : Complains lib spec h ty f) : f.Reasoned := by
  unfold Complaint.Reasoned
  cases hf <;> dsimp only <;> decide

/-- A condition with short literal texts. -/
theorem Tidy.condition (ht : Tidy lib h ls) {t : Time} {v : ConditionStatus}
    {reason message : String}
    (hr : reasonMatches reason.toList = true) (hlen : reason.length ≤ 1024)
    (hm : message.length ≤ 32768) : Tidy lib h (withCondition lib t ls ty v reason message) :=
  fun hread => (ht hread).set lib.conditions t ⟨hr,hlen,hm⟩

theorem Plain.words {e : interface.Call} (he : Plain e) : Words lib h e := by
  match e with
  | .inl _ => exact he.elim
  | .inr _ => trivial

/-! ## Recording a failure -/

theorem complained (hf : f.Reasoned) {t₁ t₂ : Time} (hls : Fits ls.status.conditions) :
    (recorder lib).Complained ty f (withCondition lib t₂ (withCondition lib t₁ ls ty .false
      f.reason f.message) .lastSyncSucceeded .false f.reason f.message).status.conditions := by
  change (recorder lib).Complained ty f (lib.conditions.set t₂ (lib.conditions.set t₁
    ls.status.conditions (f.condition ty ls.metadata.generation))
    (f.condition .lastSyncSucceeded ls.metadata.generation))
  refine Recorder.complained_set lib.conditions t₂ hf ?_ ?_
  · exact fun _ => Complaint.shownIn_set lib.conditions t₁
  · exact fun hsize => hls.set lib.conditions t₁ ((Complaint.worded_iff hf rfl rfl).mpr hsize)

theorem nextSchedule_words {g : Except String (Time × Duration) → M (Except String Result)}
    (hbad : ∀ c : Complaint, c.reason = "ScheduleError" →
      Complains lib spec h .lastSyncSucceeded c → Wording lib h (g (.error c.message)))
    (hok : ∀ h' x, h <:+ h' → Wording lib h' (g (.ok x))) :
    Wording lib h (nextScheduleAndDuration lib spec >>= g) := by
  unfold nextScheduleAndDuration
  split
  · split
    · rename_i err hp
      exact hbad ⟨"ScheduleError","invalid cron expression " ++ lib.quote spec.cronSchedule ++ ": ",
        err⟩ rfl (.cronSchedule hp)
    · exact ⟨trivial,fun t => ⟨trivial,fun u => hok _ _ ((List.suffix_cons _ _).trans
        (List.suffix_cons _ _))⟩⟩
  · split
    · rename_i hp
      exact hbad ⟨"ScheduleError","invalid interval " ++ lib.quote spec.interval ++ ": ",
        lib.durationError spec.interval⟩ rfl (.interval hp)
    · exact ⟨trivial,fun t => hok _ _ (List.suffix_cons _ _)⟩

theorem updateStatus_words {g : Except ApiError ℕ → M (Except String Result)}
    (hw : Words lib h (.inl (.updateStatus ls))) (hg : ∀ h r, Wording lib h (g r)) :
    Wording lib h (updateStatus ls >>= g) := ⟨hw,fun _ => hg _ _⟩

theorem writeDegraded_words (hphase : ls.status.phase = .degraded)
    (hw : (recorder lib).ReadFits h → (recorder lib).Recorded h ls) :
    Wording lib h (writeDegraded lib ls) := by
  refine obeys_writeDegraded (fun _ _ => trivial) ?_ (fun _ _ => trivial)
  intro h' next hs _ hread
  obtain ⟨ty,f,hf,hc⟩ := hw (hread.earlier hs)
  exact .inl ⟨hphase,ty,f,Complains.later hf hs,hc⟩

/-- `setDegraded` records the failure it is called for. -/
theorem setDegraded_words (ht : Tidy lib h ls) {reason label text message : String}
    (hf : Complains lib ls.spec h ty ⟨reason,label,text⟩) (hm : label ++ text = message) :
    Wording lib h (setDegraded lib ls ty reason message) := by
  subst hm
  refine ⟨trivial,fun t₁ => ⟨trivial,fun t₂ => writeDegraded_words rfl ?_⟩⟩
  intro hread
  have hs : h <:+ ⟨.inr (.now .transition),t₂⟩::⟨.inr (.now .transition),t₁⟩::h :=
    (List.suffix_cons _ _).trans (List.suffix_cons _ _)
  let ls' : LosantSync := { ls with status := { ls.status with phase := .degraded } }
  have hls : Fits ls'.status.conditions := ht (hread.earlier hs)
  have hshown : (recorder lib).Complained ty ⟨reason,label,text⟩ (withCondition lib t₂
      (withCondition lib t₁ ls' ty .false reason (label ++ text))
      .lastSyncSucceeded .false reason (label ++ text)).status.conditions :=
    complained hf.reasoned hls
  exact ⟨ty,⟨reason,label,text⟩,hf.later hs,hshown⟩

/-! ## Steps 9 to 5b -/

theorem finishSync_words (ht : Tidy lib h ls) : Wording lib h (finishSync lib ls) := by
  refine nextSchedule_words ?_ ?_
  · rintro ⟨reason,label,text⟩ rfl hf
    exact setDegraded_words ht hf rfl
  · rintro h' ⟨next,d⟩ hs
    refine ⟨trivial,fun t₁ => ⟨trivial,fun t₂ => updateStatus_words ?_ ?_⟩⟩
    · have htidy : Tidy lib h' (withCondition lib t₂ { ls with status := { ls.status with
          lastSyncTime := some t₁, nextScheduledTime := some next, phase := .active } }
          .lastSyncSucceeded .true "SyncComplete" "sync completed successfully") :=
        Tidy.condition (ht.later hs) (by decide) (by decide) (by decide)
      exact htidy.cons.cons.words nofun
    · rintro h'' (err | v)
      · trivial
      · exact ⟨trivial,fun _ => trivial⟩

theorem reportNodes_words (l : List (Sigma fun _ : String => NodeHealth)) :
    Obeys (Words lib) (fun h' _ => h <:+ h') h (reportNodes gc ls l) := by
  induction l generalizing h with
  | nil => exact List.suffix_refl h
  | cons p rest ih =>
    obtain ⟨nodeName,nh⟩ := p
    unfold reportNodes
    dsimp only
    split
    · exact ih
    · refine ⟨trivial,fun r => ih.mono (fun _ _ hq => hq) (fun h' _ hs => ?_)⟩
      exact (List.suffix_cons _ _).trans hs

theorem reportCluster_words {cluster : ClusterHealth} {nodes : GoMap NodeHealth}
    (ht : Tidy lib h ls) :
    Wording lib h (reportCluster lib gc cluster nodes ls) := by
  refine ⟨trivial,?_⟩
  rintro (err | ⟨⟩)
  · exact setDegraded_words ht.cons (.geaUnreachable List.mem_cons_self) String.empty_append
  · refine ⟨trivial,fun t => ⟨trivial,fun (order : nodes.Order) => ?_⟩⟩
    refine (reportNodes_words order.val).bind ?_
    intro h' _ hs
    refine finishSync_words (Recorder.Tidy.later ?_ hs)
    exact Tidy.condition ht.cons.cons.cons (by decide) (by decide) (by decide)

theorem releaseWorkflows_words {current : GoMap Losant.EdgeDeploymentStatus} (ls' : LosantSync)
    (l : List WorkflowDeployment) (allConfirmed : Bool) :
    Obeys (Words lib) (fun h' r => h <:+ h' ∧ ∀ reason message, r = .error (reason,message) →
      ∃ label text, Complains lib ls'.spec h' .workflowDeployed ⟨reason,label,text⟩ ∧
        label ++ text = message) h (releaseWorkflows lc ls current l allConfirmed) := by
  induction l generalizing h allConfirmed with
  | nil => exact ⟨List.suffix_refl h,nofun⟩
  | cons wd rest ih =>
    unfold releaseWorkflows
    dsimp only
    split
    · refine ⟨trivial,?_⟩
      rintro (err | ⟨⟩)
      · change Obeys _ _ _ (if _ then _ else _)
        split
        · refine ⟨List.suffix_cons _ _,?_⟩
          rintro reason message ⟨⟩
          exact ⟨_,_,.workflowNotFound List.mem_cons_self,String.append_empty⟩
        · refine ⟨List.suffix_cons _ _,?_⟩
          rintro reason message ⟨⟩
          exact ⟨_,_,.releaseFailed List.mem_cons_self,String.empty_append⟩
      · refine (ih _).mono (fun _ _ hq => hq) (fun h' r hr => ?_)
        exact ⟨(List.suffix_cons _ _).trans hr.1,hr.2⟩
    · split
      · exact ih _
      · exact ih _

/-- Workflows that are listed are reported with one of two reasons. -/
theorem ensureWorkflowDeployments_words :
    Obeys (Words lib) (fun h' r => h <:+ h' ∧ (∀ reason message, r = .error (reason,message) →
      ∃ label text, Complains lib ls.spec h' .workflowDeployed ⟨reason,label,text⟩ ∧
        label ++ text = message) ∧ ∀ x, r = .ok x → x ∈ [("",""),
          ("Deployed","all workflow versions confirmed deployed"),
          ("DeploymentPending","release queued, awaiting GEA confirmation")])
      h (ensureWorkflowDeployments lc ls) := by
  unfold ensureWorkflowDeployments
  split
  · refine ⟨List.suffix_refl h,nofun,?_⟩
    rintro x ⟨⟩
    simp
  · refine ⟨trivial,?_⟩
    rintro (err | deployments)
    · refine ⟨List.suffix_cons _ _,?_,nofun⟩
      rintro reason message ⟨⟩
      exact ⟨_,_,.deploymentsUnknown List.mem_cons_self,String.empty_append⟩
    · refine (releaseWorkflows_words ls _ _).bind ?_
      rintro h' (⟨reason,message⟩ | _ | _) ⟨hs,hbad⟩
      · refine ⟨(List.suffix_cons _ _).trans hs,?_,nofun⟩
        rintro reason message ⟨⟩
        exact hbad _ _ rfl
      · refine ⟨(List.suffix_cons _ _).trans hs,nofun,?_⟩
        rintro x ⟨⟩
        simp
      · refine ⟨(List.suffix_cons _ _).trans hs,nofun,?_⟩
        rintro x ⟨⟩
        simp

theorem deployWorkflows_words {cluster : ClusterHealth} {nodes : GoMap NodeHealth}
    (ht : Tidy lib h ls) : Wording lib h (deployWorkflows lib lc gc cluster nodes ls) := by
  refine ensureWorkflowDeployments_words.bind ?_
  rintro h' (⟨reason,message⟩ | ⟨reason,message⟩) ⟨hs,hbad,hok⟩
  · obtain ⟨label,text,hf,hm⟩ := hbad _ _ rfl
    exact setDegraded_words (ht.later hs) hf hm
  · have ht' := ht.later hs
    change Wording lib h' (if reason ≠ "" then _ else _)
    split
    · rename_i hne
      refine ⟨trivial,fun t => reportCluster_words ?_⟩
      have hx := hok _ rfl
      simp only [List.mem_cons,Prod.mk.injEq,List.not_mem_nil,or_false] at hx
      rcases hx with ⟨rfl,rfl⟩ | ⟨rfl,rfl⟩ | ⟨rfl,rfl⟩
      · exact absurd rfl hne
      · exact Tidy.condition ht'.cons (by decide) (by decide) (by decide)
      · exact Tidy.condition ht'.cons (by decide) (by decide) (by decide)
    · exact reportCluster_words ht'

/-! ## Step 5 -/

theorem ensureNodes_words (ht : Tidy lib h ls) (l : List (Sigma fun _ : String => NodeHealth)) :
    Obeys (Words lib) (fun h' r => Tidy lib h' r.1 ∧ ∀ n err, r.2 = some (n,err) →
      Complains lib r.1.spec h' .devicesProvisioned
        ⟨"NodeDeviceError","node " ++ n ++ ": ",err.text⟩) h (ensureNodes lc ls l) := by
  induction l generalizing h ls with
  | nil => exact ⟨ht,nofun⟩
  | cons p rest ih =>
    obtain ⟨n,nh⟩ := p
    refine ⟨trivial,?_⟩
    rintro (err | id)
    · refine ⟨ht.cons,?_⟩
      rintro n' err' ⟨⟩
      exact .nodeDevice List.mem_cons_self
    · exact ih (fun hread => ht.cons hread)

theorem provisionNodes_words (ht : Tidy lib h ls) :
    Wording lib h (provisionNodes lib lc gc ls) := by
  refine ⟨trivial,?_⟩
  rintro ⟨cluster,nodes⟩
  refine ⟨trivial,fun (order : nodes.Order) => ?_⟩
  refine (ensureNodes_words ht.cons.cons order.val).bind ?_
  rintro h' ⟨ls',_ | ⟨n,err⟩⟩ ⟨ht',hbad⟩
  · refine ⟨trivial,fun t => deployWorkflows_words ?_⟩
    exact Tidy.condition (Recorder.Tidy.cons ht') (by decide) (by decide) (by decide)
  · exact setDegraded_words ht' (hbad _ _ rfl) rfl

/-! ## Step 4.5 -/

/-- What a part of `Bootstrap` ends with. -/
abbrev BootstrapEnds (spec : LosantSyncSpec) : Past → Past → Except String Unit → Prop :=
  Ends (BootstrapFails spec)

theorem restartGEA_words :
    Obeys (Words lib) (BootstrapEnds ls.spec h) h (restartGEA lib ls) := by
  unfold restartGEA restartDeployment
  split
  · refine ⟨trivial,?_⟩
    rintro (err | annotations)
    · exact .error (List.suffix_cons _ _) (.getDeployment List.mem_cons_self)
    · refine ⟨trivial,fun t => ⟨trivial,?_⟩⟩
      have hs : ∀ ev₁ ev₂ ev₃ : Event interface, h <:+ ev₁::ev₂::ev₃::h := fun ev₁ ev₂ ev₃ =>
        (List.suffix_cons _ _).trans ((List.suffix_cons _ _).trans (List.suffix_cons _ _))
      rintro (err | ⟨⟩)
      · exact .error (hs _ _ _) (.patchDeployment List.mem_cons_self)
      · exact .ok (hs _ _ _)
  · exact .ok (List.suffix_refl h)

theorem storeCredentials_words {data : GoMap String} {existing : Option Secret} :
    Obeys (Words lib) (BootstrapEnds ls.spec h) h (storeCredentials lib ls data existing) := by
  cases existing with
  | none =>
    refine ⟨trivial,?_⟩
    rintro (err | ⟨⟩)
    · exact .error (List.suffix_cons _ _) (.create List.mem_cons_self)
    · exact obeys_ends_cons restartGEA_words
  | some s =>
    refine ⟨trivial,?_⟩
    rintro (err | ⟨⟩)
    · exact .error (List.suffix_cons _ _) (.update List.mem_cons_self)
    · exact obeys_ends_cons restartGEA_words

theorem writeCredentials_words {id : String} {existing : Option Secret} :
    Obeys (Words lib) (BootstrapEnds ls.spec h) h (writeCredentials lib lc ls id existing) := by
  refine ⟨trivial,fun t => obeys_ends_cons ⟨trivial,?_⟩⟩
  rintro (err | (key : Losant.AccessKey))
  · exact .error (List.suffix_cons _ _) (.key List.mem_cons_self)
  · exact obeys_ends_cons storeCredentials_words

theorem bootstrap_words {id : String} :
    Obeys (Words lib) (BootstrapEnds ls.spec h) h (bootstrap lib lc ls id) := by
  refine ⟨trivial,?_⟩
  rintro (err | (s : StoredSecret))
  · change Obeys _ _ _ (if err.reason = .notFound then _ else _)
    refine .ite (obeys_ends_cons writeCredentials_words) ?_
    exact .error (List.suffix_cons _ _) (.read List.mem_cons_self)
  · change Obeys _ _ _ (if Complete s.data id then _ else _)
    exact .ite (obeys_ends_cons restartGEA_words)
      (obeys_ends_cons writeCredentials_words)

theorem bootstrapGEA_words (ht : Tidy lib h ls) : Wording lib h (bootstrapGEA lib lc gc ls) := by
  unfold bootstrapGEA
  split
  · exact provisionNodes_words ht
  · refine bootstrap_words.bind ?_
    rintro h' (err | ⟨⟩) ⟨hs,hbad⟩
    · obtain ⟨label,text,hf,hm⟩ := hbad err rfl
      exact setDegraded_words (ht.later hs) (.bootstrap hf) hm
    · refine ⟨trivial,fun t => provisionNodes_words ?_⟩
      exact Tidy.condition (Recorder.Tidy.cons (ht.later hs)) (by decide) (by decide) (by decide)

/-! ## Steps 4 to 1 -/

theorem provisionCluster_words (ht : Tidy lib h ls) :
    Wording lib h (provisionCluster lib lc gc ls) := by
  refine ⟨trivial,?_⟩
  rintro (err | ⟨⟩)
  · exact setDegraded_words ht.cons (.losantUnreachable List.mem_cons_self) String.empty_append
  · refine ⟨trivial,?_⟩
    rintro (err | id)
    · exact setDegraded_words ht.cons.cons (.clusterDevice List.mem_cons_self)
        String.empty_append
    · exact bootstrapGEA_words (fun hread => ht.cons.cons hread)

theorem sync_words (ht : Tidy lib h ls) : Wording lib h (sync lib ls) := by
  refine obeys_client trivial (fun err => ?_) (fun s err hlc => ?_) (fun s lc _ => ?_)
  · exact setDegraded_words ht.cons (.secretNotFound List.mem_cons_self) String.empty_append
  · unfold Losant.newHTTPClient at hlc
    split at hlc
    · cases hlc
      exact setDegraded_words ht.cons .invalidSecret String.append_empty
    · cases hlc
  · exact provisionCluster_words ht.cons

theorem syncWhenDue_words (ht : Tidy lib h ls) : Wording lib h (syncWhenDue lib ls) := by
  unfold syncWhenDue
  split
  · refine ⟨trivial,fun (t : Time) => ?_⟩
    change Wording lib _ (if (t : ℤ) < _ then _ else _)
    exact .ite ⟨trivial,fun _ => trivial⟩ (sync_words ht.cons)
  · exact sync_words ht

/-! ## The other branches -/

theorem firstReconcile_words (ht : Tidy lib h ls) : Wording lib h (firstReconcile ls) := by
  refine ⟨trivial,fun t => updateStatus_words ?_ ?_⟩
  · have htidy : Tidy lib h { ls with status := { ls.status with
        phase := .provisioning, nextScheduledTime := some t } } := ht
    exact htidy.cons.words nofun
  · rintro h' (err | v)
    · trivial
    · exact (ensureCredentialPlaceholder_plain.mono (fun _ _ hp => hp.words)
        (fun _ _ hq => hq)).bind (fun _ _ _ => trivial)

theorem suspended_words (ht : Tidy lib h ls) : Wording lib h (suspended ls) := by
  unfold suspended
  split
  · have htidy : Tidy lib h { ls with status := { ls.status with phase := .suspended } } := ht
    refine updateStatus_words (htidy.words nofun) ?_
    rintro h' (err | v)
    · trivial
    · trivial
  · trivial

theorem reconcile_words (lib : Externals) : Wording lib [] (reconcile lib) := by
  refine ⟨trivial,?_⟩
  rintro (err | (b : LosantSync))
  · change Obeys _ _ _ (if err.reason = .notFound then _ else _)
    exact .ite trivial trivial
  · have ht : Tidy lib [⟨.inl .get,.ok b⟩] b := fun hread => hread b List.mem_cons_self
    have hdel : Wording lib [⟨.inl .get,.ok b⟩] (handleDeletion b) :=
      obeys_handleDeletion (fun _ _ he => he.words) (fun _ _ => trivial)
    change Wording lib _ (reconcileObject lib b)
    refine .ite hdel (.ite ?_ (.ite (suspended_words ht)
      (.ite (firstReconcile_words ht) (syncWhenDue_words ht))))
    refine ⟨trivial,?_⟩
    rintro (err | v)
    · trivial
    · trivial

/-! ## Runs -/

/-- What the jobs of the configuration handed to the server. -/
def StatusesWorded (lib : Externals) {σ : System losantSync calls (Except String Result)}
    (c : Config σ) : Prop := (recorder lib).StatusesWorded c

theorem statuses_worded {σ : System losantSync calls (Except String Result)} {c : Config σ}
    (hmain : σ.main = reconcile lib) (hc : σ.Reachable c) : StatusesWorded lib c := by
  have htraced : c.Traced (fun h e => Permits h e ∧ Words lib h e) :=
    System.Reachable.traced (fun h e hp => hp.1.disciplined h e)
      (hmain ▸ (reconcile_obeys lib).and (reconcile_words lib)) hc
  refine Recorder.statusesWorded htraced (fun _ _ hp => hp.2) fits_nil ?_
  exact fun t ht => (Fits.of_admitted ht).encode

end LosantDevice.Sync

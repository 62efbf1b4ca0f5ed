import LosantDevice.Kube.Provenance
import LosantDevice.Losant.Client
import LosantDevice.Gea.Client

/-!
# The LosantSync reconciler

`internal/controller/losantsync_controller.go` with `internal/provisioner/bootstrap.go`, as
programs over the calls they make. `Reconcile` is one long function in the source; here each of
its numbered steps is a definition that ends by going on to the next. Logging is left out.
-/
namespace LosantDevice.Sync
open Effect Kube Go Monitor

/-- Where the clock is read. -/
inductive Clock
  | firstSchedule
  | scheduleCheck
  | scheduleWait
  | keyName
  | restartedAt
  | transition
  | scheduleFrom
  | scheduleUntil
  | lastSync
  | requeue
  deriving DecidableEq, Repr

/-- The calls besides those on the object itself. The order of a `range` over a map is an
answer too. -/
inductive Call
  | now (site : Clock)
  | rangeNodes (m : GoMap NodeHealth)
  | rangeDevices (m : GoMap String)
  | healthSnapshot
  | getSecret (ref : NamespacedName)
  | createSecret (s : Secret)
  | updateSecret (s : Secret)
  | getDeployment (ref : NamespacedName)
  | patchDeployment (ref : NamespacedName) (annotations : GoMap String)
  | losant (c : Losant.HTTPClient) (m : Losant.Method)
  | reportState (c : Gea.HTTPClient) (payload : Gea.StatePayload)

def calls : Interface where
  Call := Call
  Answer
    | .now _ => Time
    | .rangeNodes m => m.Order
    | .rangeDevices m => m.Order
    | .healthSnapshot => ClusterHealth × GoMap NodeHealth
    | .getSecret _ => Except ApiError StoredSecret
    | .createSecret _ => Except ApiError Unit
    | .updateSecret _ => Except ApiError Unit
    | .getDeployment _ => Except ApiError (GoMap String)
    | .patchDeployment _ _ => Except ApiError Unit
    | .losant _ m => m.Answer
    | .reportState _ _ => Except String Unit

abbrev interface : Interface := losantSync.interface calls
abbrev M := Program interface

def outside (e : Call) : M (calls.Answer e) := Program.perform (I := interface) (.inr e)
def get : M (Except ApiError LosantSync) := Program.perform (I := interface) (.inl .get)
def update (ls : LosantSync) : M (Except ApiError ℕ) :=
  Program.perform (I := interface) (.inl (.update ls))
def updateStatus (ls : LosantSync) : M (Except ApiError ℕ) :=
  Program.perform (I := interface) (.inl (.updateStatus ls))
def now (site : Clock) : M Time := outside (.now site)
def getSecret (ref : NamespacedName) : M (Except ApiError Secret) := do
  match ← outside (.getSecret ref) with
  | .error err => pure (.error err)
  | .ok s => pure (.ok { toStoredSecret := s, namespace_ := ref.namespace_, name := ref.name })
def createSecret (s : Secret) : M (Except ApiError Unit) := outside (.createSecret s)
def updateSecret (s : Secret) : M (Except ApiError Unit) := outside (.updateSecret s)
def getDeployment (ref : NamespacedName) : M (Except ApiError (GoMap String)) :=
  outside (.getDeployment ref)
def patchDeployment (ref : NamespacedName) (annotations : GoMap String) :
    M (Except ApiError Unit) := outside (.patchDeployment ref annotations)
def healthSnapshot : M (ClusterHealth × GoMap NodeHealth) := outside .healthSnapshot
def losant (c : Losant.HTTPClient) (m : Losant.Method) : M m.Answer := outside (.losant c m)
def reportState (c : Gea.HTTPClient) (payload : Gea.StatePayload) : M (Except String Unit) :=
  outside (.reportState c payload)

def finalizer : String := "losant.io/device-cleanup"
def geaCredentialsSecretName : String := "losant-gea-credentials"
def requeueOnDegradedFallback : Duration := minute

/-! ## The bootstrapper -/

def placeholderData : GoMap String :=
  (((∅ : GoMap String).insert "DEVICE_ID" "").insert "ACCESS_KEY" "").insert "ACCESS_SECRET" ""

def ensureCredentialPlaceholder (ns : String) : M (Except String Unit) := do
  match ← getSecret ⟨ns,geaCredentialsSecretName⟩ with
  | .ok _ => pure (.ok ())
  | .error err =>
    if err.reason ≠ .notFound then
      pure (.error ("read " ++ ns ++ "/" ++ geaCredentialsSecretName ++ ": " ++ err.text))
    else
      match ← createSecret { namespace_ := ns, name := geaCredentialsSecretName
                             data := placeholderData } with
      | .error err =>
        if err.reason ≠ .alreadyExists then
          pure (.error ("create placeholder " ++ ns ++ "/" ++ geaCredentialsSecretName ++ ": " ++
            err.text))
        else pure (.ok ())
      | .ok _ => pure (.ok ())

def restartDeployment (lib : Externals) (ns name : String) : M (Except String Unit) := do
  match ← getDeployment ⟨ns,name⟩ with
  | .error err => pure (.error ("get GEA Deployment " ++ ns ++ "/" ++ name ++ ": " ++ err.text))
  | .ok annotations =>
    let t ← now .restartedAt
    match ← patchDeployment ⟨ns,name⟩
        (annotations.insert "kubectl.kubernetes.io/restartedAt" (lib.rfc3339 t)) with
    | .error err => pure (.error ("patch GEA Deployment " ++ ns ++ "/" ++ name ++ ": " ++ err.text))
    | .ok _ => pure (.ok ())

/-- The data of a Secret are complete credentials for the device. -/
def Complete (data : GoMap String) (deviceID : String) : Prop :=
  valueOf data "DEVICE_ID" ≠ "" ∧ valueOf data "ACCESS_KEY" ≠ "" ∧
    valueOf data "ACCESS_SECRET" ≠ "" ∧ valueOf data "DEVICE_ID" = deviceID

instance (data : GoMap String) (deviceID : String) : Decidable (Complete data deviceID) := by
  unfold Complete
  infer_instance

def credentialData (deviceID : String) (k : Losant.AccessKey) : GoMap String :=
  (((∅ : GoMap String).insert "DEVICE_ID" deviceID).insert "ACCESS_KEY" k.key).insert
    "ACCESS_SECRET" k.secret

/-- The last part of `Bootstrap`: a restart when a Deployment is named. -/
def restartGEA (lib : Externals) (ls : LosantSync) : M (Except String Unit) :=
  if ls.spec.gea.deploymentRef ≠ "" then
    restartDeployment lib ls.spec.provisioningSecretRef.namespace_ ls.spec.gea.deploymentRef
  else pure (.ok ())

/-- The data of a new key go to the Secret that was read, or to a new one when there was none. -/
def storeCredentials (lib : Externals) (ls : LosantSync) (data : GoMap String)
    (existing : Option Secret) : M (Except String Unit) := do
  let ns := ls.spec.provisioningSecretRef.namespace_
  match existing with
  | none =>
    match ← createSecret { namespace_ := ns, name := geaCredentialsSecretName, data } with
    | .error err => pure (.error ("create " ++ ns ++ "/" ++ geaCredentialsSecretName ++ ": " ++
        err.text))
    | .ok _ => restartGEA lib ls
  | some s =>
    match ← updateSecret { s with data } with
    | .error err => pure (.error ("update " ++ ns ++ "/" ++ geaCredentialsSecretName ++ ": " ++
        err.text))
    | .ok _ => restartGEA lib ls

/-- The middle part of `Bootstrap`: a new access key. -/
def writeCredentials (lib : Externals) (lc : Losant.HTTPClient) (ls : LosantSync)
    (clusterDeviceID : String) (existing : Option Secret) : M (Except String Unit) := do
  let t ← now .keyName
  let keyName := "losant-device-controller-" ++ ls.spec.clusterName ++ "-" ++
    toString ((t : ℤ)/second)
  match ← losant lc (.createDeviceAccessKey ls.spec.applicationID clusterDeviceID keyName) with
  | .error err => pure (.error ("create device access key: " ++ Losant.Error.text err))
  | .ok key => storeCredentials lib ls (credentialData clusterDeviceID key) existing

def bootstrap (lib : Externals) (lc : Losant.HTTPClient) (ls : LosantSync)
    (clusterDeviceID : String) : M (Except String Unit) := do
  let ns := ls.spec.provisioningSecretRef.namespace_
  match ← getSecret ⟨ns,geaCredentialsSecretName⟩ with
  | .ok existing =>
    if Complete existing.data clusterDeviceID then restartGEA lib ls
    else writeCredentials lib lc ls clusterDeviceID (some existing)
  | .error err =>
    if err.reason = .notFound then writeCredentials lib lc ls clusterDeviceID none
    else pure (.error ("read " ++ ns ++ "/" ++ geaCredentialsSecretName ++ ": " ++ err.text))

/-! ## Schedule and conditions -/

/-- `nextScheduleAndDuration`: a cron delay is measured by a second reading of the clock, the
delay of an interval is the interval itself. -/
def nextScheduleAndDuration (lib : Externals) (spec : LosantSyncSpec) :
    M (Except String (Time × Duration)) :=
  if spec.cronSchedule ≠ "" then
    match lib.parseCron spec.cronSchedule with
    | .error err =>
      pure (.error ("invalid cron expression " ++ lib.quote spec.cronSchedule ++ ": " ++ err))
    | .ok next => do
      let t ← now .scheduleFrom
      let u ← now .scheduleUntil
      pure (.ok (next t,timeUntil (next t) u))
  else
    match parseDuration spec.interval with
    | none => pure (.error ("invalid interval " ++ lib.quote spec.interval ++ ": " ++
        lib.durationError spec.interval))
    | some d => do
      let t ← now .scheduleFrom
      pure (.ok ((t : ℤ)+d,d))

/-- The object with a condition set at time `t`. -/
def withCondition (lib : Externals) (t : Time) (ls : LosantSync) (ty : SyncCondition)
    (status : ConditionStatus) (reason message : String) : LosantSync :=
  { ls with status := { ls.status with
    conditions := lib.conditions.set t ls.status.conditions
      { type := ty, status, observedGeneration := ls.metadata.generation
        lastTransitionTime := zeroTime, reason, message } } }

/-- The library reads the clock for the time of the transition. -/
def setCondition (lib : Externals) (ls : LosantSync) (ty : SyncCondition) (status : ConditionStatus)
    (reason message : String) : M LosantSync := do
  let t ← now .transition
  pure (withCondition lib t ls ty status reason message)

/-- The second half of `setDegraded`: the next attempt is recorded if the schedule parses. -/
def writeDegraded (lib : Externals) (ls : LosantSync) : M (Except String Result) := do
  match ← nextScheduleAndDuration lib ls.spec with
  | .ok (next,d) =>
    match ← updateStatus
      { ls with status := { ls.status with nextScheduledTime := some next } } with
    | .error err => pure (.error err.text)
    | .ok _ => pure (.ok { requeueAfter := d })
  | .error _ =>
    match ← updateStatus ls with
    | .error err => pure (.error err.text)
    | .ok _ => pure (.ok { requeueAfter := requeueOnDegradedFallback })

def setDegraded (lib : Externals) (ls : LosantSync) (ty : SyncCondition)
    (reason message : String) : M (Except String Result) := do
  let ls : LosantSync := { ls with status := { ls.status with phase := .degraded } }
  let ls ← setCondition lib ls ty .false reason message
  let ls ← setCondition lib ls .lastSyncSucceeded .false reason message
  writeDegraded lib ls

/-! ## Workflows and attributes -/

/-- `byFlowID`: of two items for one flow the later one counts. -/
def byFlowID (deployments : List Losant.EdgeDeploymentStatus) :
    GoMap Losant.EdgeDeploymentStatus :=
  deployments.foldl (fun m d => m.insert d.flowID d) ∅

/-- The loop over the workflows of the spec. An error is a condition reason with its message. -/
def releaseWorkflows (lc : Losant.HTTPClient) (ls : LosantSync)
    (current : GoMap Losant.EdgeDeploymentStatus) :
    List WorkflowDeployment → Bool → M (Except (String × String) Bool)
  | [],allConfirmed => pure (.ok allConfirmed)
  | wd::rest,allConfirmed => do
    let cur := (current.lookup wd.flowID).getD {}
    if cur.desiredVersion ≠ wd.version then
      match ← losant lc (.releaseWorkflow ls.spec.applicationID ls.status.clusterDeviceID wd.flowID
          wd.version) with
      | .error err =>
        if Losant.Error.workflowNotFound err then
          pure (.error ("WorkflowNotFound","flowId " ++ wd.flowID ++ " version " ++ wd.version ++
            " not found in Losant"))
        else pure (.error ("ReleaseFailed",Losant.Error.text err))
      | .ok _ => releaseWorkflows lc ls current rest false
    else if cur.currentVersion ≠ wd.version then releaseWorkflows lc ls current rest false
    else releaseWorkflows lc ls current rest allConfirmed

def ensureWorkflowDeployments (lc : Losant.HTTPClient) (ls : LosantSync) :
    M (Except (String × String) (String × String)) :=
  if ls.spec.workflowDeployments = [] then pure (.ok ("",""))
  else do
    match ← losant lc (.getEdgeDeployments ls.spec.applicationID ls.status.clusterDeviceID) with
    | .error err => pure (.error ("ReleaseFailed",Losant.Error.text err))
    | .ok deployments =>
      match ← releaseWorkflows lc ls (byFlowID deployments) ls.spec.workflowDeployments true with
      | .error e => pure (.error e)
      | .ok true => pure (.ok ("Deployed","all workflow versions confirmed deployed"))
      | .ok false => pure (.ok ("DeploymentPending","release queued, awaiting GEA confirmation"))

def clusterAttributes (h : ClusterHealth) : List (String × Gea.Value) :=
  [("health_score",.int h.healthScore),("health_status",.string h.healthStatus),
    ("total_nodes",.int h.totalNodes),("ready_nodes",.int h.readyNodes),
    ("unhealthy_nodes",.int h.unhealthyNodes),("total_pods",.int h.totalPods),
    ("running_pods",.int h.runningPods),("failed_pods",.int h.failedPods),
    ("pending_pods",.int h.pendingPods),("crashloop_pods",.int h.crashLoopPods),
    ("degraded_pvcs",.int h.degradedPVCs),("coredns_healthy",.bool h.coreDNSHealthy),
    ("event_warnings",.int h.eventWarnings)]

def nodeAttributes (h : NodeHealth) : List (String × Gea.Value) :=
  [("health_score",.int h.healthScore),("health_status",.string h.healthStatus),
    ("ready",.bool h.ready),("memory_pressure",.bool h.memoryPressure),
    ("disk_pressure",.bool h.diskPressure),("pid_pressure",.bool h.pidPressure),
    ("pod_count",.int h.podCount),("not_ready_pods",.int h.notReadyPods),
    ("crashloop_pods",.int h.crashLoopPods),("cpu_request_pct",.float h.cpuRequestPct),
    ("mem_request_pct",.float h.memRequestPct)]

/-! ## The steps of `Reconcile`, the last one first -/

section steps
variable (lib : Externals) (lc : Losant.HTTPClient) (gc : Gea.HTTPClient)

/-- Steps 8 and 9. -/
def finishSync (ls : LosantSync) : M (Except String Result) := do
  match ← nextScheduleAndDuration lib ls.spec with
  | .error err => setDegraded lib ls .lastSyncSucceeded "ScheduleError" err
  | .ok (next,_) =>
    let t ← now .lastSync
    let ls : LosantSync := { ls with status := { ls.status with
      lastSyncTime := some t, nextScheduledTime := some next, phase := .active } }
    let ls ← setCondition lib ls .lastSyncSucceeded .true "SyncComplete"
      "sync completed successfully"
    match ← updateStatus ls with
    | .error err => pure (.error err.text)
    | .ok _ =>
      let u ← now .requeue
      pure (.ok { requeueAfter := timeUntil next u })

/-- Step 7; the outcome of a report is only logged. -/
def reportNodes (ls : LosantSync) : List (Sigma fun _ : String => NodeHealth) → M Unit
  | [] => pure ()
  | ⟨nodeName,nh⟩::rest => do
    let nodeDeviceID := (ls.status.nodeDevices.lookup nodeName).getD ""
    if nodeDeviceID = "" then reportNodes ls rest
    else
      let _ ← reportState gc ⟨nodeDeviceID,nodeAttributes nh⟩
      reportNodes ls rest

/-- Step 6 and on. -/
def reportCluster (cluster : ClusterHealth) (nodes : GoMap NodeHealth) (ls : LosantSync) :
    M (Except String Result) := do
  match ← reportState gc ⟨ls.status.clusterDeviceID,clusterAttributes cluster⟩ with
  | .error err => setDegraded lib ls .geaReachable "GEAUnreachable" err
  | .ok _ =>
    let ls ← setCondition lib ls .geaReachable .true "Reachable" "GEA accepted cluster state"
    let order ← outside (.rangeNodes nodes)
    reportNodes gc ls (Subtype.val order)
    finishSync lib ls

/-- Step 5b and on. -/
def deployWorkflows (cluster : ClusterHealth) (nodes : GoMap NodeHealth) (ls : LosantSync) :
    M (Except String Result) := do
  match ← ensureWorkflowDeployments lc ls with
  | .error (reason,message) => setDegraded lib ls .workflowDeployed reason message
  | .ok (reason,message) =>
    if reason ≠ "" then
      let ls ← setCondition lib ls .workflowDeployed .true reason message
      reportCluster lib gc cluster nodes ls
    else reportCluster lib gc cluster nodes ls

/-- The loop of step 5: the object with the devices found so far, and the node that failed. -/
def ensureNodes (ls : LosantSync) :
    List (Sigma fun _ : String => NodeHealth) → M (LosantSync × Option (String × Losant.Error))
  | [] => pure (ls,none)
  | ⟨nodeName,_⟩::rest => do
    match ← losant lc (.ensureNodeDevice ls.spec nodeName ls.status.clusterDeviceID) with
    | .error err => pure (ls,some (nodeName,err))
    | .ok id => ensureNodes { ls with status := { ls.status with
        nodeDevices := ls.status.nodeDevices.insert nodeName id } } rest

/-- Step 5 and on. -/
def provisionNodes (ls : LosantSync) : M (Except String Result) := do
  let snapshot ← healthSnapshot
  let order ← outside (.rangeNodes snapshot.2)
  match ← ensureNodes lc ls (Subtype.val order) with
  | (ls,some (nodeName,err)) =>
    setDegraded lib ls .devicesProvisioned "NodeDeviceError"
      ("node " ++ nodeName ++ ": " ++ err.text)
  | (ls,none) =>
    let ls ← setCondition lib ls .devicesProvisioned .true "Provisioned"
      "all devices confirmed in Losant"
    deployWorkflows lib lc gc snapshot.1 snapshot.2 ls

/-- Step 4.5 and on. -/
def bootstrapGEA (ls : LosantSync) : M (Except String Result) :=
  if isStatusConditionTrue ls.status.conditions .geaBootstrapped then provisionNodes lib lc gc ls
  else do
    match ← bootstrap lib lc ls ls.status.clusterDeviceID with
    | .error err => setDegraded lib ls .geaBootstrapped "BootstrapFailed" err
    | .ok _ =>
      let ls ← setCondition lib ls .geaBootstrapped .true "BootstrapComplete"
        "GEA credentials provisioned"
      provisionNodes lib lc gc ls

/-- Steps 3, 4 and on. -/
def provisionCluster (ls : LosantSync) : M (Except String Result) := do
  match ← losant lc .ping with
  | .error err => setDegraded lib ls .lastSyncSucceeded "LosantUnreachable" (Losant.Error.text err)
  | .ok _ =>
    match ← losant lc (.ensureClusterDevice ls.spec) with
    | .error err =>
      setDegraded lib ls .devicesProvisioned "ClusterDeviceError" (Losant.Error.text err)
    | .ok id =>
      bootstrapGEA lib lc gc { ls with status := { ls.status with clusterDeviceID := id } }

end steps

section reconcile
variable (lib : Externals)

/-- Steps 1, 2 and on. -/
def sync (ls : LosantSync) : M (Except String Result) := do
  match ← getSecret ls.spec.provisioningSecretRef.namespacedName with
  | .error err => setDegraded lib ls .lastSyncSucceeded "SecretNotFound" err.text
  | .ok secret =>
    match Losant.newHTTPClient secret ls.spec.applicationID with
    | .error err => setDegraded lib ls .lastSyncSucceeded "InvalidSecret" err
    | .ok lc => provisionCluster lib lc (Gea.newHTTPClient ls.spec.gea) ls

/-- The schedule check: only an active object whose next sync lies ahead waits. -/
def syncWhenDue (ls : LosantSync) : M (Except String Result) :=
  match ls.status.phase,ls.status.nextScheduledTime with
  | .active,some next => do
    let t ← now .scheduleCheck
    if (t : ℤ) < next then
      let u ← now .scheduleWait
      pure (.ok { requeueAfter := timeUntil next u })
    else sync lib ls
  | _,_ => sync lib ls

def firstReconcile (ls : LosantSync) : M (Except String Result) := do
  let t ← now .firstSchedule
  match ← updateStatus { ls with status := { ls.status with
      phase := .provisioning, nextScheduledTime := some t } } with
  | .error err => pure (.error err.text)
  | .ok _ =>
    let _ ← ensureCredentialPlaceholder ls.spec.provisioningSecretRef.namespace_
    pure (.ok { requeueAfter := second })

def suspended (ls : LosantSync) : M (Except String Result) :=
  if ls.status.phase ≠ .suspended then do
    match ← updateStatus { ls with status := { ls.status with phase := .suspended } } with
    | .error err => pure (.error err.text)
    | .ok _ => pure (.ok {})
  else pure (.ok {})

def addFinalizer (ls : LosantSync) : M (Except String Result) := do
  match ← update { ls with metadata := { ls.metadata with
      finalizers := ls.metadata.finalizers ++ [finalizer] } } with
  | .error err => pure (.error err.text)
  | .ok _ => pure (.ok { requeue := true })

/-- The loop of `handleDeletion`; the first error ends it. -/
def deleteDevices (lc : Losant.HTTPClient) (app : String) :
    List (Sigma fun _ : String => String) → M (Except Losant.Error Unit)
  | [] => pure (.ok ())
  | ⟨_,id⟩::rest => do
    match ← losant lc (.deleteDevice app id) with
    | .error err => pure (.error err)
    | .ok _ => deleteDevices lc app rest

def removeFinalizer (ls : LosantSync) : M (Except String Result) := do
  match ← update { ls with metadata := { ls.metadata with
      finalizers := ls.metadata.finalizers.filter (· ≠ finalizer) } } with
  | .error err => pure (.error err.text)
  | .ok _ => pure (.ok {})

/-- The cluster device goes last, and only when one is recorded. -/
def deleteClusterDevice (lc : Losant.HTTPClient) (ls : LosantSync) : M (Except String Result) :=
  if ls.status.clusterDeviceID ≠ "" then do
    match ← losant lc (.deleteDevice ls.spec.applicationID ls.status.clusterDeviceID) with
    | .error err => pure (.error (Losant.Error.text err))
    | .ok _ => removeFinalizer ls
  else removeFinalizer ls

def handleDeletion (ls : LosantSync) : M (Except String Result) :=
  if finalizer ∉ ls.metadata.finalizers then pure (.ok {})
  else do
    match ← getSecret ls.spec.provisioningSecretRef.namespacedName with
    | .error err => pure (.error ("deletion: read provisioning secret: " ++ err.text))
    | .ok secret =>
      match Losant.newHTTPClient secret ls.spec.applicationID with
      | .error err => pure (.error ("deletion: construct losant client: " ++ err))
      | .ok lc =>
        let order ← outside (.rangeDevices ls.status.nodeDevices)
        match ← deleteDevices lc ls.spec.applicationID (Subtype.val order) with
        | .error err => pure (.error err.text)
        | .ok _ => deleteClusterDevice lc ls

/-- `Reconcile` once the object has been read. -/
def reconcileObject (ls : LosantSync) : M (Except String Result) :=
  if ls.metadata.deletionTimestamp.isSome then handleDeletion ls
  else if finalizer ∉ ls.metadata.finalizers then addFinalizer ls
  else if ls.spec.suspend then suspended ls
  else if ls.status.phase = .unset then firstReconcile ls
  else syncWhenDue lib ls

def reconcile : M (Except String Result) := do
  match ← get with
  | .error err => if err.reason = .notFound then pure (.ok {}) else pure (.error err.text)
  | .ok ls => reconcileObject lib ls

end reconcile
/-- Every call has an answer. -/
theorem nonempty_answer (e : interface.Call) : Nonempty (interface.Answer e) := by
  match e with
  | .inl .get => exact ⟨.error ⟨.other,""⟩⟩
  | .inl (.update _) | .inl (.updateStatus _) => exact ⟨.error ⟨.other,""⟩⟩
  | .inr (.now _) => exact ⟨(0 : ℤ)⟩
  | .inr (.rangeNodes m) => exact ⟨⟨m.entries.toList,m.entries.coe_toList⟩⟩
  | .inr (.rangeDevices m) => exact ⟨⟨m.entries.toList,m.entries.coe_toList⟩⟩
  | .inr .healthSnapshot => exact ⟨({},∅)⟩
  | .inr (.getSecret _) | .inr (.createSecret _) | .inr (.updateSecret _)
  | .inr (.getDeployment _) | .inr (.patchDeployment _ _) => exact ⟨.error ⟨.other,""⟩⟩
  | .inr (.losant _ m) => cases m <;> exact ⟨.error { text := "" }⟩
  | .inr (.reportState _ _) => exact ⟨.error ""⟩

end LosantDevice.Sync

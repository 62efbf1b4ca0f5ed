import LosantDevice.Kube.Provenance
import LosantDevice.Rancher.Client

/-!
# The RancherSession reconciler

`internal/controller/ranchersession_controller.go` as programs over the calls they make. The
client is the one built from the Secret, as in `cmd/main.go`; tests inject another. Logging is
left out.
-/
namespace LosantDevice.Session
open Effect Kube Go

/-- Where the clock is read. -/
inductive Clock
  | transition
  | manifestApplied
  | agentTimeout
  | connected
  | ttlCheck
  | ttlLeft
  deriving DecidableEq, Repr

/-- One object of the import manifest; `content` stands for its other fields. -/
structure Document where
  kind : String
  namespace_ : String
  name : String
  content : String
  deriving DecidableEq

/-- What the decoder finds in a manifest: documents, and then the end or an error. -/
structure Manifest where
  documents : List Document
  rest : Option String := none
  deriving DecidableEq

/-- The outcomes of fetching a manifest. The status is looked at before the body is read. -/
inductive Fetched
  | unbuilt (err : String)
  | failed (err : String)
  | response (status : ℕ) (body : Except String Manifest)

/-- The calls besides those on the object itself. -/
inductive Call
  | now (site : Clock)
  | getSecret (ref : NamespacedName)
  | rancher (c : Rancher.HTTPClient) (m : Rancher.Method)
  | fetchManifest (ca url : String)
  | apply (d : Document)
  | getDeployment (ref : NamespacedName)
  | deleteNamespace (name : String)

/-- A Deployment is answered with its `availableReplicas`. -/
def calls : Interface where
  Call := Call
  Answer
    | .now _ => Time
    | .getSecret _ => Except ApiError StoredSecret
    | .rancher _ m => m.Answer
    | .fetchManifest _ _ => Fetched
    | .apply _ => Except ApiError Unit
    | .getDeployment _ => Except ApiError ℤ
    | .deleteNamespace _ => Except ApiError Unit

abbrev interface : Interface := rancherSession.interface calls
abbrev M := Program interface

/-- A Secret as it was read, with its name. -/
def named (ref : SecretRef) : Except ApiError StoredSecret → Except ApiError Secret
  | .error err => .error err
  | .ok s => .ok { toStoredSecret := s, namespace_ := ref.namespace_, name := ref.name }

def outside (e : Call) : M (calls.Answer e) := Program.perform (I := interface) (.inr e)
def get : M (Except ApiError RancherSession) := Program.perform (I := interface) (.inl .get)
def update (rs : RancherSession) : M (Except ApiError ℕ) :=
  Program.perform (I := interface) (.inl (.update rs))
def updateStatus (rs : RancherSession) : M (Except ApiError ℕ) :=
  Program.perform (I := interface) (.inl (.updateStatus rs))
def now (site : Clock) : M Time := outside (.now site)
def getSecret (ref : SecretRef) : M (Except ApiError Secret) := do
  let r ← outside (.getSecret ref.namespacedName)
  pure (named ref r)
def rancher (c : Rancher.HTTPClient) (m : Rancher.Method) : M m.Answer := outside (.rancher c m)

def rancherFinalizer : String := "losant.io/rancher-cleanup"
def cattleSystemNamespace : String := "cattle-system"
def cattleAgentDeployment : String := "cattle-cluster-agent"
def agentPollInterval : Duration := 5*second
def agentReadyTimeout : Duration := 120*second
def rancherErrorRequeueWait : Duration := 30*second

/-! ## Status writes -/

/-- The session with the condition `RancherAPIReachable` set at time `t`. -/
def withCondition (lib : Externals) (t : Time) (rs : RancherSession) (status : ConditionStatus)
    (reason message : String) : RancherSession :=
  { rs with status := { rs.status with
    conditions := lib.conditions.set t rs.status.conditions
      { type := .rancherAPIReachable, status, observedGeneration := rs.metadata.generation
        lastTransitionTime := zeroTime, reason, message } } }

/-- The library reads the clock for the time of the transition. -/
def setRancherCondition (lib : Externals) (rs : RancherSession) (status : ConditionStatus)
    (reason message : String) : M RancherSession := do
  let t ← now .transition
  pure (withCondition lib t rs status reason message)

def setFailed (lib : Externals) (rs : RancherSession) (reason message : String) :
    M (Except String Result) := do
  let rs : RancherSession := { rs with status := { rs.status with
    phase := .failed, lastTransitionMessage := message } }
  let rs ← setRancherCondition lib rs .false reason message
  match ← updateStatus rs with
  | .error err => pure (.error err.text)
  | .ok _ => pure (.ok {})

def setAPIUnreachable (lib : Externals) (rs : RancherSession) (reason message : String) :
    M (Except String Result) := do
  let rs ← setRancherCondition lib rs .false reason message
  match ← updateStatus
    { rs with status := { rs.status with lastTransitionMessage := message } } with
  | .error err => pure (.error err.text)
  | .ok _ => pure (.ok { requeueAfter := rancherErrorRequeueWait })

/-! ## The client -/

/-- Why there is no client. The interface value is then nil, or holds a nil pointer, which the
comparison with nil does not see. -/
structure NoClient where
  err : String
  nilPointer : Bool
  deriving DecidableEq

/-- The client, given the outcome of reading the Secret. -/
def clientFrom (lib : Externals) : Except ApiError Secret → Except NoClient Rancher.HTTPClient
  | .error err => .error ⟨"read credentials secret: " ++ err.text,false⟩
  | .ok secret =>
    match Rancher.newHTTPClient lib secret with
    | .error err => .error ⟨err,true⟩
    | .ok c => .ok c

def rancherClient (lib : Externals) (rs : RancherSession) :
    M (Except NoClient Rancher.HTTPClient) := do
  let secret ← getSecret rs.spec.credentialsSecretRef
  pure (clientFrom lib secret)

/-- A method called through a nil pointer. The manager recovers and reports an error. -/
def nilDereference : String :=
  "panic: runtime error: invalid memory address or nil pointer dereference [recovered]"

/-! ## Connecting -/

/-- The loop of `applyManifest`. -/
def applyDocuments (rest : Option String) : List Document → M (Except String Unit)
  | [] =>
    match rest with
    | none => pure (.ok ())
    | some err => pure (.error ("decode manifest document: " ++ err))
  | d::ds =>
    if d.kind = "" then applyDocuments rest ds
    else do
      match ← outside (.apply d) with
      | .error err => pure (.error ("apply " ++ d.kind ++ " " ++ d.namespace_ ++ "/" ++ d.name ++
          ": " ++ ApiError.text err))
      | .ok _ => applyDocuments rest ds

def applyManifest (rs : RancherSession) (manifestURL : String) : M (Except String Unit) := do
  match ← getSecret rs.spec.credentialsSecretRef with
  | .error err => pure (.error ("read credentials secret: " ++ err.text))
  | .ok secret =>
    match ← outside (.fetchManifest (valueOf secret.data "RANCHER_CA") manifestURL) with
    | .unbuilt err => pure (.error ("build manifest request: " ++ err))
    | .failed err => pure (.error ("fetch manifest: " ++ err))
    | .response status body =>
      if 400 ≤ status then pure (.error ("fetch manifest: status " ++ toString status))
      else
        match body with
        | .error err => pure (.error ("read manifest body: " ++ err))
        | .ok m => applyDocuments m.rest m.documents

def displayName (rs : RancherSession) : String :=
  if rs.spec.clusterDisplayName = "" then rs.metadata.name else rs.spec.clusterDisplayName

section handlers
variable (lib : Externals) (c : Rancher.HTTPClient)

/-- The end of `handleConnect`: the manifest has been applied. -/
def recordManifest (rs : RancherSession) : M (Except String Result) := do
  let t ← now .manifestApplied
  let rs : RancherSession := { rs with status := { rs.status with
    manifestApplied := true
    connectedAt := some t
    expiresAt := some ((t : ℤ)+agentReadyTimeout : ℤ) } }
  let rs ← setRancherCondition lib rs .true "APIReachable" "Rancher API reachable"
  match ← updateStatus rs with
  | .error err => pure (.error err.text)
  | .ok _ => pure (.ok { requeueAfter := agentPollInterval })

/-- `handleConnect` once the cluster is known. -/
def registerCluster (rs : RancherSession) (clusterID : String) : M (Except String Result) := do
  let rs : RancherSession := { rs with status := { rs.status with rancherClusterID := clusterID } }
  match ← rancher c (.getRegistrationToken clusterID) with
  | .error err => setAPIUnreachable lib rs "GetTokenFailed" (Rancher.Error.text err)
  | .ok manifestURL =>
    match ← applyManifest rs manifestURL with
    | .error err => setFailed lib rs "ManifestApplyFailed" err
    | .ok _ => recordManifest lib rs

/-- `handleConnect` once the phase is stored. -/
def findOrCreateCluster (rs : RancherSession) : M (Except String Result) := do
  match ← rancher c (.findCluster (displayName rs)) with
  | .error err => setAPIUnreachable lib rs "FindClusterFailed" (Rancher.Error.text err)
  | .ok (some clusterID) => registerCluster lib c rs clusterID
  | .ok none =>
    match ← rancher c (.createCluster (displayName rs)) with
    | .error err => setAPIUnreachable lib rs "CreateClusterFailed" (Rancher.Error.text err)
    | .ok clusterID => registerCluster lib c rs clusterID

def handleConnect (rs : RancherSession) : M (Except String Result) := do
  let rs : RancherSession := { rs with status := { rs.status with phase := .connecting } }
  match ← updateStatus rs with
  | .error err => pure (.error err.text)
  | .ok v => findOrCreateCluster lib c (rs.stored v)

/-- `pollAgentReady` once the agent has been found available. -/
def becomeConnected (rs : RancherSession) : M (Except String Result) := do
  let t ← now .connected
  let ttl := wrapInt64 (rs.spec.ttlSeconds*second)
  let rs : RancherSession := { rs with status := { rs.status with
    phase := .connected
    connectedAt := some t
    expiresAt := some ((t : ℤ)+ttl : ℤ) } }
  let rs ← setRancherCondition lib rs .true "Connected" "Rancher session established"
  match ← updateStatus rs with
  | .error err => pure (.error err.text)
  | .ok _ => pure (.ok { requeueAfter := ttl })

/-- `pollAgentReady` before the timeout. -/
def checkAgent (rs : RancherSession) : M (Except String Result) := do
  match ← outside (.getDeployment ⟨cattleSystemNamespace,cattleAgentDeployment⟩) with
  | .error err =>
    if ApiError.reason err = .notFound then pure (.ok { requeueAfter := agentPollInterval })
    else pure (.error (ApiError.text err))
  | .ok availableReplicas =>
    if availableReplicas = (0 : ℤ) then pure (.ok { requeueAfter := agentPollInterval })
    else becomeConnected lib rs

def pollAgentReady (rs : RancherSession) : M (Except String Result) :=
  match rs.status.expiresAt with
  | none => checkAgent lib rs
  | some expires => do
    let t ← now .agentTimeout
    if expires < (t : ℤ) then
      setFailed lib rs "AgentReadyTimeout" "cattle-cluster-agent did not become ready within 2m0s"
    else checkAgent lib rs

/-! ## Disconnecting -/

def deleteNamespace (name : String) : M (Except String Unit) := do
  match ← outside (.deleteNamespace name) with
  | .error err =>
    if ApiError.reason err ≠ .notFound then
      pure (.error ("delete namespace " ++ name ++ ": " ++ ApiError.text err))
    else pure (.ok ())
  | .ok _ => pure (.ok ())

def removeFinalizer (rs : RancherSession) : M (Except String Result) := do
  match ← update { rs with metadata := { rs.metadata with
      finalizers := rs.metadata.finalizers.filter (· ≠ rancherFinalizer) } } with
  | .error err => pure (.error err.text)
  | .ok _ => pure (.ok {})

/-- `runCleanup` once the cluster is gone. -/
def cleanNamespace (rs : RancherSession) : M (Except String Result) := do
  match ← deleteNamespace cattleSystemNamespace with
  | .error err => pure (.error err)
  | .ok _ =>
    let rs : RancherSession := { rs with status := { rs.status with
      phase := .disconnected, lastTransitionMessage := "session disconnected" } }
    match ← updateStatus rs with
    | .error err => pure (.error err.text)
    | .ok v =>
      if rs.metadata.deletionTimestamp.isSome then removeFinalizer (rs.stored v)
      else pure (.ok {})

/-- `runCleanup` once the phase is stored; without a client the pointer is nil. -/
def cleanCluster (rc : Option Rancher.HTTPClient) (rs : RancherSession) :
    M (Except String Result) :=
  if rs.status.rancherClusterID ≠ "" then
    match rc with
    | none => pure (.error nilDereference)
    | some c => do
      match ← rancher c (.deleteCluster rs.status.rancherClusterID) with
      | .error err => setAPIUnreachable lib rs "DeleteClusterFailed" (Rancher.Error.text err)
      | .ok _ => cleanNamespace rs
  else cleanNamespace rs

def runCleanup (rc : Option Rancher.HTTPClient) (rs : RancherSession) :
    M (Except String Result) := do
  let rs : RancherSession := { rs with status := { rs.status with phase := .disconnecting } }
  match ← updateStatus rs with
  | .error err => pure (.error err.text)
  | .ok v => cleanCluster lib rc (rs.stored v)

/-- The delay that is left of the session, if any. -/
def awaitExpiry (rs : RancherSession) : M (Except String Result) :=
  match rs.status.expiresAt with
  | none => pure (.ok {})
  | some expires => do
    let t ← now .ttlLeft
    if (0 : ℤ) < timeUntil expires t then pure (.ok { requeueAfter := timeUntil expires t })
    else pure (.ok {})

/-- `handleConnected` before the session has expired. -/
def checkCluster (rs : RancherSession) : M (Except String Result) :=
  if rs.status.rancherClusterID ≠ "" then do
    match ← rancher c (.getCluster rs.status.rancherClusterID) with
    | .error err =>
      if Rancher.Error.notFound err then runCleanup lib (some c) rs
      else setAPIUnreachable lib rs "GetClusterFailed" (Rancher.Error.text err)
    | .ok _ => awaitExpiry rs
  else awaitExpiry rs

def handleConnected (rs : RancherSession) : M (Except String Result) :=
  match rs.status.expiresAt with
  | none => checkCluster lib c rs
  | some expires => do
    let t ← now .ttlCheck
    if expires < (t : ℤ) then runCleanup lib (some c) rs
    else checkCluster lib c rs

end handlers

/-! ## `Reconcile` -/

section reconcile
variable (lib : Externals)

/-- The delay `runCleanup` asks for is dropped. -/
def cleanupOnDeletion (rc : Option Rancher.HTTPClient) (rs : RancherSession) :
    M (Except String Result) := do
  match ← runCleanup lib rc rs with
  | .error err => pure (.error err)
  | .ok _ => pure (.ok {})

/-- Without a client only the namespace is cleaned up. -/
def cleanupWithoutClient (rs : RancherSession) : M (Except String Result) := do
  match ← deleteNamespace cattleSystemNamespace with
  | .error err => pure (.error err)
  | .ok _ => removeFinalizer rs

def handleDisconnect (rs : RancherSession) : M (Except String Result) :=
  if rancherFinalizer ∉ rs.metadata.finalizers then pure (.ok {})
  else do
    match ← rancherClient lib rs with
    | .ok c => cleanupOnDeletion lib (some c) rs
    | .error e => if e.nilPointer then cleanupOnDeletion lib none rs else cleanupWithoutClient rs

def addFinalizer (rs : RancherSession) : M (Except String Result) := do
  match ← update { rs with metadata := { rs.metadata with
      finalizers := rs.metadata.finalizers ++ [rancherFinalizer] } } with
  | .error err => pure (.error err.text)
  | .ok _ => pure (.ok { requeue := true })

/-- The switch on the phase. -/
def handlePhase (c : Rancher.HTTPClient) (rs : RancherSession) : M (Except String Result) :=
  match rs.status.phase with
  | .unset => handleConnect lib c rs
  | .connecting =>
    if rs.status.manifestApplied then pollAgentReady lib rs else handleConnect lib c rs
  | .connected => handleConnected lib c rs
  | .failed | .disconnected | .disconnecting => pure (.ok {})

/-- `Reconcile` once the object has been read. -/
def reconcileObject (rs : RancherSession) : M (Except String Result) :=
  if rs.metadata.deletionTimestamp.isSome then handleDisconnect lib rs
  else if rancherFinalizer ∉ rs.metadata.finalizers then addFinalizer rs
  else if rs.spec.suspend then pure (.ok {})
  else do
    match ← rancherClient lib rs with
    | .error e => setFailed lib rs "InvalidSecret" e.err
    | .ok c => handlePhase lib c rs

def reconcile : M (Except String Result) := do
  match ← get with
  | .error err => if err.reason = .notFound then pure (.ok {}) else pure (.error err.text)
  | .ok rs => reconcileObject lib rs

end reconcile

/-- The Secret is read once, and everything after it depends on the client alone. -/
theorem obeys_rancherClient {Φ : History interface → interface.Call → Prop} {α : Type}
    {Ψ : History interface → α → Prop} {h : History interface} {lib : Externals}
    {rs : RancherSession} {f : Except NoClient Rancher.HTTPClient → M α}
    (hask : Φ h (.inr (.getSecret rs.spec.credentialsSecretRef.namespacedName)))
    (hf : ∀ r : Except ApiError StoredSecret, Program.Obeys Φ Ψ
      (⟨.inr (.getSecret rs.spec.credentialsSecretRef.namespacedName),r⟩::h)
      (f (clientFrom lib (named rs.spec.credentialsSecretRef r)))) :
    Program.Obeys Φ Ψ h (rancherClient lib rs >>= f) := ⟨hask,hf⟩

end LosantDevice.Session

import LosantDevice.Api.V1alpha1
import LosantDevice.Go.Http

/-!
# The Losant client

`internal/losant/client.go`: each method of the client as a program over HTTP requests. A
request is named by what it asks for; its method and path are those of the source, since they
appear in the texts of errors.
-/
namespace LosantDevice.Losant
open Effect Go

structure EdgeDeploymentStatus where
  flowID : String := ""
  currentVersion : String := ""
  desiredVersion : String := ""
  deriving DecidableEq

structure Tag where
  key : String
  value : String
  deriving DecidableEq

structure DeviceAttribute where
  name : String
  dataType : String
  deriving DecidableEq

structure Device where
  deviceID : String
  name : String
  tags : List Tag := []
  deriving DecidableEq

structure AccessKey where
  keyID : String
  key : String
  secret : String
  deriving DecidableEq

/-- An error of the client: its text, and whether it wraps `ErrWorkflowNotFound`. -/
structure Error where
  text : String
  workflowNotFound : Bool := false
  deriving DecidableEq

/-- The body of a request that creates a device; what is absent is not sent. -/
structure DevicePayload where
  name : String
  deviceClass : String
  tags : List Tag
  deviceRecipeID : Option String
  gatewayID : Option String
  attributes : Option (List DeviceAttribute)
  deriving DecidableEq

inductive Request
  | application (app : String)
  | listDevices (app name : String)
  | createDevice (app : String) (payload : DevicePayload)
  | patchAttributes (app deviceID : String) (attrs : List DeviceAttribute)
  | createKey (app description : String)
  | deleteDevice (app deviceID : String)
  | release (app flowID version : String) (deviceIDs : List String)
  | deployments (app deviceID : String)
  deriving DecidableEq

namespace Request

/-- What the body of a response to the request is decoded to. -/
def Decoded : Request → Type
  | listDevices _ _ => List Device
  | createDevice _ _ => Device
  | createKey _ _ => AccessKey
  | deployments _ _ => List EdgeDeploymentStatus
  | _ => Unit

def method : Request → String
  | application _ | listDevices _ _ | deployments _ _ => "GET"
  | createDevice _ _ | createKey _ _ | release _ _ _ _ => "POST"
  | patchAttributes _ _ _ => "PATCH"
  | deleteDevice _ _ => "DELETE"

def apiBase : String := "https://api.losant.com"

def path : Request → String
  | application app => apiBase ++ "/applications/" ++ app
  | listDevices app name => apiBase ++ "/applications/" ++ app ++
      "/devices?filterField=name&filter=" ++ queryEscape name
  | createDevice app _ => apiBase ++ "/applications/" ++ app ++ "/devices"
  | patchAttributes app id _ | deleteDevice app id =>
      apiBase ++ "/applications/" ++ app ++ "/devices/" ++ id
  | createKey app _ => apiBase ++ "/applications/" ++ app ++ "/keys"
  | release app _ _ _ => apiBase ++ "/applications/" ++ app ++ "/edge/deployments/release"
  | deployments app id => apiBase ++ "/applications/" ++ app ++
      "/edge/deployments?deviceId=" ++ queryEscape id

end Request

structure HTTPClient where
  token : String
  applicationID : String
  deriving DecidableEq

def newHTTPClient (secret : Secret) (applicationID : String) : Except String HTTPClient :=
  match secret.data.lookup "api-token" with
  | none => .error ("provisioning secret " ++ secret.namespace_ ++ "/" ++ secret.name ++
      " missing key \"api-token\"")
  | some token => .ok ⟨token,applicationID⟩

/-- Requests go out with the token of the client. -/
def http : Interface where
  Call := String × Request
  Answer r := Reply r.2.Decoded

/-- What `doRequest` makes of a reply: the decoding of the body, or an error. -/
def interpret (req : Request) :
    Reply req.Decoded → Except String (Except String req.Decoded)
  | .unbuilt err => .error ("build request: " ++ err)
  | .failed err => .error ("losant api " ++ req.method ++ " " ++ req.path ++ ": " ++ err)
  | .unread err => .error ("read response body: " ++ err)
  | .response status body decoded =>
    if 400 ≤ status then
      .error ("losant api " ++ req.method ++ " " ++ req.path ++ ": status " ++ toString status ++
        ": " ++ body)
    else .ok decoded

/-- The error of `doRequest`, if any, when the body is not looked at. -/
def sent {β : Type} : Except String (Except String β) → Except Error Unit
  | .error err => .error { text := err }
  | .ok _ => .ok ()

/-- The decoded body; `what` says in an error what was decoded. -/
def fetched {β : Type} (what : String) : Except String (Except String β) → Except Error β
  | .error err => .error { text := err }
  | .ok (.error err) => .error { text := "decode " ++ what ++ " response: " ++ err }
  | .ok (.ok x) => .ok x

namespace HTTPClient
variable (c : HTTPClient)

def doRequest (req : Request) : Program http (Except String (Except String req.Decoded)) := do
  let reply ← Program.perform (I := http) (c.token,req)
  pure (interpret req reply)

/-- A request whose response body is not looked at. -/
def send (req : Request) : Program http (Except Error Unit) := do
  let r ← c.doRequest req
  pure (sent r)

/-- A request whose response body is decoded. -/
def fetch (req : Request) (what : String) : Program http (Except Error req.Decoded) := do
  let r ← c.doRequest req
  pure (fetched what r)

def ping : Program http (Except Error Unit) := c.send (.application c.applicationID)

def findDeviceByName (app name : String) : Program http (Except Error (Option Device)) := do
  match ← c.fetch (.listDevices app name) "device list" with
  | .error err => pure (.error err)
  | .ok items => pure (.ok (List.head? (α := Device) items))

def createDevice (app name deviceClass recipeID gatewayID : String) (tags : List Tag)
    (attrs : List DeviceAttribute) : Program http (Except Error String) := do
  let payload : DevicePayload :=
    { name, deviceClass, tags
      deviceRecipeID := if recipeID ≠ "" then some recipeID else none
      gatewayID := if gatewayID ≠ "" then some gatewayID else none
      attributes := if attrs ≠ [] then some attrs else none }
  match ← c.fetch (.createDevice app payload) "create device" with
  | .error err => pure (.error err)
  | .ok dev =>
    if Device.deviceID dev = "" then
      pure (.error { text := "create device: empty deviceId in response" })
    else pure (.ok (Device.deviceID dev))

def patchDeviceAttributes (app deviceID : String) (attrs : List DeviceAttribute) :
    Program http (Except Error Unit) :=
  c.send (.patchAttributes app deviceID attrs)

/-- The common shape of the two `Ensure` methods: look the device up by name, and either patch
its attributes or create it. -/
def ensureDevice (app name deviceClass recipeID gatewayID : String) (tags : List Tag)
    (attrs : List DeviceAttribute) : Program http (Except Error String) := do
  match ← c.findDeviceByName app name with
  | .error err => pure (.error err)
  | .ok (some existing) =>
    match ← c.patchDeviceAttributes app existing.deviceID attrs with
    | .error err => pure (.error err)
    | .ok _ => pure (.ok existing.deviceID)
  | .ok none => c.createDevice app name deviceClass recipeID gatewayID tags attrs

end HTTPClient

def clusterDeviceAttributes : List DeviceAttribute :=
  [⟨"health_score","number"⟩,⟨"health_status","string"⟩,⟨"total_nodes","number"⟩,
    ⟨"ready_nodes","number"⟩,⟨"unhealthy_nodes","number"⟩,⟨"total_pods","number"⟩,
    ⟨"running_pods","number"⟩,⟨"failed_pods","number"⟩,⟨"pending_pods","number"⟩,
    ⟨"crashloop_pods","number"⟩,⟨"degraded_pvcs","number"⟩,⟨"coredns_healthy","boolean"⟩,
    ⟨"event_warnings","number"⟩]

def nodeDeviceAttributes : List DeviceAttribute :=
  [⟨"health_score","number"⟩,⟨"health_status","string"⟩,⟨"ready","boolean"⟩,
    ⟨"memory_pressure","boolean"⟩,⟨"disk_pressure","boolean"⟩,⟨"pid_pressure","boolean"⟩,
    ⟨"pod_count","number"⟩,⟨"not_ready_pods","number"⟩,⟨"crashloop_pods","number"⟩,
    ⟨"cpu_request_pct","number"⟩,⟨"mem_request_pct","number"⟩]

def clusterDeviceName (clusterName : String) : String := "k8s-cluster-" ++ clusterName

def nodeDeviceName (clusterName nodeName : String) : String :=
  "k8s-node-" ++ clusterName ++ "-" ++ nodeName

def tagsFromSpec (spec : LosantSyncSpec) : List Tag :=
  [⟨"clusterName",spec.clusterName⟩,⟨"region",spec.region⟩] ++
    (if spec.rancherURL ≠ "" then [⟨"rancherURL",spec.rancherURL⟩] else []) ++
    (if spec.tags.manager ≠ "" then [⟨"manager",spec.tags.manager⟩] else []) ++
    (if spec.tags.uid ≠ "" then [⟨"uid",spec.tags.uid⟩] else []) ++
    (if spec.tags.gps ≠ "" then [⟨"gps",spec.tags.gps⟩] else [])

/-- The test of `DeleteDevice` on the text of an error. -/
def notFoundIsNil : Except Error Unit → Except Error Unit
  | .error err => if contains err.text "status 404" then .ok () else .error err
  | .ok _ => .ok ()

namespace HTTPClient
variable (c : HTTPClient)

def ensureClusterDevice (spec : LosantSyncSpec) : Program http (Except Error String) :=
  c.ensureDevice spec.applicationID (clusterDeviceName spec.clusterName) "edgeCompute"
    spec.deviceRecipeID "" (tagsFromSpec spec) clusterDeviceAttributes

def ensureNodeDevice (spec : LosantSyncSpec) (nodeName gatewayID : String) :
    Program http (Except Error String) :=
  c.ensureDevice spec.applicationID (nodeDeviceName spec.clusterName nodeName) "peripheral"
    spec.deviceRecipeID gatewayID (tagsFromSpec spec ++ [⟨"nodeName",nodeName⟩])
    nodeDeviceAttributes

-- The device is not part of the request: the key is created for the whole application.
def createDeviceAccessKey (app _deviceID name : String) :
    Program http (Except Error AccessKey) := do
  match ← c.fetch (.createKey app name) "access key" with
  | .error err => pure (.error err)
  | .ok resp =>
    if AccessKey.key resp = "" ∨ AccessKey.secret resp = "" then
      pure (.error { text := "create device access key: empty key or secret in response" })
    else pure (.ok resp)

def deleteDevice (app deviceID : String) : Program http (Except Error Unit) := do
  let r ← c.send (.deleteDevice app deviceID)
  pure (notFoundIsNil r)

def releaseWorkflow (app deviceID flowID version : String) : Program http (Except Error Unit) := do
  match ← c.send (.release app flowID version [deviceID]) with
  | .error err =>
    if contains err.text "status 404" then
      pure (.error { text := "workflow not found: " ++ err.text, workflowNotFound := true })
    else pure (.error err)
  | .ok _ => pure (.ok ())

def getEdgeDeployments (app deviceID : String) :
    Program http (Except Error (List EdgeDeploymentStatus)) :=
  c.fetch (.deployments app deviceID) "edge deployments"

end HTTPClient

/-- The methods of `LosantClient` the controller calls. -/
inductive Method
  | ping
  | ensureClusterDevice (spec : LosantSyncSpec)
  | ensureNodeDevice (spec : LosantSyncSpec) (nodeName gatewayID : String)
  | createDeviceAccessKey (app deviceID name : String)
  | deleteDevice (app deviceID : String)
  | releaseWorkflow (app deviceID flowID version : String)
  | getEdgeDeployments (app deviceID : String)

def Method.Answer : Method → Type
  | ping | deleteDevice _ _ | releaseWorkflow _ _ _ _ => Except Error Unit
  | ensureClusterDevice _ | ensureNodeDevice _ _ _ => Except Error String
  | createDeviceAccessKey _ _ _ => Except Error AccessKey
  | getEdgeDeployments _ _ => Except Error (List EdgeDeploymentStatus)

def HTTPClient.implementation (c : HTTPClient) : (m : Method) → Program http m.Answer
  | .ping => c.ping
  | .ensureClusterDevice spec => c.ensureClusterDevice spec
  | .ensureNodeDevice spec nodeName gatewayID => c.ensureNodeDevice spec nodeName gatewayID
  | .createDeviceAccessKey app deviceID name => c.createDeviceAccessKey app deviceID name
  | .deleteDevice app deviceID => c.deleteDevice app deviceID
  | .releaseWorkflow app deviceID flowID version => c.releaseWorkflow app deviceID flowID version
  | .getEdgeDeployments app deviceID => c.getEdgeDeployments app deviceID

theorem run_deleteDevice (c : HTTPClient) (app id : String) (s : Program.Strategy http)
    (h : History http) : (Program.run s h (c.deleteDevice app id)).2 =
      notFoundIsNil (sent (interpret (.deleteDevice app id)
        (s h (c.token,.deleteDevice app id)))) := rfl

theorem statusText_contains (req : Request) (body : String) :
    contains ("losant api " ++ req.method ++ " " ++ req.path ++ ": status " ++ toString 404 ++
      ": " ++ body) "status 404" = true := by
  have htext : "losant api " ++ req.method ++ " " ++ req.path ++ ": status " ++ toString 404 ++
      ": " ++ body = "losant api " ++ req.method ++ " " ++ req.path ++ ": " ++
        ("status 404" ++ (": " ++ body)) := by
    apply String.toList_injective
    simp only [String.toList_append,List.append_assoc]
    rfl
  rw [htext]
  exact contains_append _ _ _

/-- A device that is gone already counts as deleted. -/
theorem deleteDevice_gone (c : HTTPClient) (app id : String) (s : Program.Strategy http)
    (h : History http) {status : ℕ} {body : String} {decoded : Except String Unit}
    (hreply : s h (c.token,.deleteDevice app id) = .response status body decoded)
    (hstatus : status < 400 ∨ status = 404) :
    (Program.run s h (c.deleteDevice app id)).2 = .ok () := by
  rw [run_deleteDevice,hreply]
  rcases hstatus with hlt | rfl
  · simp [interpret,Nat.not_le.mpr hlt,sent,notFoundIsNil]
  · have hge : 400 ≤ 404 := by decide
    have hc := statusText_contains (.deleteDevice app id) body
    simp only [interpret,if_pos hge,sent,notFoundIsNil]
    rw [if_pos hc]

end LosantDevice.Losant

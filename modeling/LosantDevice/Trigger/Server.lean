import LosantDevice.Session.Reconcile

/-!
# The trigger server

`internal/trigger/server.go`: the handler of `POST /rancher` as a program over the calls it
makes on the API server. The listener is left out, and so is logging.
-/
namespace LosantDevice.Trigger
open Effect Kube

structure Server where
  namespace_ : String
  deriving DecidableEq

structure RancherRequest where
  action : String
  ttlSeconds : ℤ := 0
  deriving DecidableEq

/-- A request. The body is `none` where it does not decode. -/
structure Request where
  method : String
  body : Option RancherRequest
  deriving DecidableEq

structure Response where
  status : ℕ
  body : String := ""
  deriving DecidableEq

/-- `http.Error`. -/
def httpError (text : String) (status : ℕ) : Response := ⟨status,text ++ "\n"⟩

inductive Call
  | listLosantSyncs
  | create (key : NamespacedName) (spec : RancherSessionSpec)
  | get (key : NamespacedName)
  | delete (key : NamespacedName)

def interface : Interface where
  Call := Call
  Answer
    | .listLosantSyncs => Except ApiError (List LosantSync)
    | .create _ _ => Except ApiError Unit
    | .get _ => Except ApiError RancherSession
    | .delete _ => Except ApiError Unit

abbrev M := Program interface

def listLosantSyncs : M (Except ApiError (List LosantSync)) :=
  Program.perform (I := interface) .listLosantSyncs
def create (key : NamespacedName) (spec : RancherSessionSpec) : M (Except ApiError Unit) :=
  Program.perform (I := interface) (.create key spec)
def get (key : NamespacedName) : M (Except ApiError RancherSession) :=
  Program.perform (I := interface) (.get key)
def delete (key : NamespacedName) : M (Except ApiError Unit) :=
  Program.perform (I := interface) (.delete key)

namespace Server
variable (s : Server)

/-- The name of the first one; there is meant to be only one. -/
def losantSyncName : M (Except String String) := do
  match ← listLosantSyncs with
  | .error err => pure (.error ("list LosantSync: " ++ err.text))
  | .ok [] => pure (.error "no LosantSync CR found")
  | .ok (ls::_) => pure (.ok ls.metadata.name)

def handleConnect (name : String) (ttlSeconds : ℤ) : M Response := do
  let ttl := if ttlSeconds ≤ 0 then 3600 else ttlSeconds
  match ← create ⟨s.namespace_,name⟩
      { credentialsSecretRef := ⟨"rancher-credentials",s.namespace_⟩, ttlSeconds := ttl } with
  | .error err =>
    if err.reason = .alreadyExists then pure (httpError "RancherSession already exists" 409)
    else pure (httpError "failed to create session" 500)
  | .ok _ => pure ⟨202,""⟩

/-- The object is deleted under the name it was read with, whatever has become of it since. -/
def handleDisconnect (name : String) : M Response := do
  match ← get ⟨s.namespace_,name⟩ with
  | .error err =>
    if err.reason = .notFound then pure (httpError "RancherSession not found" 404)
    else pure (httpError "failed to look up session" 500)
  | .ok rs =>
    match ← delete ⟨s.namespace_,rs.metadata.name⟩ with
    | .error err =>
      if err.reason = .notFound then pure (httpError "RancherSession not found" 404)
      else pure (httpError "failed to delete session" 500)
    | .ok _ => pure ⟨202,""⟩

/-- What is done once the name is known, or could not be found out. -/
def handleAction (lib : Externals) (req : RancherRequest) : Except String String → M Response
  | .error _ => pure (httpError "internal error: could not determine session name" 500)
  | .ok lsName =>
    if req.action = "connect" then s.handleConnect lsName req.ttlSeconds
    else if req.action = "disconnect" then s.handleDisconnect lsName
    else pure (httpError ("unknown action " ++ lib.quote req.action ++
      "; expected connect or disconnect") 400)

def handleRancher (lib : Externals) (r : Request) : M Response :=
  if r.method ≠ "POST" then pure (httpError "method not allowed" 405)
  else match r.body with
    | none => pure (httpError "invalid request body" 400)
    | some req => losantSyncName >>= s.handleAction lib req

end Server
end LosantDevice.Trigger

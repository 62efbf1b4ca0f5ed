import LosantDevice.Session.World
import LosantDevice.Kube.Ownership

/-!
# What a reconcile of a session calls and returns

One statement about the whole of `Reconcile`: each call is one that `Permits` allows after the
calls before it. A job first works on the copy it has read; once it has stored a phase it is
connecting or cleaning up, and the stored status is the one in its copy.
-/
namespace LosantDevice.Session
open Effect Kube Go

abbrev Past := History interface

/-- What the calls of a job say. -/
structure View where
  /-- The cluster it has found or created. -/
  adopted : Option String := none
  /-- That cluster, until a status is stored. -/
  unsaved : Option String := none
  /-- A status was refused while a cluster was unsaved. -/
  lost : Bool := false
  /-- The namespace is gone. -/
  wiped : Bool := false
  /-- The deletion of the cluster or of the namespace has failed. -/
  failed : Bool := false
  deriving DecidableEq

def View.adopt (v : View) (id : String) : View := { v with adopted := some id, unsaved := some id }

def observe : Event interface → View → View
  | ⟨.inl (.updateStatus _),r⟩,v =>
    match (r : Except ApiError ℕ) with
    | .ok _ => { v with unsaved := none }
    | .error _ => { v with lost := v.lost || v.unsaved.isSome }
  | ⟨.inr (.rancher _ (.findCluster _)),r⟩,v =>
    match (r : Except Rancher.Error (Option String)) with
    | .ok (some id) => v.adopt id
    | _ => v
  | ⟨.inr (.rancher _ (.createCluster _)),r⟩,v =>
    match (r : Except Rancher.Error String) with
    | .ok id => v.adopt id
    | .error _ => v
  | ⟨.inr (.rancher _ (.deleteCluster _)),r⟩,v =>
    match (r : Except Rancher.Error Unit) with
    | .ok _ => v
    | .error _ => { v with failed := true }
  | ⟨.inr (.deleteNamespace _),r⟩,v =>
    if World.namespaceGone r then { v with wiped := true } else { v with failed := true }
  | _,v => v

def view : Past → View
  | [] => {}
  | ev::h => observe ev (view h)

/-- The cluster that the call finds or creates. -/
def adopts : Event interface → Option String
  | ⟨.inr (.rancher _ (.findCluster _)),r⟩ =>
    match (r : Except Rancher.Error (Option String)) with
    | .ok (some id) => some id
    | _ => none
  | ⟨.inr (.rancher _ (.createCluster _)),r⟩ =>
    match (r : Except Rancher.Error String) with
    | .ok id => some id
    | .error _ => none
  | _ => none

/-- The call deletes the namespace, or finds that it is gone. -/
def wipes : Event interface → Bool
  | ⟨.inr (.deleteNamespace _),r⟩ => World.namespaceGone r
  | _ => false

/-- The deletion of the cluster or of the namespace fails. -/
def failsDeletion : Event interface → Bool
  | ⟨.inr (.rancher _ (.deleteCluster _)),r⟩ =>
    match (r : Except Rancher.Error Unit) with
    | .ok _ => false
    | .error _ => true
  | ⟨.inr (.deleteNamespace _),r⟩ => !World.namespaceGone r
  | _ => false

/-- What an event adds to the view. -/
theorem observe_fields (ev : Event interface) (v : View) :
    (observe ev v).adopted = (adopts ev).or v.adopted ∧
      (observe ev v).wiped = (wipes ev || v.wiped) ∧
      (observe ev v).failed = (failsDeletion ev || v.failed) := by
  fun_cases observe ev v with
  | case4 => simp [adopts,wipes,failsDeletion, *]
  | case9 _ _ _ hr | case10 _ _ _ hr => simp [adopts,wipes,failsDeletion,hr]
  | case11 => simp [adopts,wipes,failsDeletion, *]
  | _ => exact ⟨rfl,rfl,rfl⟩

theorem observe_adopted (ev : Event interface) (v : View) :
    (observe ev v).adopted = (adopts ev).or v.adopted := (observe_fields ev v).1

theorem observe_wiped (ev : Event interface) (v : View) :
    (observe ev v).wiped = (wipes ev || v.wiped) := (observe_fields ev v).2.1

theorem observe_failed (ev : Event interface) (v : View) :
    (observe ev v).failed = (failsDeletion ev || v.failed) := (observe_fields ev v).2.2

theorem exists_of_wipes {ev : Event interface} (hw : wipes ev = true) :
    ∃ n r, ev = ⟨.inr (.deleteNamespace n),r⟩ ∧ World.namespaceGone r = true := by
  revert hw
  fun_cases wipes ev with
  | case1 n r => exact fun hr => ⟨n,r,rfl,hr⟩
  | case2 => exact fun hw => by cases hw

theorem exists_of_failsDeletion {ev : Event interface} (hf : failsDeletion ev = true) :
    (∃ rc id r, ev = ⟨.inr (.rancher rc (.deleteCluster id)),r⟩) ∨
      ∃ n r, ev = ⟨.inr (.deleteNamespace n),r⟩ := by
  revert hf
  fun_cases failsDeletion ev with
  | case1 rc id | case2 rc id => exact fun _ => .inl ⟨rc,id,_,rfl⟩
  | case3 n r => exact fun _ => .inr ⟨n,r,rfl⟩
  | case4 => exact fun hf => by cases hf

theorem wiped_cons {ev : Event interface} {h : Past} (hw : (view (ev::h)).wiped = true) :
    (∃ n r, ev = ⟨.inr (.deleteNamespace n),r⟩ ∧ World.namespaceGone r = true) ∨
      (view h).wiped = true := by
  change (observe ev (view h)).wiped = true at hw
  rw [observe_wiped,Bool.or_eq_true] at hw
  exact hw.imp_left exists_of_wipes

/-- What a job has adopted some call has found or created. -/
theorem adopts_of_adopted {h : Past} {id : String} (ha : (view h).adopted = some id) :
    ∃ ev ∈ h, adopts ev = some id := by
  induction h with
  | nil => cases ha
  | cons ev h ih =>
    have ha : (observe ev (view h)).adopted = some id := ha
    rw [observe_adopted] at ha
    rcases Option.or_eq_some_iff.mp ha with hnew | ⟨-,hold⟩
    · exact ⟨ev,List.mem_cons_self,hnew⟩
    · obtain ⟨ev',hm,hev'⟩ := ih hold
      exact ⟨ev',List.mem_cons_of_mem _ hm,hev'⟩

/-! ## What a call does to the world -/

inductive World.Recorded (w : World) : (e : Call) → calls.Answer e → World → Prop
  | kept {e r w'} (clusters : w'.clusters = w.clusters) (used : w'.used = w.used)
      (created : w'.created = w.created)
      (applied : w'.applied = true → w.applied = true ∨ ∃ doc, e = .apply doc)
      (quiet : ∀ rc m, e = .rancher rc (.createCluster m) → adopts ⟨.inr e,r⟩ = none) :
      Recorded w e r w'
  | created {rc m r} (id : String) (fresh : w.Fresh id)
      (answer : ∀ id', adopts ⟨.inr (.rancher rc (.createCluster m)),r⟩ = some id' → id' = id) :
      Recorded w (.rancher rc (.createCluster m)) r (w.create ⟨id,m⟩)
  | erased {rc id r} : Recorded w (.rancher rc (.deleteCluster id)) r (w.erase id)

theorem World.recorded {w w' : World} {e : Call} {r : calls.Answer e} (ha : w.answers e r w') :
    w.Recorded e r w' := by
  match e with
  | .now _ | .getSecret _ | .fetchManifest _ _ | .getDeployment _
  | .rancher _ (.getRegistrationToken _) | .rancher _ (.getCluster _) =>
    obtain rfl : w' = w := ha
    exact .kept rfl rfl rfl .inl nofun
  | .rancher _ (.findCluster _) =>
    match (r : Except Rancher.Error (Option String)) with
    | .ok (some _) =>
      obtain ⟨rfl,-⟩ := ha
      exact .kept rfl rfl rfl .inl nofun
    | .ok none | .error _ =>
      obtain rfl : w' = w := ha
      exact .kept rfl rfl rfl .inl nofun
  | .rancher _ (.createCluster m) =>
    match (r : Except Rancher.Error String) with
    | .ok id =>
      obtain ⟨hf,rfl⟩ := ha
      exact .created id hf fun id' h => (Option.some.inj h).symm
    | .error _ =>
      obtain rfl | ⟨id,hf,rfl⟩ := ha
      · exact .kept rfl rfl rfl .inl fun _ _ _ => rfl
      · exact .created id hf nofun
  | .rancher _ (.deleteCluster _) =>
    obtain rfl | rfl := ha
    · exact .kept rfl rfl rfl .inl nofun
    · exact .erased
  | .apply doc =>
    match (r : Except ApiError Unit) with
    | .ok _ =>
      obtain rfl := ha
      exact .kept rfl rfl rfl (fun _ => .inr ⟨doc,rfl⟩) nofun
    | .error _ =>
      obtain rfl | rfl := ha
      · exact .kept rfl rfl rfl .inl nofun
      · exact .kept rfl rfl rfl (fun _ => .inr ⟨doc,rfl⟩) nofun
  | .deleteNamespace _ =>
    obtain ⟨rfl,-⟩ | ⟨rfl,-⟩ := ha
    · exact .kept rfl rfl rfl .inl nofun
    · exact .kept rfl rfl rfl nofun nofun

/-! ## The stages of a job -/

/-- Not being deleted, held by the finalizer, not suspended. -/
structure Live (b : RancherSession) : Prop where
  live : b.metadata.deletionTimestamp = none
  held : rancherFinalizer ∈ b.metadata.finalizers
  running : b.spec.suspend = false

/-- Being deleted and still held. -/
structure Closing (b : RancherSession) : Prop where
  deleting : b.metadata.deletionTimestamp.isSome
  held : rancherFinalizer ∈ b.metadata.finalizers

/-- The connect sequence starts from such a status. -/
def Starts (t : RancherSessionStatus) : Prop :=
  t.phase = .unset ∨ t.phase = .connecting ∧ t.manifestApplied = false

/-- The job works on the copy it has read. -/
structure Reading (h : Past) (b : RancherSession) : Prop where
  copy : lastCopy h = some b
  fresh : owned h = false
  view : view h = {}

/-- The job has stored the phase `Connecting`. -/
structure Connecting (h : Past) (b : RancherSession) : Prop where
  copy : lastCopy h = some b
  owned : owned h = true
  live : Live b
  phase : b.status.phase = .connecting
  start : ∃ k b₀, k <:+ h ∧ lastCopy k = some b₀ ∧ Starts b₀.status ∧
    b₀.status.manifestApplied = b.status.manifestApplied
  clean : (view h).wiped = false ∧ (view h).failed = false

/-- The job has stored the phase `Disconnecting`. -/
structure Cleaning (h : Past) (b : RancherSession) : Prop where
  copy : lastCopy h = some b
  owned : owned h = true
  held : Live b ∨ Closing b
  phase : b.status.phase = .disconnecting
  adopted : (view h).adopted = none ∧ (view h).unsaved = none

/-- The recorded cluster, if there is one, was deleted. -/
def Cleared (h : Past) (b : RancherSession) : Prop :=
  b.status.rancherClusterID ≠ "" → ∃ c : Rancher.HTTPClient,
    (⟨.inr (.rancher c (.deleteCluster b.status.rancherClusterID)),.ok ()⟩ : Event interface) ∈ h

/-- The recorded cluster was deleted, and after it the namespace. -/
def Cleaned (h : Past) (b : RancherSession) : Prop :=
  ∃ r k, (⟨.inr (.deleteNamespace cattleSystemNamespace),r⟩::k : Past) <:+ h ∧
    World.namespaceGone r = true ∧ Cleared k b

/-- The Secret that the job has read makes no client. -/
def Unusable (lib : Externals) (h : Past) (b : RancherSession) (e : NoClient) : Prop :=
  ∃ r, (⟨.inr (.getSecret b.spec.credentialsSecretRef.namespacedName),r⟩ : Event interface) ∈ h ∧
    clientFrom lib (named b.spec.credentialsSecretRef r) = .error e

theorem Unusable.later {lib : Externals} {h h' : Past} {b : RancherSession} {e : NoClient}
    (hu : Unusable lib h b e) (hs : h <:+ h') : Unusable lib h' b e := by
  obtain ⟨r,hr,hc⟩ := hu
  exact ⟨r,hs.subset hr,hc⟩

/-- An answer that keeps the manifest from being applied. -/
def Spoils : Event interface → Prop
  | ⟨.inr (.getSecret _),r⟩ => ∃ err, (r : Except ApiError StoredSecret) = .error err
  | ⟨.inr (.fetchManifest _ _),r⟩ =>
    ∀ status m, (r : Fetched) = .response status (.ok m) → 400 ≤ status ∨ m.rest ≠ none
  | ⟨.inr (.apply _),r⟩ => ∃ err, (r : Except ApiError Unit) = .error err
  | _ => False

theorem spoils_cases {ev : Event interface} (hs : Spoils ev) :
    (∃ ref err, ev = ⟨.inr (.getSecret ref),.error err⟩) ∨
    (∃ ca url r, ev = ⟨.inr (.fetchManifest ca url),r⟩ ∧
      ∀ status m, (r : Fetched) = .response status (.ok m) → 400 ≤ status ∨ m.rest ≠ none) ∨
    ∃ d err, ev = ⟨.inr (.apply d),.error err⟩ := by
  revert hs
  fun_cases Spoils ev with
  | case1 ref r =>
    rintro ⟨err,rfl⟩
    exact .inl ⟨ref,err,rfl⟩
  | case2 ca url r => exact fun hs => .inr (.inl ⟨ca,url,r,rfl,hs⟩)
  | case3 d r =>
    rintro ⟨err,rfl⟩
    exact .inr (.inr ⟨d,err,rfl⟩)
  | case4 => exact False.elim

/-- Such an answer came after the cluster was known. -/
def Trouble (h : Past) : Prop :=
  ∃ ev k, ev::k <:+ h ∧ (view k).adopted.isSome ∧ Spoils ev

/-- Why a session fails. -/
inductive Cause (lib : Externals) (h : Past) (b : RancherSession) : Prop
  | unusable {e} (reading : Reading h b) (live : Live b) (secret : Unusable lib h b e)
  | timedOut {t expires : Time} (reading : Reading h b) (live : Live b)
      (phase : b.status.phase = .connecting) (expiry : b.status.expiresAt = some expires)
      (clock : (⟨.inr (.now .agentTimeout),t⟩ : Event interface) ∈ h) (late : expires < t)
  | spoiled (connecting : Connecting h b) (adopted : (view h).adopted.isSome) (trouble : Trouble h)

/-! ## The manifest and the agent -/

/-- The objects that a job has applied, in order, and what came of each. -/
def applies : Past → List (Document × Except ApiError Unit)
  | [] => []
  | ⟨.inr (.apply d),r⟩::h => applies h ++ [((d,r) : Document × Except ApiError Unit)]
  | _::h => applies h

/-- A document without a kind is skipped. -/
def Manifest.objects (m : Manifest) : List Document := m.documents.filter (·.kind ≠ "")

/-- The job has fetched the manifest of the cluster from the address that Rancher gave for it. -/
def Got (h : Past) (id : String) (m : Manifest) : Prop :=
  ∃ (c : Rancher.HTTPClient) (url ca : String) (status : ℕ),
    (⟨.inr (.rancher c (.getRegistrationToken id)),.ok url⟩ : Event interface) ∈ h ∧
    (⟨.inr (.fetchManifest ca url),.response status (.ok m)⟩ : Event interface) ∈ h ∧ status < 400

/-- All of the manifest of the cluster is applied. -/
def Complete (h : Past) (id : String) : Prop :=
  ∃ m, Got h id m ∧ m.rest = none ∧ applies h = m.objects.map (·,.ok ())

/-- The objects before this one in the manifest are applied. -/
def NextObject (h : Past) (d : Document) : Prop :=
  ∃ id m ds, Got h id m ∧ applies h = ds.map (·,.ok ()) ∧ ds ++ [d] <+: m.objects

/-- What the latest read of the Deployment showed. -/
def polled : Past → Option ℤ
  | [] => none
  | ⟨.inr (.getDeployment _),r⟩::_ =>
    match (r : Except ApiError ℤ) with
    | .ok n => some n
    | .error _ => none
  | _::h => polled h

/-! ## The calls -/

/-- What a status keeps of the copy when a call has failed. -/
structure Kept (h : Past) (b : RancherSession) (t : RancherSessionStatus) : Prop where
  id : t.rancherClusterID = (view h).adopted.getD b.status.rancherClusterID
  applied : t.manifestApplied = b.status.manifestApplied
  connectedAt : t.connectedAt = b.status.connectedAt
  expiresAt : t.expiresAt = b.status.expiresAt

/-- The statuses a job may write from the copy `b`. -/
inductive StatusWrite (lib : Externals) (h : Past) (b : RancherSession) :
    RancherSessionStatus → Prop
  | connecting (reading : Reading h b) (live : Live b) (start : Starts b.status) :
      StatusWrite lib h b { b.status with phase := .connecting }
  | manifest {t} (now : Time) (connecting : Connecting h b) (phase : t.phase = .connecting)
      (id : (view h).adopted = some t.rancherClusterID) (applied : t.manifestApplied = true)
      (connectedAt : t.connectedAt = some now)
      (expiresAt : t.expiresAt = some ((now : ℤ)+agentReadyTimeout : ℤ))
      (complete : Complete h t.rancherClusterID) : StatusWrite lib h b t
  | connected {t} (now : Time) (reading : Reading h b) (live : Live b)
      (before : b.status.phase = .connecting ∧ b.status.manifestApplied = true)
      (phase : t.phase = .connected) (id : t.rancherClusterID = b.status.rancherClusterID)
      (applied : t.manifestApplied = true) (connectedAt : t.connectedAt = some now)
      (expiresAt : t.expiresAt = some ((now : ℤ)+wrapInt64 (b.spec.ttlSeconds*second) : ℤ))
      (agent : ∃ n, polled h = some n ∧ n ≠ 0) : StatusWrite lib h b t
  | disconnecting (reading : Reading h b)
      (before : Live b ∧ b.status.phase = .connected ∨ Closing b) :
      StatusWrite lib h b { b.status with phase := .disconnecting }
  | disconnected (cleaning : Cleaning h b)
      (gone : (view h).wiped = true ∧ (view h).failed = false) (cleaned : Cleaned h b) :
      StatusWrite lib h b { b.status with
        phase := .disconnected, lastTransitionMessage := "session disconnected" }
  | unreachable {t} (stage : Connecting h b ∨ Cleaning h b ∨
        Reading h b ∧ Live b ∧ b.status.phase = .connected)
      (phase : t.phase = b.status.phase) (kept : Kept h b t) : StatusWrite lib h b t
  | failed {t} (cause : Cause lib h b) (phase : t.phase = .failed) (kept : Kept h b t) :
      StatusWrite lib h b t

/-- The finalizer is added to a copy that is not being deleted. -/
def Attaches (b o : RancherSession) : Prop :=
  b.metadata.deletionTimestamp = none ∧ rancherFinalizer ∉ b.metadata.finalizers ∧
    o = { b with metadata := { b.metadata with
      finalizers := b.metadata.finalizers ++ [rancherFinalizer] } }

/-- The finalizer is removed once everything is gone or, without a client, the namespace. -/
structure Releases (lib : Externals) (h : Past) (b o : RancherSession) : Prop where
  closing : Closing b
  gone : (view h).wiped = true ∧ (view h).failed = false
  cleaned : owned h = true ∧ b.status.phase = .disconnected ∧ Cleaned h b ∨
    owned h = false ∧ ∃ e, Unusable lib h b e ∧ e.nilPointer = false
  object : o = { b with metadata := { b.metadata with
    finalizers := b.metadata.finalizers.filter (· ≠ rancherFinalizer) } }

/-- The requests to Rancher. A cluster is created right after none was found. -/
def Asks (h : Past) : Rancher.Method → Prop
  | .findCluster n => ∃ b, Connecting h b ∧ n = displayName b ∧ (view h).adopted = none
  | .createCluster n => ∃ b, Connecting h b ∧ n = displayName b ∧ (view h).adopted = none ∧
      ∃ (c : Rancher.HTTPClient) (k : Past), h = ⟨.inr (.rancher c (.findCluster n)),.ok none⟩::k
  | .getRegistrationToken id => ∃ b, Connecting h b ∧ (view h).adopted = some id
  | .getCluster id => ∃ b, Reading h b ∧ Live b ∧ b.status.phase = .connected ∧
      id = b.status.rancherClusterID
  | .deleteCluster id => ∃ b, Cleaning h b ∧ (view h).failed = false ∧
      id = b.status.rancherClusterID ∧ id ≠ ""

def Permits (lib : Externals) (h : Past) : interface.Call → Prop
  | .inl .get => h = []
  | .inl (.update o) => ∃ b, lastCopy h = some b ∧
      (Reading h b ∧ Attaches b o ∨ Releases lib h b o)
  | .inl (.updateStatus o) => ∃ b, lastCopy h = some b ∧ o.metadata = b.metadata ∧
      o.spec = b.spec ∧ StatusWrite lib h b o.status
  | .inr (.rancher _ m) => Asks h m
  | .inr (.apply d) => (∃ b, Connecting h b ∧ (view h).adopted.isSome) ∧ NextObject h d
  | .inr (.deleteNamespace n) => n = cattleSystemNamespace ∧ (view h).failed = false ∧
      ∃ b, Cleaning h b ∧ Cleared h b ∨ Reading h b ∧ Closing b ∧ ∃ e, Unusable lib h b e
  | .inr _ => True

/-- A cluster that is known has been stored, or its status was refused. -/
def Returns (h : Past) (_ : Except String Result) : Prop :=
  (view h).unsaved = none ∨ (view h).lost = true

theorem Permits.disciplined {lib : Externals} (h : Past) (e : interface.Call)
    (hp : Permits lib h e) : Disciplined h e := by
  match e with
  | .inl .get => trivial
  | .inl (.update o) =>
    obtain ⟨b,hb,⟨-,-,-,rfl⟩ | ⟨-,-,-,rfl⟩⟩ := hp
    · exact ⟨b,hb,rfl,rfl⟩
    · exact ⟨b,hb,rfl,rfl⟩
  | .inl (.updateStatus o) =>
    obtain ⟨b,hb,hm,hs,-⟩ := hp
    exact ⟨b,hb,hm,hs⟩
  | .inr _ => trivial

end LosantDevice.Session

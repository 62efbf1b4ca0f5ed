import LosantDevice.Sync.Obeys
import LosantDevice.Losant.World
import LosantDevice.Kube.Ownership
import LosantDevice.Kube.Replay

/-!
# Losant and the Secrets around a sync

The devices in Losant and every state a Secret has had, the latest first. A read of a Secret may
be answered with an outdated state. Others delete devices and write Secrets as they like; devices
with the names of one site, that is of one cluster in one application, are made only by the
controller.
-/
namespace LosantDevice.Sync
open Effect Kube Go Program Registry

structure Site where
  app : String
  clusterName : String

/-- Where Losant keeps the device of a slot. -/
def Site.place (site : Site) : Slot → Losant.Place
  | .cluster => (site.app,Losant.clusterDeviceName site.clusterName)
  | .node n => (site.app,Losant.nodeDeviceName site.clusterName n)

def Site.Own (site : Site) (k : Losant.Place) : Prop := ∃ slot, k = site.place slot

theorem Site.own_place (site : Site) (slot : Slot) : site.Own (site.place slot) := ⟨slot,rfl⟩

theorem clusterDeviceName_ne_nodeDeviceName (a b n : String) :
    Losant.clusterDeviceName a ≠ Losant.nodeDeviceName b n := by
  intro h
  have h := congrArg (fun s : String => s.toList[4]?) h
  simp [Losant.clusterDeviceName,Losant.nodeDeviceName] at h

theorem nodeDeviceName_injective (a : String) : Function.Injective (Losant.nodeDeviceName a) := by
  intro n m h
  have h := congrArg String.toList h
  simp only [Losant.nodeDeviceName,String.toList_append] at h
  exact String.toList_injective (List.append_cancel_left h)

theorem Site.place_injective (site : Site) : Function.Injective site.place := by
  intro x y h
  have hname := congrArg Prod.snd h
  match x,y with
  | .cluster,.cluster => rfl
  | .cluster,.node n => exact absurd hname (clusterDeviceName_ne_nodeDeviceName _ _ _)
  | .node n,.cluster => exact absurd hname.symm (clusterDeviceName_ne_nodeDeviceName _ _ _)
  | .node n,.node m => rw [nodeDeviceName_injective _ hname]

/-- A world in which only the methods of the Losant client change anything. -/
def onLosant {W : Type}
    (serve : W → (lc : Losant.HTTPClient) → (m : Losant.Method) → m.Answer → W → Prop) (w : W) :
    (e : Call) → calls.Answer e → W → Prop
  | .losant lc m,r,w' => serve w lc m r w'
  | _,_,w' => w' = w

theorem onLosant_cases {W : Type}
    {serve : W → (lc : Losant.HTTPClient) → (m : Losant.Method) → m.Answer → W → Prop} {w w' : W}
    {e : Call} {r : calls.Answer e} (h : onLosant serve w e r w') :
    w' = w ∧ (∀ lc m, e ≠ .losant lc m) ∨ ∃ lc m, ∃ r' : Losant.Method.Answer m,
      (⟨e,r⟩ : Event calls) = ⟨.losant lc m,r'⟩ ∧ serve w lc m r' w' := by
  revert h
  fun_cases onLosant serve w e r w' with
  | case1 lc m => exact fun h => .inr ⟨lc,m,_,rfl,h⟩
  | case2 e r w' hother =>
    refine fun h => .inl ⟨h,?_⟩
    rintro lc m rfl
    exact hother lc m r rfl HEq.rfl

/-- The data are credentials for the device. -/
def Holds (data : GoMap String) (id : String) : Prop :=
  valueOf data "DEVICE_ID" = id ∧ valueOf data "ACCESS_KEY" ≠ "" ∧ valueOf data "ACCESS_SECRET" ≠ ""

instance (data : GoMap String) (id : String) : Decidable (Holds data id) := by
  unfold Holds
  infer_instance

theorem Holds.unique {data : GoMap String} {id id' : String} (h : Holds data id)
    (h' : Holds data id') : id = id' := h.1.symm.trans h'.1

theorem complete_iff {data : GoMap String} {id : String} :
    Complete data id ↔ id ≠ "" ∧ Holds data id := by
  constructor
  · rintro ⟨hid,hkey,hsecret,rfl⟩
    exact ⟨hid,rfl,hkey,hsecret⟩
  · rintro ⟨hid,rfl,hkey,hsecret⟩
    exact ⟨hid,hkey,hsecret,rfl⟩

theorem holds_credentialData {id : String} {k : Losant.AccessKey}
    (hk : k.key ≠ "" ∧ k.secret ≠ "") :
    Holds (credentialData id k) id := by
  refine ⟨?_,?_,?_⟩
  · simp [valueOf,credentialData,Finmap.lookup_insert_of_ne]
  · simpa [valueOf,credentialData,Finmap.lookup_insert_of_ne] using hk.1
  · simpa [valueOf,credentialData] using hk.2

/-- An update is accepted only from the latest version. -/
def Follows (s : Secret) (cur : Option StoredSecret) : Prop :=
  ∃ latest, cur = some latest ∧ latest.resourceVersion = s.resourceVersion

structure World where
  devices : Losant.Devices
  secrets : NamespacedName → List (Option StoredSecret)

namespace World
variable (site : Site) (w : World)

/-- The latest state of a Secret. -/
def secret (ref : NamespacedName) : Option StoredSecret := (w.secrets ref).head?.join

def put (ref : NamespacedName) (s : Option StoredSecret) : World :=
  { w with secrets := Function.update w.secrets ref (s::w.secrets ref) }

/-- A Secret is created only where there is none and updated only from its latest version. -/
def answers : (e : Call) → calls.Answer e → World → Prop
  | .getSecret ref,r,w' =>
    w' = w ∧ ∀ s : StoredSecret, r = .ok s → some s ∈ w.secrets ref
  | .createSecret s,r,w' =>
    match (r : Except ApiError Unit) with
    | .ok _ => w.secret s.namespacedName = none ∧
        ∃ v, w' = w.put s.namespacedName (some ⟨v,s.data⟩)
    | .error _ => w' = w
  | .updateSecret s,r,w' =>
    match (r : Except ApiError Unit) with
    | .ok _ => Follows s (w.secret s.namespacedName) ∧
        ∃ v, w' = w.put s.namespacedName (some ⟨v,s.data⟩)
    | .error _ => w' = w
  | .losant c m,r,w' => ∃ t, Losant.Serves site.Own c m w.devices r t ∧ w' = { w with devices := t }
  | _,_,w' => w' = w

inductive Others : World → World → Prop
  | devices {w : World} {t : Losant.Devices} (moved : Table.Moved site.Own w.devices t) :
      Others w { w with devices := t }
  | secret {w : World} (ref : NamespacedName) (s : Option StoredSecret) : Others w (w.put ref s)

/-- At most one device for each slot, and no Secrets yet: those that are there from the beginning
are written by others first. -/
structure Start (w : World) : Prop where
  sound : w.devices.Sound site.Own
  named : Losant.Named site.Own w.devices
  removed : w.devices.removed = []
  secrets : ∀ ref, w.secrets ref = []

/-- What an answer does to the world. -/
inductive Changed (w : World) : (e : Call) → calls.Answer e → World → Prop
  | kept {e r} : Changed w e r w
  | asked {c m r t} (serves : Losant.Serves site.Own c m w.devices r t) :
      Changed w (.losant c m) r { w with devices := t }
  | created {s v} (absent : w.secret s.namespacedName = none) :
      Changed w (.createSecret s) (.ok ()) (w.put s.namespacedName (some ⟨v,s.data⟩))
  | updated {s v} (latest : Follows s (w.secret s.namespacedName)) :
      Changed w (.updateSecret s) (.ok ()) (w.put s.namespacedName (some ⟨v,s.data⟩))

theorem changed {site : Site} {w w' : World} {e : Call} {r : calls.Answer e}
    (h : w.answers site e r w') : w.Changed site e r w' := by
  revert h
  fun_cases World.answers site w e r w' with
  | case1 =>
    rintro ⟨rfl,-⟩
    exact .kept
  | case2 =>
    rintro ⟨habsent,v,rfl⟩
    exact .created habsent
  | case4 =>
    rintro ⟨hlatest,v,rfl⟩
    exact .updated hlatest
  | case6 =>
    rintro ⟨t,ht,rfl⟩
    exact .asked ht
  | case3 | case5 | case7 =>
    rintro rfl
    exact .kept

/-- What an answer does to the devices. -/
theorem answers_devices {site : Site} {w w' : World} {e : Call} {r : calls.Answer e}
    (h : w.answers site e r w') : w'.devices = w.devices ∨
      ∃ c m, ∃ r' : Losant.Method.Answer m, (⟨e,r⟩ : Event calls) = ⟨.losant c m,r'⟩ ∧
        Losant.Serves site.Own c m w.devices r' w'.devices := by
  cases changed h with
  | kept | created | updated => exact .inl rfl
  | asked ht => exact .inr ⟨_,_,_,rfl,ht⟩

end World

def system (lib : Externals) (site : Site) : System losantSync calls (Except String Result) where
  World := World
  start := World.Start site
  answers := World.answers site
  others := World.Others site
  main := reconcile lib

def worldOf {lib : Externals} {site : Site} (c : Config (system lib site)) : World := c.world

/-- Every object has the application and the cluster name of the site. -/
def SameSite {lib : Externals} (site : Site) (_ d : Config (system lib site)) : Prop :=
  ∀ o, d.server.current = some o →
    o.spec.applicationID = site.app ∧ o.spec.clusterName = site.clusterName

/-! ## Evaluated jobs -/

/-- A node that is well. -/
def wellNode : Monitor.NodeHealth where
  name := "n1"
  ready := true
  memoryPressure := false
  diskPressure := false
  pidPressure := false
  cpuRequestPct := 0
  memRequestPct := 0
  podCount := 0
  notReadyPods := 0
  crashLoopPods := 0
  healthScore := 100
  healthStatus := "healthy"

def oneNode : GoMap Monitor.NodeHealth := (∅ : GoMap Monitor.NodeHealth).insert "n1" wellNode

/-- Every call works at the time `t`; the cluster has one node. -/
def World.serve (t : Time) (w : World) : (e : Call) → Option (calls.Answer e × World)
  | .now _ => some (t,w)
  | .rangeNodes m =>
    if hm : m = oneNode then some (⟨[⟨"n1",wellNode⟩],by rw [hm]; rfl⟩,w) else none
  | .healthSnapshot => some (({},oneNode),w)
  | .getSecret ref =>
    match w.secrets ref with
    | some s::_ => some (.ok s,w)
    | _ => some (.error ⟨.notFound,"secrets not found"⟩,w)
  | .createSecret s =>
    if w.secret s.namespacedName = none then
      some (.ok (),w.put s.namespacedName (some ⟨1,s.data⟩))
    else none
  | .updateSecret s =>
    if (w.secret s.namespacedName).any (·.resourceVersion = s.resourceVersion) then
      some (.ok (),w.put s.namespacedName (some ⟨s.resourceVersion+1,s.data⟩))
    else none
  | .losant c m =>
    (evaluate Losant.respond (c.implementation m) w.devices).map
      fun (r,t) => (r,{ w with devices := t })
  | .reportState _ _ => some (.ok (),w)
  | _ => none

theorem World.answers_of_serve {site : Site} {t : Time} {w w' : World} {e : Call}
    {r : calls.Answer e} (h : w.serve t e = some (r,w')) : w.answers site e r w' := by
  match e with
  | .now _ =>
    cases h
    rfl
  | .rangeNodes m =>
    change (if _ : _ then _ else _) = _ at h
    split at h
    · cases h
      rfl
    · cases h
  | .healthSnapshot =>
    cases h
    rfl
  | .getSecret ref =>
    change (match w.secrets ref with | some s::_ => _ | _ => _) = _ at h
    split at h
    · rename_i s l hl
      cases h
      refine ⟨rfl,?_⟩
      rintro s' ⟨⟩
      rw [hl]
      exact List.mem_cons_self
    · cases h
      exact ⟨rfl,nofun⟩
  | .createSecret s =>
    change (if _ then _ else none) = _ at h
    split at h
    · rename_i hs
      cases h
      exact ⟨hs,1,rfl⟩
    · cases h
  | .updateSecret s =>
    change (if _ then _ else none) = _ at h
    split at h
    · rename_i hs
      cases h
      obtain ⟨cur,hcur,hv⟩ := (Option.any_eq_true _ _).mp hs
      exact ⟨⟨cur,hcur,of_decide_eq_true hv⟩,_,rfl⟩
    · cases h
  | .losant c m =>
    obtain ⟨⟨r',t⟩,he,heq⟩ := Option.map_eq_some_iff.mp h
    cases heq
    exact ⟨t,evaluate_runs (fun h => Losant.serve_of_respond h) he,rfl⟩
  | .reportState _ _ =>
    cases h
    rfl
  | .rangeDevices _ | .getDeployment _ | .patchDeployment _ _ => cases h

/-- A job at the time `t` in which every call works. -/
def job (lib : Externals) (site : Site) (t : Time) : (system lib site).Act := .job
  { refuse := fun _ => none
    serve := fun _ w e => World.serve t w e
    sound := fun h => World.answers_of_serve h }

/-- Others write a Secret. -/
def writeSecret (lib : Externals) (site : Site) (ref : NamespacedName) (data : GoMap String) :
    (system lib site).Act :=
  .others (fun w : World => some (w.put ref (some ⟨1,data⟩))) (by
    rintro w w' ⟨⟩
    exact .secret ref _)

/-- A new object. -/
def newSync : LosantSync where
  metadata :=
    { name := "edge", uid := 1, resourceVersion := 0, generation := 1, finalizers := []
      deletionTimestamp := none }
  spec :=
    { applicationID := "app", provisioningSecretRef := ⟨"losant","default"⟩, clusterName := "edge"
      region := "eu", interval := "5m", gea := { serviceRef := "gea", port := 8080 } }
  status := {}

def edgeSite : Site := ⟨"app","edge"⟩

def emptyWorld : World := ⟨{},fun _ => []⟩

theorem start_emptyWorld : World.Start edgeSite emptyWorld :=
  ⟨⟨nofun,nofun,nofun⟩,nofun,rfl,fun _ => rfl⟩

/-- The token is written, the object is created, and three jobs make it active. -/
def activate (lib : Externals) : List (system lib edgeSite).Act :=
  [writeSecret lib edgeSite ⟨"default","losant"⟩ ((∅ : GoMap String).insert "api-token" "token"),
    .create newSync,job lib edgeSite (10*second),job lib edgeSite (20*second),
    job lib edgeSite (30*second)]

end LosantDevice.Sync

import LosantDevice.Losant.Schema
import LosantDevice.Sync.Devices
import LosantDevice.Sync.Outcome

/-!
# Which device a report is for

Every state that a sync reports goes to the device that the same sync was given for the cluster or
for the node whose health it describes, and this device declares each of the reported attributes
with the type of its value.
-/
namespace LosantDevice.Sync
open Effect Kube Go Monitor Program

/-- The attributes that the device of a slot declares. -/
def Slot.attributes : Slot → List Losant.DeviceAttribute
  | .cluster => Losant.clusterDeviceAttributes
  | .node _ => Losant.nodeDeviceAttributes

/-- The data type in Losant of a value. -/
def dataType : Gea.Value → String
  | .int _ | .float _ => "number"
  | .bool _ => "boolean"
  | .string _ => "string"

/-- The reported attributes are the declared ones, in the same order. -/
theorem described_attributes {cluster : ClusterHealth} {nodes : GoMap NodeHealth} {slot : Slot}
    {attributes : List (String × Gea.Value)} (h : described cluster nodes slot = some attributes) :
    attributes.map (fun p => ⟨p.1,dataType p.2⟩) = slot.attributes := by
  cases slot with
  | cluster =>
    cases h
    rfl
  | node n =>
    obtain ⟨nh,-,rfl⟩ := Option.map_eq_some_iff.mp h
    rfl

/-! ## The system with declarations -/

variable {lib : Externals}

structure Declared where
  world : World
  schema : Losant.Schema

namespace Declared

def catalog (w : Declared) : Losant.Catalog := ⟨w.world.devices,w.schema⟩

/-- The client sees the declarations too. -/
def answers (site : Site) (w : Declared) : (e : Call) → calls.Answer e → Declared → Prop
  | .losant c m,r,w' => ∃ k : Losant.Catalog, Losant.Catalog.Serves site.Own c m w.catalog r k ∧
      w' = ⟨{ w.world with devices := k.devices },k.schema⟩
  | e,r,w' => w.world.answers site e r w'.world ∧ w'.schema = w.schema

inductive Others (site : Site) : Declared → Declared → Prop
  | devices {w : Declared} {k : Losant.Catalog}
      (moved : Losant.Catalog.Moved site.Own w.catalog k) :
      Others site w ⟨{ w.world with devices := k.devices },k.schema⟩
  | secret {w : Declared} (ref : NamespacedName) (s : Option StoredSecret) :
      Others site w ⟨w.world.put ref s,w.schema⟩

/-- An answer is one of the plain world, and it is one of the client or leaves the catalog. -/
theorem answers_cases {site : Site} {w w' : Declared} {e : Call} {r : calls.Answer e}
    (h : w.answers site e r w') : w.world.answers site e r w'.world ∧
      (w'.catalog = w.catalog ∨ ∃ c m, ∃ r' : Losant.Method.Answer m,
        (⟨e,r⟩ : Event calls) = ⟨.losant c m,r'⟩ ∧
          Losant.Catalog.Serves site.Own c m w.catalog r' w'.catalog) := by
  revert h
  fun_cases Declared.answers site w e r w' with
  | case1 c m =>
    rintro ⟨k,hk,rfl⟩
    exact ⟨⟨k.devices,hk.devices,rfl⟩,.inr ⟨c,m,_,rfl,hk⟩⟩
  | case2 e r w' hother =>
    rintro ⟨ha,hs⟩
    rcases World.answers_devices ha with hd | ⟨c,m,r',he,-⟩
    · exact ⟨ha,.inl (congrArg₂ Losant.Catalog.mk hd hs)⟩
    · cases he
      exact (hother c m r' rfl HEq.rfl).elim

end Declared

/-- The declarations at the beginning may be any. -/
def declared (lib : Externals) (site : Site) : System losantSync calls (Except String Result) where
  World := Declared
  start w := World.Start site w.world
  answers := Declared.answers site
  others := Declared.Others site
  main := reconcile lib

section declared
variable {site : Site} {c d : Config (declared lib site)} {slot : Slot} {id : String}

def catalogOf (c : Config (declared lib site)) : Losant.Catalog := Declared.catalog c.world

/-- The same without the declarations. -/
def undeclared (c : Config (declared lib site)) : Config (system lib site) :=
  ⟨c.server,Declared.world c.world,c.past,c.job⟩

theorem undeclared_step (hs : (declared lib site).Step c d) :
    undeclared d = undeclared c ∨ (system lib site).Step (undeclared c) (undeclared d) := by
  cases hs with
  | user he => exact .inr (.user he)
  | start => exact .inr .start
  | own ha => exact .inr (.own ha)
  | finish => exact .inr .finish
  | crash => exact .inr .crash
  | outside ha => exact .inr (.outside (Declared.answers_cases ha).1)
  | others ha =>
    cases ha with
    | secret ref s => exact .inr (.others (.secret ref s))
    | devices hm =>
      rcases hm.1 with heq | hm
      · refine .inl ?_
        rw [undeclared,undeclared]
        dsimp only
        rw [heq]
        rfl
      · exact .inr (.others (.devices hm))

/-- Every object has the application and the cluster name of the site. -/
def SameSiteDeclared (site : Site) (c d : Config (declared lib site)) : Prop :=
  SameSite site (undeclared c) (undeclared d)

theorem undeclared_reachable (hc : (declared lib site).ReachableBy (SameSiteDeclared site) c) :
    (system lib site).ReachableBy (SameSite site) (undeclared c) := by
  induction hc with
  | init hw => exact .init hw
  | step _ hm hp ih =>
    rcases undeclared_step hm with heq | hs
    · rw [heq]
      exact ih
    · exact .step ih hs hp

/-- A method that makes a device for a slot declares the attributes of the slot. -/
theorem Orderly.attributes {c : Config (system lib site)} (ho : Orderly c) (hr : Ran c) {h p}
    {m : Losant.Method} (hj : c.job = some (h,p)) (ha : Asks h m) (hk : m.Makes (site.place slot)) :
    m.attributes = slot.attributes := by
  cases m with
  | ensureClusterDevice spec =>
    obtain ⟨b,hb,rfl,-⟩ := ha
    obtain ⟨happ,hname⟩ := ho.copy hr hj hb.1
    have hk :
      site.place slot = (b.spec.applicationID,Losant.clusterDeviceName b.spec.clusterName) :=
      hk
    rw [happ,hname] at hk
    obtain rfl : slot = .cluster := site.place_injective hk
    rfl
  | ensureNodeDevice spec n g =>
    obtain ⟨b,hb,rfl⟩ := ha
    obtain ⟨happ,hname⟩ := ho.copy hr hj hb.1
    have hk : site.place slot = (b.spec.applicationID,Losant.nodeDeviceName b.spec.clusterName n) :=
      hk
    rw [happ,hname] at hk
    obtain rfl : slot = .node n := site.place_injective hk
    rfl
  | ping | createDeviceAccessKey | deleteDevice | releaseWorkflow | getEdgeDeployments =>
    exact hk.elim

/-- The device of the slot is in its place and declares the attributes of the slot. -/
def Upheld (c : Config (declared lib site)) (slot : Slot) (id : String) : Prop :=
  (catalogOf c).Upholds id (site.place slot) slot.attributes

theorem upheld_step (hb : Background (undeclared c)) (hs : (declared lib site).Step c d)
    (hu : Upheld c slot id) : Upheld d slot id := by
  cases hs with
  | user | start | own | finish | crash => exact hu
  | others ha =>
    cases ha with
    | devices hm => exact hu.moved (site.own_place slot) hm
    | secret ref s => exact hu
  | @outside s w w' past h e next r ha =>
    rcases (Declared.answers_cases ha).2 with heq | ⟨lc,m,r',hev,hserve⟩
    · change w'.catalog.Upholds _ _ _
      rw [heq]
      exact hu
    · cases hev
      have hasks : Asks h m := (hb.ran.obeys rfl).1.2
      exact hserve.upholds (site.own_place slot) (hb.orderly.attributes hb.ran rfl hasks) hu

/-- A job that is given a device finds the attributes of its slot declared. -/
theorem upheld_of_gives (hb : Background (undeclared c)) {h e next r}
    (hj : c.job = some (h,.call (.inr e) next)) (ha : Declared.answers site c.world e r d.world)
    (hg : Gives ⟨.inr e,r⟩ slot id) : Upheld d slot id := by
  have hsound : (catalogOf c).devices.Sound fun _ => False :=
    ⟨hb.orderly.sound.place,fun hf => hf.elim,hb.orderly.sound.taken⟩
  have hasks := (hb.ran.obeys hj).1
  cases hg with
  | cluster =>
    obtain ⟨k,hserve,hk⟩ := ha
    have hmakes := hb.orderly.makes hb.ran hj hasks.2
    obtain ⟨b,hheld,rfl,-⟩ := hasks.2
    obtain ⟨happ,hname⟩ := hb.orderly.copy hb.ran hj hheld.1
    have hu := hserve.upholds_cluster hsound (hmakes _ rfl)
    rw [happ,hname] at hu
    rw [Upheld,catalogOf,hk]
    exact hu
  | node =>
    obtain ⟨k,hserve,hk⟩ := ha
    have hmakes := hb.orderly.makes hb.ran hj hasks.2
    obtain ⟨b,hheld,rfl⟩ := hasks.2
    obtain ⟨happ,hname⟩ := hb.orderly.copy hb.ran hj hheld.1
    have hu := hserve.upholds_node hsound (hmakes _ rfl)
    rw [happ,hname] at hu
    rw [Upheld,catalogOf,hk]
    exact hu

theorem upheld (hc : (declared lib site).ReachableBy (SameSiteDeclared site) c)
    (hg : Given c slot id) : Upheld c slot id := by
  refine System.ReachableBy.invariant (J := fun c => Background (undeclared c))
    (I := fun c => ∀ slot id, Given c slot id → Upheld c slot id)
    (fun c hc => background (undeclared_reachable hc)) ?_ ?_ hc slot id hg
  · rintro w - slot id ⟨h,hh,-⟩
    cases hh
  · intro c d hb hall hs _ slot id hg
    rcases Given.before hs hg with hg | ⟨h,e,next,r,hj,hj',hg⟩
    · exact upheld_step hb hs (hall slot id hg)
    · exact upheld_of_gives hb hj (hs.answers hj hj') hg

/-- In every run each reported state describes the cluster or a node by the snapshot of its sync.
It goes to the device that this sync was given for it, which is in that place and in no other, and
it consists of the attributes of this place, each with the type that the device declares. -/
theorem reports_declared (lib : Externals) (site : Site) (c : Config (declared lib site))
    (hc : (declared lib site).ReachableBy (SameSiteDeclared site) c) (k l : Past)
    (gc : Gea.HTTPClient) (payload : Gea.StatePayload) (r : Except String Unit)
    (hk : k ∈ c.histories) (hl : ⟨.inr (.reportState gc payload),r⟩::l <:+ k) :
    ∃ slot, Routed l payload slot ∧
      (∀ q, (payload.deviceID,q) ∈ (catalogOf c).devices.entries ↔ q = site.place slot) ∧
      payload.attributes.map (fun p => ⟨p.1,dataType p.2⟩) = slot.attributes ∧
      ∀ p ∈ payload.attributes,
        (catalogOf c).schema payload.deviceID p.1 = some (dataType p.2) := by
  obtain ⟨slot,hrouted⟩ := ((traced_telling rfl hc.reachable).allowed hk hl).2
  obtain ⟨⟨cluster,nodes,-,hd⟩,ev,hev,hg⟩ := id hrouted
  have hmem : ev ∈ k := hl.subset (List.mem_cons_of_mem _ hev)
  have hu : Upheld c slot payload.deviceID := upheld hc ⟨k,hk,ev,hmem,hg⟩
  have hattrs := described_attributes hd
  refine ⟨slot,hrouted,fun q => ⟨fun hq => hu.sound.place hq hu.entry,?_⟩,hattrs,fun p hp => ?_⟩
  · rintro rfl
    exact hu.entry
  · refine hu.declares ⟨p.1,dataType p.2⟩ ?_
    rw [← hattrs]
    exact List.mem_map.mpr ⟨p,hp,rfl⟩

end declared

/-! ## A sync that reports -/

/-- Every call works at the time `t`, and the declarations are kept. -/
def Declared.serve (t : Time) (w : Declared) : (e : Call) → Option (calls.Answer e × Declared)
  | .losant c m =>
    (evaluate Losant.Catalog.respond (c.implementation m) w.catalog).map
      fun (r,k) => (r,⟨{ w.world with devices := k.devices },k.schema⟩)
  | e => (w.world.serve t e).map fun x => (x.1,⟨x.2,w.schema⟩)

theorem Declared.answers_of_serve {site : Site} {t : Time} {w w' : Declared} {e : Call}
    {r : calls.Answer e} (h : w.serve t e = some (r,w')) : w.answers site e r w' := by
  revert h
  fun_cases Declared.answers site w e r w' with
  | case1 =>
    intro h
    obtain ⟨⟨r',k⟩,he,heq⟩ := Option.map_eq_some_iff.mp h
    cases heq
    exact ⟨k,evaluate_runs (fun h => Losant.Catalog.serve_of_respond h) he,rfl⟩
  | case2 e r w' hother =>
    intro h
    rw [Declared.serve] at h
    · obtain ⟨⟨r',w₁⟩,he,heq⟩ := Option.map_eq_some_iff.mp h
      cases heq
      exact ⟨World.answers_of_serve he,rfl⟩
    · rintro c m rfl
      exact hother c m r rfl HEq.rfl

def declaredJob (t : Time) : (declared .plain edgeSite).Act := .job
  { refuse := fun _ => none
    serve := fun _ w e => Declared.serve t w e
    sound := fun h => Declared.answers_of_serve h }

/-- The run of `activate`, from a Losant without declarations. -/
def activateDeclared : List (declared .plain edgeSite).Act :=
  [.others (fun w : Declared => some ⟨w.world.put ⟨"default","losant"⟩
      (some ⟨1,(∅ : GoMap String).insert "api-token" "token"⟩),w.schema⟩) (by
    rintro w w' ⟨⟩
    exact .secret _ _),.create newSync,declaredJob (10*second),declaredJob (20*second),
    declaredJob (30*second)]

/-- The states a job has reported. -/
def statesOf : Past → List Gea.StatePayload
  | [] => []
  | ⟨.inr (.reportState _ payload),_⟩::h => payload::statesOf h
  | _::h => statesOf h

theorem exists_of_statesOf {h : Past} {payload : Gea.StatePayload} (hp : payload ∈ statesOf h) :
    ∃ gc r l, (⟨.inr (.reportState gc payload),r⟩ : Event interface)::l <:+ h := by
  fun_induction statesOf h with
  | case1 => cases hp
  | case2 gc p r h ih =>
    rcases List.mem_cons.mp hp with rfl | hp
    · exact ⟨gc,r,h,List.suffix_refl _⟩
    · obtain ⟨gc,r,l,hl⟩ := ih hp
      exact ⟨gc,r,l,hl.trans (List.suffix_cons _ h)⟩
  | case3 ev h _ ih =>
    obtain ⟨gc,r,l,hl⟩ := ih hp
    exact ⟨gc,r,l,hl.trans (List.suffix_cons ev h)⟩

def sameSiteDeclared (_ d : Config (declared .plain edgeSite)) : Bool :=
  d.server.current.all fun o => o.spec.applicationID = "app" ∧ o.spec.clusterName = "edge"

theorem sameSiteDeclared_of_test (c d : Config (declared .plain edgeSite))
    (h : sameSiteDeclared c d = true) : SameSiteDeclared edgeSite c d := by
  intro o ho
  change d.server.current = some o at ho
  rw [sameSiteDeclared,ho] at h
  exact of_decide_eq_true h

/-- The third job reports its node to the second device. -/
theorem reports_declared_active : ∃ c : Config (declared .plain edgeSite),
    (declared .plain edgeSite).ReachableBy (SameSiteDeclared edgeSite) c ∧
    ∃ h ∈ c.histories, (⟨"device-1",nodeAttributes wellNode⟩ : Gea.StatePayload) ∈ statesOf h ∧
      ("device-1",edgeSite.place (.node "n1")) ∈ (catalogOf c).devices.entries ∧
      ∀ p ∈ nodeAttributes wellNode, (catalogOf c).schema "device-1" p.1 = some (dataType p.2) := by
  have hstart : (declared .plain edgeSite).start ⟨emptyWorld,fun _ _ => none⟩ := start_emptyWorld
  obtain ⟨c,hc,hp⟩ := System.exists_tested sameSiteDeclared hstart activateDeclared
    (fun c => ("device-1",edgeSite.place (.node "n1")) ∈ (catalogOf c).devices.entries ∧
      c.past.any fun h => (⟨"device-1",nodeAttributes wellNode⟩ : Gea.StatePayload) ∈ statesOf h)
    (by decide +kernel)
  have hc := hc.mono sameSiteDeclared_of_test
  obtain ⟨hentry,hany⟩ := of_decide_eq_true hp
  obtain ⟨h,hh,hs⟩ := List.any_eq_true.mp hany
  have hh : h ∈ c.histories := List.mem_append_right _ hh
  have hs := of_decide_eq_true hs
  obtain ⟨gc,r,l,hl⟩ := exists_of_statesOf hs
  obtain ⟨slot,-,-,-,htyped⟩ := reports_declared .plain edgeSite c hc h l gc _ r hh hl
  exact ⟨c,hc,h,hh,hs,hentry,htyped⟩

end LosantDevice.Sync

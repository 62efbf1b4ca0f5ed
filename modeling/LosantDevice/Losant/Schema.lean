import LosantDevice.Losant.World

/-!
# The declared attributes

Losant knows a data type for each declared attribute of a device. A new device declares what the
request that creates it lists. A patch that succeeds declares what it lists; one that fails may
have declared some of it. What a patch does to attributes it does not list is left open.
-/
namespace LosantDevice.Losant
open Effect Go Registry

/-- The data type of an attribute of a device, if it is declared. -/
abbrev Schema := String → String → Option String

def Declares (s : Schema) (id : String) (attrs : List DeviceAttribute) : Prop :=
  ∀ a ∈ attrs, s id a.name = some a.dataType

instance (s : Schema) (id : String) (attrs : List DeviceAttribute) :
    Decidable (Declares s id attrs) := by
  unfold Declares
  infer_instance

/-- The attributes a method declares for the device it returns. -/
def Method.attributes : Method → List DeviceAttribute
  | .ensureClusterDevice _ => clusterDeviceAttributes
  | .ensureNodeDevice _ _ _ => nodeDeviceAttributes
  | _ => []

structure Catalog where
  devices : Devices
  schema : Schema

namespace Catalog

/-- What a request does to the declarations. -/
def declare (w : Catalog) : (e : http.Call) → http.Answer e → Catalog → Prop
  | (_,.createDevice _ payload),_,w' =>
    (∀ id, ¬w.devices.Fresh id → w'.schema id = w.schema id) ∧
      ∀ id, w.devices.Fresh id → ¬w'.devices.Fresh id →
        Declares w'.schema id (payload.attributes.getD [])
  | (_,.patchAttributes _ id attrs),reply,w' =>
    (∀ id', id' ≠ id → w'.schema id' = w.schema id') ∧
      (∀ a ∈ attrs, w'.schema id a.name = w.schema id a.name ∨
        w'.schema id a.name = some a.dataType) ∧
      (Succeeds reply → Declares w'.schema id attrs)
  | (_,.listDevices _ _),_,w' | (_,.deleteDevice _ _),_,w' | (_,.application _),_,w'
  | (_,.createKey _ _),_,w' | (_,.release _ _ _ _),_,w' | (_,.deployments _ _),_,w' =>
    w'.schema = w.schema

def serve (w : Catalog) (e : http.Call) (r : http.Answer e) (w' : Catalog) : Prop :=
  Losant.serve w.devices e r w'.devices ∧ w.declare e r w'

/-- Others leave the declarations of the caller's devices as they are. -/
def Moved (own : Place → Prop) (w w' : Catalog) : Prop :=
  (w'.devices = w.devices ∨ Table.Moved own w.devices w'.devices) ∧
    ∀ id k, own k → (id,k) ∈ w.devices.entries → w'.schema id = w.schema id

/-- A method of the client can return `r`, with others at work meanwhile. -/
def Serves (own : Place → Prop) (c : HTTPClient) (m : Method) (w : Catalog) (r : m.Answer)
    (w' : Catalog) : Prop :=
  (c.implementation m).Runs serve (Moved own) w r w'

/-- The device has its one place and declares the attributes. -/
structure Upholds (w : Catalog) (id : String) (k : Place) (attrs : List DeviceAttribute) :
    Prop where
  sound : w.devices.Sound fun _ => False
  entry : (id,k) ∈ w.devices.entries
  declares : Declares w.schema id attrs

variable {own : Place → Prop} {c : HTTPClient} {w w' w₁ : Catalog} {id : String} {k : Place}
  {attrs : List DeviceAttribute}

theorem Serves.devices {m : Method} {r : m.Answer} (h : Serves own c m w r w') :
    Losant.Serves own c m w.devices r w'.devices :=
  Program.Runs.image Catalog.devices (fun hm => hm.1) (fun ha => ha.1) h

theorem succeeds_of_sent {req : Request} {reply : Reply req.Decoded}
    (h : sent (interpret req reply) = .ok ()) : Succeeds reply := by
  cases reply with
  | unbuilt err | failed err | unread err => cases h
  | response status body decoded =>
    change sent (if 400 ≤ status then _ else _) = _ at h
    split at h
    · cases h
    · rename_i hlt
      exact ⟨status,body,decoded,rfl,Nat.lt_of_not_le hlt⟩

/-! ## One step -/

theorem sound_moved (hs : w.devices.Sound fun _ => False) (hm : Moved own w w') :
    w'.devices.Sound fun _ => False := by
  obtain ⟨devices,s⟩ := w
  obtain ⟨devices',s'⟩ := w'
  rcases hm.1 with rfl | hm
  · exact hs
  · cases hm with
    | take _ => exact hs.take _
    | add hf _ => exact hs.add hf (fun hf => hf.elim)

theorem entries_moved (hm : Moved own w w') : w.devices.entries ⊆ w'.devices.entries := by
  rcases hm.1 with heq | hm
  · rw [heq]
    exact List.Subset.refl _
  · exact fun p hp => (hm.grows (K := fun _ => False) (D := fun _ => False)).entries hp

theorem Upholds.moved (hu : w.Upholds id k attrs) (hk : own k) (hm : Moved own w w') :
    w'.Upholds id k attrs := by
  refine ⟨sound_moved hu.sound hm,entries_moved hm hu.entry,fun a ha => ?_⟩
  rw [hm.2 id k hk hu.entry]
  exact hu.declares a ha

theorem Upholds.others (hu : w.Upholds id k attrs) (hk : own k)
    (hm : Relation.ReflTransGen (Moved own) w w') : w'.Upholds id k attrs := by
  induction hm with
  | refl => exact hu
  | tail _ hm ih => exact ih.moved hk hm

theorem entries_others (hm : Relation.ReflTransGen (Moved own) w w') :
    w.devices.entries ⊆ w'.devices.entries := by
  induction hm with
  | refl => exact List.Subset.refl _
  | tail _ hm ih => exact List.Subset.trans ih (entries_moved hm)

theorem sound_others (hs : w.devices.Sound fun _ => False)
    (hm : Relation.ReflTransGen (Moved own) w w') : w'.devices.Sound fun _ => False := by
  induction hm with
  | refl => exact hs
  | tail _ hm ih => exact sound_moved ih hm

/-- A request leaves the declarations of a device unless it patches this one with others. -/
theorem Upholds.serve {e : http.Call} {r : http.Answer e} (hu : w.Upholds id k attrs)
    (ha : w.serve e r w') (hpatch : ∀ app attrs', e.2 = .patchAttributes app id attrs' →
      attrs' = attrs) : w'.Upholds id k attrs := by
  refine ⟨serve_sound ha.1 hu.sound,serve_entries ha.1 hu.entry,?_⟩
  have hkeep : w'.schema id = w.schema id → Declares w'.schema id attrs := by
    intro hsame a hm
    rw [hsame]
    exact hu.declares a hm
  obtain ⟨token,req⟩ := e
  cases req with
  | createDevice app payload => exact hkeep (ha.2.1 id fun hf => hf.2 k hu.entry)
  | patchAttributes app id' attrs' =>
    obtain ⟨hother,hsome,-⟩ := ha.2
    by_cases hid : id = id'
    · subst hid
      obtain rfl := hpatch app attrs' rfl
      intro a hm
      rcases hsome a hm with hsame | hset
      · exact hsame.trans (hu.declares a hm)
      · exact hset
    · exact hkeep (hother id hid)
  | listDevices | deleteDevice | application | createKey | release | deployments =>
    exact hkeep (congrFun (show w'.schema = w.schema from ha.2) id)

/-! ## The methods -/

variable {app name deviceClass recipeID gatewayID : String} {tags : List Tag}
  {attrs' : List DeviceAttribute} {r : Except Error String}

/-- What a creation sends and what it returns. -/
theorem createDevice_stages
    (h : (c.createDevice app name deviceClass recipeID gatewayID tags attrs').Runs serve (Moved own)
      w r w') : ∃ w₁ w₂ payload, ∃ reply : Reply Device,
      Relation.ReflTransGen (Moved own) w w₁ ∧
      w₁.serve (c.token,.createDevice app payload) reply w₂ ∧
      Relation.ReflTransGen (Moved own) w₂ w' ∧ payload.name = name ∧
      payload.attributes.getD [] = attrs' ∧
      ∀ id, r = .ok id → id ≠ "" ∧ ∃ d, Carries reply d ∧ d.deviceID = id := by
  have hattrs : (if attrs' ≠ [] then some attrs' else none).getD [] = attrs' := by
    cases attrs' <;> rfl
  obtain ⟨w₁,reply,w₂,hm,hserve,hrest⟩ := Program.Runs.call_inv h
  refine ⟨w₁,w₂,_,reply,hm,hserve,?_⟩
  change Program.Runs _ _ (Program.bind (.done (fetched (β := Device) "create device"
    (interpret _ reply))) _) _ _ _ at hrest
  cases hx : fetched (β := Device) "create device" (interpret _ reply) with
  | error err =>
    rw [hx] at hrest
    obtain ⟨rfl,hm'⟩ := hrest.done_inv
    exact ⟨hm',rfl,hattrs,nofun⟩
  | ok d =>
    rw [hx] at hrest
    change Program.Runs _ _ (if d.deviceID = "" then _ else _) _ _ _ at hrest
    by_cases hd : d.deviceID = ""
    · rw [if_pos hd] at hrest
      obtain ⟨rfl,hm'⟩ := hrest.done_inv
      exact ⟨hm',rfl,hattrs,nofun⟩
    · rw [if_neg hd] at hrest
      obtain ⟨rfl,hm'⟩ := hrest.done_inv
      refine ⟨hm',rfl,hattrs,?_⟩
      rintro id ⟨⟩
      exact ⟨hd,d,carries_of_fetched hx,rfl⟩

/-- What the `Ensure` methods do after the lookup: nothing, a creation, or a patch of a device that
is at the place. -/
theorem ensureDevice_stages
    (h : (c.ensureDevice app name deviceClass recipeID gatewayID tags attrs').Runs serve (Moved own)
      w r w') : ∃ w₁ w₂, ∃ reply : Reply (List Device), Relation.ReflTransGen (Moved own) w w₁ ∧
      w₁.serve (c.token,.listDevices app name) reply w₂ ∧
      ((∀ id, r ≠ .ok id) ∧ Relation.ReflTransGen (Moved own) w₂ w' ∨
        (c.createDevice app name deviceClass recipeID gatewayID tags attrs').Runs serve (Moved own)
          w₂ r w' ∨
        ∃ i w₃ w₄, ∃ reply' : Reply Unit, (i,(app,name)) ∈ w₂.devices.entries ∧
          Relation.ReflTransGen (Moved own) w₂ w₃ ∧
          w₃.serve (c.token,.patchAttributes app i attrs') reply' w₄ ∧
          Relation.ReflTransGen (Moved own) w₄ w' ∧ ∀ id, r = .ok id → id = i ∧
            Succeeds reply') := by
  obtain ⟨w₁,reply,w₂,hm,hlist,hrest⟩ := Program.Runs.call_inv h
  refine ⟨w₁,w₂,reply,hm,hlist,?_⟩
  dsimp only [Bind.bind,Pure.pure,Program.bind] at hrest
  cases hx : fetched "device list" (interpret (.listDevices app name) reply) with
  | error err =>
    rw [hx] at hrest
    obtain ⟨rfl,hm'⟩ := Program.Runs.done_inv hrest
    exact .inl ⟨by simp,hm'⟩
  | ok items =>
    rw [hx] at hrest
    obtain ⟨heq,hexact⟩ := hlist.1
    change List Device at items
    cases items with
    | nil => exact .inr (.inl hrest)
    | cons d rest =>
      have hpresent : w₁.devices.Present d.deviceID (app,name) :=
        (hexact _ (carries_of_fetched hx) d.deviceID).mp ⟨d,List.mem_cons_self,rfl⟩
      rw [← heq] at hpresent
      obtain ⟨w₃,reply',w₄,hm,hpatch,hrest⟩ := Program.Runs.call_inv hrest
      refine .inr (.inr ⟨d.deviceID,w₃,w₄,reply',hpresent.1,hm,hpatch,?_⟩)
      dsimp only [Bind.bind,Pure.pure,Program.bind] at hrest
      cases hsent : sent (interpret (.patchAttributes app d.deviceID attrs') reply') with
      | error err =>
        rw [hsent] at hrest
        obtain ⟨rfl,hm'⟩ := hrest.done_inv
        exact ⟨hm',nofun⟩
      | ok =>
        rw [hsent] at hrest
        obtain ⟨rfl,hm'⟩ := hrest.done_inv
        refine ⟨hm',?_⟩
        rintro id ⟨⟩
        exact ⟨rfl,succeeds_of_sent hsent⟩

/-- An `Ensure` method spoils no declaration: the only device it patches is the one at its place. -/
theorem ensureDevice_upholds (hu : w.Upholds id k attrs) (hk : own k)
    (hattrs : k = (app,name) → attrs' = attrs)
    (h : (c.ensureDevice app name deviceClass recipeID gatewayID tags attrs').Runs serve (Moved own)
      w r w') : w'.Upholds id k attrs := by
  obtain ⟨w₁,w₂,reply,hm,hlist,hcases⟩ := ensureDevice_stages h
  have hu₂ := (hu.others hk hm).serve hlist (by simp)
  rcases hcases with ⟨-,hm'⟩ | hcreate | ⟨i,w₃,w₄,reply',hi,hm,hpatch,hm',-⟩
  · exact hu₂.others hk hm'
  · obtain ⟨w₃,w₄,payload,reply,hm,hserve,hm',-⟩ := createDevice_stages hcreate
    exact ((hu₂.others hk hm).serve hserve (by simp)).others hk hm'
  · have hu₃ := hu₂.others hk hm
    refine (hu₃.serve hpatch ?_).others hk hm'
    rintro app' attrs'' ⟨⟩
    exact hattrs (hu₃.sound.place hu₃.entry (entries_others hm hi))

/-- The device that is returned declares what it should. -/
theorem ensureDevice_declares (hs : w.devices.Sound fun _ => False) (hk : own (app,name))
    (h : (c.ensureDevice app name deviceClass recipeID gatewayID tags attrs').Runs serve (Moved own)
      w (.ok id) w') : w'.Upholds id (app,name) attrs' := by
  obtain ⟨w₁,w₂,reply,hm,hlist,hcases⟩ := ensureDevice_stages h
  have hs₂ := serve_sound hlist.1 (sound_others hs hm)
  rcases hcases with ⟨hnone,-⟩ | hcreate | ⟨i,w₃,w₄,reply',hi,hm,hpatch,hm',hid⟩
  · exact absurd rfl (hnone id)
  · obtain ⟨w₃,w₄,payload,reply,hm,hserve,hm',rfl,rfl,hid⟩ := createDevice_stages hcreate
    obtain ⟨hne,d,hd,rfl⟩ := hid id rfl
    refine Upholds.others ⟨serve_sound hserve.1 (sound_others hs₂ hm),?_,?_⟩ hk hm'
    · rcases hserve.1 with ⟨new,-,-,heq,hcarries⟩ | ⟨-,hcarries⟩
      · rw [heq,(hcarries d hd).resolve_right hne]
        exact List.mem_cons_self
      · exact absurd (hcarries d hd) hne
    · rcases hserve.1 with ⟨new,hfresh,-,heq,hcarries⟩ | ⟨-,hcarries⟩
      · rw [(hcarries d hd).resolve_right hne]
        refine hserve.2.2 new hfresh fun hf => ?_
        rw [heq] at hf
        exact hf.2 _ List.mem_cons_self
      · exact absurd (hcarries d hd) hne
  · obtain ⟨rfl,hok⟩ := hid id rfl
    have hs₃ := sound_others hs₂ hm
    refine Upholds.others ⟨serve_sound hpatch.1 hs₃,?_,hpatch.2.2.2 hok⟩ hk hm'
    exact serve_entries hpatch.1 (entries_others hm hi)

/-- A request that patches nothing. -/
def Unpatching (e : http.Call) : Prop := ∀ app id attrs, e.2 ≠ .patchAttributes app id attrs

theorem implementation_unpatching {m : Method} (hmakes : ∀ k, ¬m.Makes k) :
    (c.implementation m).Obeys (fun _ e => Unpatching e) (fun _ _ => True) [] := by
  cases m with
  | ensureClusterDevice spec => exact absurd rfl (hmakes _)
  | ensureNodeDevice spec n g => exact absurd rfl (hmakes _)
  | ping | deleteDevice _ _ | getEdgeDeployments _ _ =>
    refine ⟨?_,fun _ => trivial⟩
    rintro app id attrs ⟨⟩
  | createDeviceAccessKey app id name =>
    refine ⟨?_,fun reply => ?_⟩
    · rintro app id attrs ⟨⟩
    · dsimp only [Bind.bind,Pure.pure,Program.bind]
      cases fetched "access key" (interpret (.createKey app name) reply) with
      | error err => trivial
      | ok k => exact .ite trivial trivial
  | releaseWorkflow app id flow version =>
    refine ⟨?_,fun reply => ?_⟩
    · rintro app id attrs ⟨⟩
    · dsimp only [Bind.bind,Pure.pure,Program.bind]
      cases sent (interpret (.release app flow version [id]) reply) with
      | error err => exact .ite trivial trivial
      | ok => trivial

/-- No method spoils the declarations of a device at a place where it would declare the same. -/
theorem Serves.upholds {m : Method} {r : m.Answer} (h : Serves own c m w r w') (hk : own k)
    (hattrs : m.Makes k → m.attributes = attrs) (hu : w.Upholds id k attrs) :
    w'.Upholds id k attrs := by
  match m with
  | .ensureClusterDevice spec => exact ensureDevice_upholds hu hk hattrs h
  | .ensureNodeDevice spec n g => exact ensureDevice_upholds hu hk hattrs h
  | .ping | .createDeviceAccessKey _ _ _ | .deleteDevice _ _ | .releaseWorkflow _ _ _ _
  | .getEdgeDeployments _ _ =>
    refine Program.Runs.relates (R := fun w w' => w.Upholds id k attrs → w'.Upholds id k attrs)
      (fun _ hu => hu) (fun h₁ h₂ hu => h₂ (h₁ hu)) (fun hm hu => hu.moved hk hm) ?_
      (implementation_unpatching (by simp [Method.Makes])) h hu
    exact fun he ha hu => hu.serve ha fun app attrs' hp => absurd hp (he _ _ _)

theorem Serves.upholds_cluster {spec : LosantSyncSpec} (hs : w.devices.Sound fun _ => False)
    (hk : own (spec.applicationID,clusterDeviceName spec.clusterName))
    (h : Serves own c (.ensureClusterDevice spec) w (.ok id) w') :
    w'.Upholds id (spec.applicationID,clusterDeviceName spec.clusterName) clusterDeviceAttributes :=
  ensureDevice_declares hs hk h

theorem Serves.upholds_node {spec : LosantSyncSpec} {n g : String}
    (hs : w.devices.Sound fun _ => False)
    (hk : own (spec.applicationID,nodeDeviceName spec.clusterName n))
    (h : Serves own c (.ensureNodeDevice spec n g) w (.ok id) w') :
    w'.Upholds id (spec.applicationID,nodeDeviceName spec.clusterName n) nodeDeviceAttributes :=
  ensureDevice_declares hs hk h

/-! ## Answers that can be evaluated -/

/-- The listed attributes are declared. -/
def set (s : Schema) (id : String) (attrs : List DeviceAttribute) : Schema :=
  fun id' name => if id' = id then
    ((attrs.find? (·.name = name)).map DeviceAttribute.dataType).or (s id name) else s id' name

/-- Every request is carried out and answered. -/
def respond (w : Catalog) (e : http.Call) : Option (http.Answer e × Catalog) :=
  match Losant.respond w.devices e with
  | none => none
  | some (r,t) =>
    match e.2 with
    | .createDevice _ payload =>
      match t.entries with
      | (id,_)::_ =>
        let s := set w.schema id (payload.attributes.getD [])
        if Declares s id (payload.attributes.getD []) then some (r,⟨t,s⟩) else none
      | [] => none
    | .patchAttributes _ id attrs =>
      if Declares (set w.schema id attrs) id attrs then some (r,⟨t,set w.schema id attrs⟩) else none
    | _ => some (r,⟨t,w.schema⟩)

theorem set_of_ne {s : Schema} {id id' : String} (hne : id' ≠ id) : set s id attrs id' = s id' := by
  funext name
  exact if_neg hne

theorem serve_of_respond {e : http.Call} {r : http.Answer e} (h : w.respond e = some (r,w')) :
    w.serve e r w' := by
  unfold respond at h
  split at h
  · cases h
  · rename_i r₁ t hr
    have hserve := Losant.serve_of_respond hr
    obtain ⟨token,req⟩ := e
    cases req with
    | createDevice app payload =>
      dsimp only at h
      split at h
      · rename_i id k l hl
        split at h
        · rename_i hd
          cases h
          -- The device at the head of the table is the new one.
          change (if _ then _ else none) = _ at hr
          split at hr
          · rename_i hc
            cases hr
            cases hl
            refine ⟨hserve,fun id' hf => set_of_ne ?_,fun id' hf hf' => ?_⟩
            · rintro rfl
              exact hf ⟨hc.1,fun k hk => hc.2.1 _ hk rfl⟩
            · obtain rfl : id' = _ := by
                by_contra hne
                refine hf' ⟨hf.1,fun k hk => ?_⟩
                rcases List.mem_cons.mp hk with heq | hk
                · exact hne (congrArg Prod.fst heq)
                · exact hf.2 k hk
              exact hd
          · cases hr
        · cases h
      · cases h
    | patchAttributes app id attrs =>
      dsimp only at h
      split at h
      · rename_i hd
        cases h
        refine ⟨hserve,fun id' hne => set_of_ne hne,fun a ha => .inr (hd a ha),fun _ => hd⟩
      · cases h
    | listDevices | deleteDevice | application | createKey | release | deployments =>
      cases h
      exact ⟨hserve,rfl⟩

end Catalog
end LosantDevice.Losant

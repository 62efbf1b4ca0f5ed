import LosantDevice.Losant.Client
import LosantDevice.Registry.Table

/-!
# Losant as the client sees it

The devices of all applications in one table, and how the requests of the client are answered.
A list with a filter names exactly the devices there are under the name, and a new device gets a
fresh id. A request that changes something may be carried out and still be answered with an error.
-/
namespace LosantDevice.Losant
open Effect Go Registry

/-- An application and a device name in it. -/
abbrev Place := String × String

abbrev Devices := Table String Place

/-- The client reads the reply as a success that carries `x`. -/
def Carries {β : Type} (reply : Reply β) (x : β) : Prop :=
  ∃ status body, reply = .response status body (.ok x) ∧ status < 400

/-- The client reads the reply as a success. -/
def Succeeds {β : Type} (reply : Reply β) : Prop :=
  ∃ status body decoded, reply = .response status body decoded ∧ status < 400

/-- How a request is answered. -/
def serve (t : Devices) : (e : http.Call) → http.Answer e → Devices → Prop
  | (_,.listDevices app name),reply,t' =>
    t' = t ∧ ∀ items : List Device, Carries reply items →
      ∀ id, (∃ d ∈ items, d.deviceID = id) ↔ t.Present id (app,name)
  | (_,.createDevice app payload),reply,t' =>
    (∃ id, t.Fresh id ∧ id ≠ "" ∧ t' = t.add id (app,payload.name) ∧
      ∀ d : Device, Carries reply d → d.deviceID = id ∨ d.deviceID = "") ∨
    t' = t ∧ ∀ d : Device, Carries reply d → d.deviceID = ""
  | (_,.deleteDevice app id),reply,t' =>
    (t' = t ∨ (∃ name, t.Present id (app,name)) ∧ t' = t.remove id) ∧
      (Succeeds reply → ∀ name, ¬t'.Present id (app,name))
  | (_,.application _),_,t' | (_,.patchAttributes _ _ _),_,t' | (_,.createKey _ _),_,t'
  | (_,.release _ _ _ _),_,t' | (_,.deployments _ _),_,t' => t' = t

/-- A method of the client can return `r`, with others at work on the devices meanwhile. -/
def Serves (own : Place → Prop) (c : HTTPClient) (m : Method) (t : Devices) (r : m.Answer)
    (t' : Devices) : Prop :=
  (c.implementation m).Runs serve (Table.Moved own) t r t'

/-- The place at which a method makes a device, if it makes any. -/
def Method.Makes : Method → Place → Prop
  | .ensureClusterDevice spec,k => k = (spec.applicationID,clusterDeviceName spec.clusterName)
  | .ensureNodeDevice spec n _,k => k = (spec.applicationID,nodeDeviceName spec.clusterName n)
  | _,_ => False

/-- The device a method deletes, if it deletes any. -/
def Method.Deletes : Method → String → Prop
  | .deleteDevice _ id,id' => id' = id
  | _,_ => False

variable {own K : Place → Prop} {D : String → Prop} {c : HTTPClient} {t t' : Devices}

/-! ## The methods that make no device -/

/-- A request that makes no device and deletes none but those of `D`. -/
def Harmless (D : String → Prop) (e : http.Call) : Prop :=
  (∀ app payload, e.2 ≠ .createDevice app payload) ∧ ∀ app id, e.2 = .deleteDevice app id → D id

theorem serve_harmless {e : http.Call} {r : http.Answer e} (he : Harmless D e)
    (hserve : serve t e r t') (hs : t.Sound own) : t.Grows own K D t' ∧ t'.Sound own := by
  obtain ⟨token,req⟩ := e
  have hsame : t' = t → t.Grows own K D t' ∧ t'.Sound own := by
    rintro rfl
    exact ⟨.refl _,hs⟩
  cases req with
  | createDevice app payload => exact absurd rfl (he.1 app payload)
  | listDevices => exact hsame hserve.1
  | deleteDevice app id =>
    rcases hserve.1 with heq | ⟨-,rfl⟩
    · exact hsame heq
    · exact ⟨Table.grows_remove (he.2 app id rfl),hs.remove id⟩
  | application | patchAttributes | createKey | release | deployments => exact hsame hserve

/-- The methods other than the two `Ensure` methods send one harmless request. -/
theorem implementation_harmless {m : Method} (hmakes : ∀ k, ¬m.Makes k) :
    (c.implementation m).Obeys (fun _ e => Harmless m.Deletes e) (fun _ _ => True) [] := by
  have hquiet : ∀ {m : Method} {req : Request}, (∀ app payload, req ≠ .createDevice app payload) →
      (∀ app id, req ≠ .deleteDevice app id) → Harmless m.Deletes (c.token,req) :=
    fun h1 h2 => ⟨h1,fun app id he => absurd he (h2 app id)⟩
  cases m with
  | ping => exact ⟨hquiet (by simp) (by simp),fun _ => trivial⟩
  | ensureClusterDevice spec => exact absurd rfl (hmakes _)
  | ensureNodeDevice spec n g => exact absurd rfl (hmakes _)
  | createDeviceAccessKey app id name =>
    refine ⟨hquiet (by simp) (by simp),fun reply => ?_⟩
    dsimp only [Bind.bind,Pure.pure,Program.bind]
    cases fetched "access key" (interpret (.createKey app name) reply) with
    | error err => trivial
    | ok k => exact .ite trivial trivial
  | deleteDevice app id =>
    refine ⟨⟨by simp,?_⟩,fun _ => trivial⟩
    rintro app' id' ⟨⟩
    rfl
  | releaseWorkflow app id flow version =>
    refine ⟨hquiet (by simp) (by simp),fun reply => ?_⟩
    dsimp only [Bind.bind,Pure.pure,Program.bind]
    cases sent (interpret (.release app flow version [id]) reply) with
    | error err => exact .ite trivial trivial
    | ok => trivial
  | getEdgeDeployments app id => exact ⟨hquiet (by simp) (by simp),fun _ => trivial⟩

theorem Serves.harmless {m : Method} {r : m.Answer} (hmakes : ∀ k, ¬m.Makes k)
    (h : Serves own c m t r t') (hs : t.Sound own) :
    t.Grows own K m.Deletes t' ∧ t'.Sound own := by
  refine Program.Runs.relates
    (R := fun t t' => t.Sound own → t.Grows own K m.Deletes t' ∧ t'.Sound own) ?_ ?_ ?_ ?_
    (implementation_harmless hmakes) h hs
  · exact fun t hs => ⟨.refl t,hs⟩
  · intro t₁ t₂ t₃ h₁ h₂ hs
    obtain ⟨hg,hs⟩ := h₁ hs
    obtain ⟨hg',hs⟩ := h₂ hs
    exact ⟨hg.trans hg',hs⟩
  · exact fun hm hs => ⟨hm.grows,hs.moved hm⟩
  · exact fun he ha hs => serve_harmless he ha hs

/-! ## The two methods that make one -/

theorem carries_of_fetched {req : Request} {what : String} {reply : Reply req.Decoded}
    {x : req.Decoded} (h : fetched what (interpret req reply) = .ok x) : Carries reply x := by
  cases reply with
  | unbuilt err | failed err | unread err => cases h
  | response status body decoded =>
    change fetched what (if 400 ≤ status then _ else _) = _ at h
    split at h
    · cases h
    · rename_i hlt
      cases decoded with
      | error err => cases h
      | ok y =>
        cases h
        exact ⟨status,body,rfl,Nat.lt_of_not_le hlt⟩

/-- What the `Ensure` methods leave behind at the place `k`. They return no device that was removed
before. -/
structure Ensured (own : Place → Prop) (k : Place) (t : Devices) (r : Except Error String)
    (t' : Devices) : Prop where
  grows : t.Grows own (· = k) (fun _ => False) t'
  sound : t'.Sound own
  settled {id} : r = .ok id → t'.Settled id k
  there {id} : r = .ok id → id ∉ t.removed

variable {k : Place} {r : Except Error String}

theorem Ensured.before {t₀ : Devices} (hg : t₀.Grows own (· = k) (fun _ => False) t)
    (h : Ensured own k t r t') : Ensured own k t₀ r t' :=
  ⟨hg.trans h.grows,h.sound,h.settled,fun hr hrem => h.there hr (hg.removed hrem)⟩

/-- Nothing is left to do but to return. -/
theorem ensured_done {t₀ : Devices} (hk : own k) (hs : t.Sound own)
    (hgrows : t₀.Grows own (· = k) (fun _ => False) t)
    (hsettled : ∀ id, r = .ok id → t.Settled id k ∧ id ∉ t₀.removed)
    (hm : Relation.ReflTransGen (Table.Moved own) t t') : Ensured own k t₀ r t' := by
  obtain ⟨hg,hs'⟩ := hs.others hm (K := fun _ => False) (D := fun _ => False)
  have hg' := (hs.others hm (K := (· = k)) (D := fun _ => False)).1
  refine ⟨hgrows.trans hg',hs',?_,fun hr => (hsettled _ hr).2⟩
  intro i hr
  exact (hsettled i hr).1.grows hg hk id id

/-- The id that `createDevice` takes from a decoded body. -/
def newDeviceID : Except Error Device → Except Error String
  | .error err => .error err
  | .ok dev =>
    if dev.deviceID = "" then .error { text := "create device: empty deviceId in response" }
    else .ok dev.deviceID

theorem newDeviceID_eq_ok {x : Except Error Device} {id : String} (h : newDeviceID x = .ok id) :
    id ≠ "" ∧ ∃ d, x = .ok d ∧ d.deviceID = id := by
  cases x with
  | error err => cases h
  | ok d =>
    change (if d.deviceID = "" then _ else _) = _ at h
    split at h
    · cases h
    · rename_i hne
      cases h
      exact ⟨hne,d,rfl,rfl⟩

theorem createDevice_eq (app name deviceClass recipeID gatewayID : String) (tags : List Tag)
    (attrs : List DeviceAttribute) : ∃ payload, payload.name = name ∧
      c.createDevice app name deviceClass recipeID gatewayID tags attrs =
        .call (c.token,.createDevice app payload) fun reply =>
          .done (newDeviceID
            (fetched "create device" (interpret (.createDevice app payload) reply))) := by
  refine ⟨_,rfl,congrArg (Program.call (I := http) (c.token,_)) (funext fun reply => ?_)⟩
  change Program.bind (.done (fetched (β := Device) "create device" (interpret _ reply))) _ =
    .done (newDeviceID (fetched (β := Device) "create device" (interpret _ reply)))
  generalize fetched (β := Device) "create device" (interpret _ reply) = x
  cases x with
  | error err => rfl
  | ok d =>
    change (if d.deviceID = "" then _ else _) = Program.done (if d.deviceID = "" then _ else _)
    by_cases hd : d.deviceID = ""
    · rw [if_pos hd,if_pos hd]
      rfl
    · rw [if_neg hd,if_neg hd]
      rfl

variable {app name deviceClass recipeID gatewayID : String} {tags : List Tag}
  {attrs : List DeviceAttribute} {G : Devices → Devices → Prop}

/-- Everything a creation can do: it makes a device and may return its id, or it makes none and
returns none. -/
theorem createDevice_inv
    (h : (c.createDevice app name deviceClass recipeID gatewayID tags attrs).Runs serve G t r t') :
    ∃ t₁ t₂, Relation.ReflTransGen G t t₁ ∧ Relation.ReflTransGen G t₂ t' ∧
      ((∃ new, t₁.Fresh new ∧ t₂ = t₁.add new (app,name) ∧ ∀ id, r = .ok id → id = new) ∨
        t₂ = t₁ ∧ ∀ id, r ≠ .ok id) := by
  obtain ⟨payload,rfl,heq⟩ :=
    createDevice_eq (c := c) app name deviceClass recipeID gatewayID tags attrs
  rw [heq] at h
  obtain ⟨t₁,reply,t₂,hm,hserve,hrest⟩ := Program.Runs.call_inv h
  obtain ⟨rfl,hm'⟩ := hrest.done_inv
  refine ⟨t₁,t₂,hm,hm',?_⟩
  rcases hserve with ⟨new,hfresh,-,rfl,hcarries⟩ | ⟨rfl,hcarries⟩
  · refine .inl ⟨new,hfresh,rfl,fun id ha => ?_⟩
    obtain ⟨hne,d,hd,rfl⟩ := newDeviceID_eq_ok ha
    exact (hcarries d (carries_of_fetched hd)).resolve_right hne
  · refine .inr ⟨rfl,fun id ha => ?_⟩
    obtain ⟨hne,d,hd,rfl⟩ := newDeviceID_eq_ok ha
    exact hne (hcarries d (carries_of_fetched hd))

/-- Everything the `Ensure` methods can do: they fail, they create a device under a name that was
free, or they return one that was there. -/
theorem ensureDevice_inv
    (h : (c.ensureDevice app name deviceClass recipeID gatewayID tags attrs).Runs serve G t r t') :
    ∃ t₁, Relation.ReflTransGen G t t₁ ∧
      ((∀ id, r ≠ .ok id) ∧ Relation.ReflTransGen G t₁ t' ∨
        (∀ j, ¬t₁.Present j (app,name)) ∧
          (c.createDevice app name deviceClass recipeID gatewayID tags attrs).Runs serve G t₁ r t' ∨
        ∃ i, t₁.Present i (app,name) ∧ Relation.ReflTransGen G t₁ t' ∧ ∀ id, r = .ok id →
          id = i) := by
  obtain ⟨t₁,reply,t₂,hm,⟨rfl,hlist⟩,hrest⟩ := Program.Runs.call_inv h
  refine ⟨t₂,hm,?_⟩
  dsimp only [Bind.bind,Pure.pure,Program.bind] at hrest
  cases hx : fetched "device list" (interpret (.listDevices app name) reply) with
  | error err =>
    rw [hx] at hrest
    obtain ⟨rfl,hm'⟩ := Program.Runs.done_inv hrest
    exact .inl ⟨by simp,hm'⟩
  | ok items =>
    rw [hx] at hrest
    have hexact := hlist items (carries_of_fetched hx)
    change List Device at items
    cases items with
    | nil =>
      refine .inr (.inl ⟨fun j hj => ?_,hrest⟩)
      obtain ⟨d,hd,-⟩ := (hexact j).mpr hj
      cases hd
    | cons d rest =>
      have hpresent : t₂.Present d.deviceID (app,name) :=
        (hexact d.deviceID).mp ⟨d,List.mem_cons_self,rfl⟩
      -- The attributes are patched; in the meantime the device may be taken.
      obtain ⟨t₃,reply,t₄,hm,rfl,hrest⟩ := Program.Runs.call_inv hrest
      dsimp only [Bind.bind,Pure.pure,Program.bind] at hrest
      refine .inr (.inr ⟨d.deviceID,hpresent,?_⟩)
      cases hsent : sent (interpret (.patchAttributes app d.deviceID attrs) reply) with
      | error err =>
        rw [hsent] at hrest
        obtain ⟨rfl,hm'⟩ := hrest.done_inv
        exact ⟨hm.trans hm',by simp⟩
      | ok =>
        rw [hsent] at hrest
        obtain ⟨rfl,hm'⟩ := hrest.done_inv
        exact ⟨hm.trans hm',fun id hid => (Except.ok.inj hid).symm⟩

theorem ensured_createDevice (hk : own (app,name)) (hs : t.Sound own)
    (hfree : ∀ j, ¬t.Present j (app,name))
    (h : (c.createDevice app name deviceClass recipeID gatewayID tags attrs).Runs serve
      (Table.Moved own) t r t') : Ensured own (app,name) t r t' := by
  obtain ⟨t₁,t₂,hm,hm',hcases⟩ := createDevice_inv h
  obtain ⟨hg,hs₁⟩ := hs.others hm (K := fun _ => False) (D := fun _ => False)
  have hg' := (hs.others hm (K := (· = (app,name))) (D := fun _ => False)).1
  -- Others make no device under this name, so it is still free.
  have hfree₁ : ∀ j, ¬t₁.Present j (app,name) := fun j hj => hfree j (hj.before hg hk id)
  refine Ensured.before hg' ?_
  rcases hcases with ⟨new,hfresh,rfl,hid⟩ | ⟨rfl,hnone⟩
  · have hs₂ : (t₁.add new (app,name)).Sound own := hs₁.add hfresh (fun _ => hfree₁)
    refine Ensured.before (Table.grows_add (i := new) rfl) (ensured_done hk hs₂ (.refl _) ?_ hm')
    intro id ha
    rw [hid id ha]
    exact ⟨hs₂.settled hk ⟨List.mem_cons_self,hfresh.1⟩,hfresh.1⟩
  · exact ensured_done hk hs₁ (.refl _) (fun id ha => absurd ha (hnone id)) hm'

theorem ensured_ensureDevice (hk : own (app,name)) (hs : t.Sound own)
    (h : (c.ensureDevice app name deviceClass recipeID gatewayID tags attrs).Runs serve
      (Table.Moved own) t r t') : Ensured own (app,name) t r t' := by
  obtain ⟨t₁,hm,hcases⟩ := ensureDevice_inv h
  obtain ⟨hg,hs₁⟩ := hs.others hm (K := (· = (app,name))) (D := fun _ => False)
  refine Ensured.before hg ?_
  rcases hcases with ⟨hnone,hm'⟩ | ⟨hfree,hrest⟩ | ⟨i,hpresent,hm',hid⟩
  · exact ensured_done hk hs₁ (.refl _) (fun id ha => absurd ha (hnone id)) hm'
  · exact ensured_createDevice hk hs₁ hfree hrest
  · refine ensured_done hk hs₁ (.refl _) (fun id ha => ?_) hm'
    rw [hid id ha]
    exact ⟨hs₁.settled hk hpresent,hpresent.2⟩

/-! ## All methods -/

theorem Serves.ensured_cluster {spec : LosantSyncSpec} (hs : t.Sound own)
    (hk : own (spec.applicationID,clusterDeviceName spec.clusterName))
    (h : Serves own c (.ensureClusterDevice spec) t r t') :
    Ensured own (spec.applicationID,clusterDeviceName spec.clusterName) t r t' :=
  ensured_ensureDevice hk hs h

theorem Serves.ensured_node {spec : LosantSyncSpec} {n gatewayID : String} (hs : t.Sound own)
    (hk : own (spec.applicationID,nodeDeviceName spec.clusterName n))
    (h : Serves own c (.ensureNodeDevice spec n gatewayID) t r t') :
    Ensured own (spec.applicationID,nodeDeviceName spec.clusterName n) t r t' :=
  ensured_ensureDevice hk hs h

/-- A method makes devices only at its own place and removes only the device it is told to. -/
theorem Serves.grows {m : Method} {r : m.Answer} (hs : t.Sound own)
    (hown : ∀ k, m.Makes k → own k) (h : Serves own c m t r t') :
    t.Grows own m.Makes m.Deletes t' ∧ t'.Sound own := by
  match m with
  | .ensureClusterDevice spec =>
    have he := h.ensured_cluster hs (hown _ rfl)
    exact ⟨he.grows,he.sound⟩
  | .ensureNodeDevice spec n g =>
    have he := h.ensured_node hs (hown _ rfl)
    exact ⟨he.grows,he.sound⟩
  | .ping | .createDeviceAccessKey _ _ _ | .deleteDevice _ _ | .releaseWorkflow _ _ _ _
  | .getEdgeDeployments _ _ => exact h.harmless (by simp [Method.Makes]) hs

/-- A key that is returned is complete. -/
theorem createDeviceAccessKey_complete {app id name : String} {key : AccessKey}
    (h : (c.createDeviceAccessKey app id name).Runs serve (Table.Moved own) t (.ok key) t') :
    key.key ≠ "" ∧ key.secret ≠ "" := by
  obtain ⟨t₁,reply,t₂,-,-,hrest⟩ := Program.Runs.call_inv h
  change Program.Runs _ _ (Program.bind (.done (fetched (β := AccessKey) "access key"
    (interpret _ reply))) _) _ _ _ at hrest
  generalize fetched (β := AccessKey) "access key" (interpret _ reply) = x at hrest
  cases x with
  | error err => cases hrest.done_inv.1
  | ok resp =>
    change Program.Runs _ _ (if resp.key = "" ∨ resp.secret = "" then _ else _) _ _ _ at hrest
    by_cases hempty : resp.key = "" ∨ resp.secret = ""
    · rw [if_pos hempty] at hrest
      cases hrest.done_inv.1
    · rw [if_neg hempty] at hrest
      cases hrest.done_inv.1
      exact not_or.mp hempty

/-- No device of the caller has an empty id. -/
def Named (own : Place → Prop) (t : Devices) : Prop := ∀ k, own k → ("",k) ∉ t.entries

theorem Named.moved (hn : Named own t) (hm : Table.Moved own t t') : Named own t' := by
  cases hm with
  | take hp => exact hn
  | add hf hforeign =>
    intro k hk he
    rcases List.mem_cons.mp he with he | he
    · cases he
      exact hforeign hk
    · exact hn k hk he

theorem Named.serve {e : http.Call} {r : http.Answer e} (hn : Named own t) (h : serve t e r t') :
    Named own t' := by
  obtain ⟨token,req⟩ := e
  have hsame : t' = t → Named own t' := by
    intro heq
    rw [heq]
    exact hn
  cases req with
  | createDevice app payload =>
    rcases h with ⟨id,-,hid,rfl,-⟩ | ⟨heq,-⟩
    · intro k hk he
      rcases List.mem_cons.mp he with he | he
      · cases he
        exact hid rfl
      · exact hn k hk he
    · exact hsame heq
  | listDevices => exact hsame h.1
  | deleteDevice app id =>
    rcases h.1 with heq | ⟨-,rfl⟩
    · exact hsame heq
    · exact hn
  | application | patchAttributes | createKey | release | deployments => exact hsame h

theorem Serves.named {m : Method} {r : m.Answer} (hn : Named own t) (h : Serves own c m t r t') :
    Named own t' := by
  refine Program.Runs.relates (R := fun t t' => Named own t → Named own t') (P := fun _ => True)
    (fun _ hn => hn) (fun h₁ h₂ hn => h₂ (h₁ hn)) (fun hm hn => hn.moved hm)
    (fun _ ha hn => hn.serve ha) (Program.obeys_true [] _) h hn

/-! ## Places that anybody may use -/

theorem serve_entries {e : http.Call} {r : http.Answer e} (h : serve t e r t') :
    t.entries ⊆ t'.entries := by
  obtain ⟨token,req⟩ := e
  have hsame : t' = t → t.entries ⊆ t'.entries := by
    rintro rfl
    exact List.Subset.refl _
  cases req with
  | createDevice app payload =>
    rcases h with ⟨id,-,-,rfl,-⟩ | ⟨heq,-⟩
    · exact List.subset_cons_self _ _
    · exact hsame heq
  | listDevices => exact hsame h.1
  | deleteDevice app id =>
    rcases h.1 with heq | ⟨-,rfl⟩
    · exact hsame heq
    · exact List.Subset.refl _
  | application | patchAttributes | createKey | release | deployments => exact hsame h

/-- Every id keeps its one place. -/
theorem serve_sound {e : http.Call} {r : http.Answer e} (h : serve t e r t')
    (hs : t.Sound (fun _ => False)) : t'.Sound (fun _ => False) := by
  obtain ⟨token,req⟩ := e
  have hsame : t' = t → t'.Sound (fun _ => False) := by
    rintro rfl
    exact hs
  cases req with
  | createDevice app payload =>
    rcases h with ⟨id,hfresh,-,rfl,-⟩ | ⟨heq,-⟩
    · exact hs.add hfresh (fun hf => hf.elim)
    · exact hsame heq
  | listDevices => exact hsame h.1
  | deleteDevice app id =>
    rcases h.1 with heq | ⟨-,rfl⟩
    · exact hsame heq
    · exact hs.remove id
  | application | patchAttributes | createKey | release | deployments => exact hsame h

theorem entries_subset (hG : ∀ {t t'}, G t t' → t.entries ⊆ t'.entries)
    (h : Relation.ReflTransGen G t t') : t.entries ⊆ t'.entries := by
  induction h with
  | refl => exact List.Subset.refl _
  | tail _ hm ih => exact List.Subset.trans ih (hG hm)

/-- Whatever others do, the device that is returned was made under the name it was asked for. -/
theorem ensureDevice_entry (hG : ∀ {t t'}, G t t' → t.entries ⊆ t'.entries) {id : String}
    (h : (c.ensureDevice app name deviceClass recipeID gatewayID tags attrs).Runs serve G t
      (.ok id) t') : (id,(app,name)) ∈ t'.entries := by
  obtain ⟨t₁,-,hcases⟩ := ensureDevice_inv h
  rcases hcases with ⟨hnone,-⟩ | ⟨-,hrest⟩ | ⟨i,hpresent,hm,hid⟩
  · exact absurd rfl (hnone id)
  · obtain ⟨t₂,t₃,-,hm,⟨new,-,rfl,hid⟩ | ⟨-,hnone⟩⟩ := createDevice_inv hrest
    · rw [hid id rfl]
      exact entries_subset hG hm List.mem_cons_self
    · exact absurd rfl (hnone id)
  · rw [hid id rfl]
    exact entries_subset hG hm hpresent.1

/-! ## Answers that can be evaluated -/

/-- Every request is carried out and answered. -/
def respond (t : Devices) : (e : http.Call) → Option (http.Answer e × Devices)
  | (_,.listDevices app name) =>
    let items := (t.entries.filter (fun p => p.2 = (app,name) ∧ p.1 ∉ t.removed)).map
      fun p => ({ deviceID := p.1, name := name } : Device)
    some (.response 200 "" (.ok items),t)
  | (_,.createDevice app payload) =>
    let id := "device-" ++ toString t.entries.length
    if id ∉ t.removed ∧ (∀ p ∈ t.entries, p.1 ≠ id) ∧ id ≠ "" then
      some (.response 200 "" (.ok ({ deviceID := id, name := payload.name } : Device)),
        t.add id (app,payload.name))
    else none
  | (_,.createKey _ _) => some (.response 200 "" (.ok (⟨"id","key","secret"⟩ : AccessKey)),t)
  | (_,.application _) | (_,.patchAttributes _ _ _) | (_,.release _ _ _ _) =>
    some (.response 200 "" (.ok ()),t)
  | (_,.deployments _ _) => some (.response 200 "" (.ok ([] : List EdgeDeploymentStatus)),t)
  | (_,.deleteDevice _ _) => none

theorem serve_of_respond {e : http.Call} {r : http.Answer e} (h : respond t e = some (r,t')) :
    serve t e r t' := by
  obtain ⟨token,req⟩ := e
  cases req with
  | listDevices app name =>
    cases h
    refine ⟨rfl,?_⟩
    rintro items ⟨status,body,heq,-⟩ id
    cases heq
    simp only [List.mem_map,List.mem_filter,decide_eq_true_eq,Table.Present]
    constructor
    · rintro ⟨d,⟨⟨i,k⟩,⟨hm,hk,hr⟩,rfl⟩,rfl⟩
      exact ⟨hk ▸ hm,hr⟩
    · rintro ⟨hm,hr⟩
      exact ⟨_,⟨(id,(app,name)),⟨hm,rfl,hr⟩,rfl⟩,rfl⟩
  | createDevice app payload =>
    change (if _ then _ else none) = _ at h
    split at h
    · rename_i hc
      cases h
      refine .inl ⟨_,⟨hc.1,fun k hk => hc.2.1 _ hk rfl⟩,hc.2.2,rfl,?_⟩
      rintro d ⟨status,body,heq,-⟩
      cases heq
      exact .inl rfl
    · cases h
  | deleteDevice => cases h
  | application | patchAttributes | createKey | release | deployments =>
    cases h
    rfl

end LosantDevice.Losant

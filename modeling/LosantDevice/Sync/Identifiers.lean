import LosantDevice.Sync.Isolation

/-!
# Devices without an id

A device that is created must come with an id; one that is found in a list need not. What the
controller is given as an id it keeps and uses, when it reports and when it deletes.
-/
namespace LosantDevice
open Effect Kube Go Program

namespace Losant

/-- Requests about one device name it. -/
def Request.Identifies : Request → Prop
  | .patchAttributes _ id _ | .deleteDevice _ id => id ≠ ""
  | _ => True

/-- A list that the client accepts and whose first device has no id. -/
def Anonymous : Event http → Prop
  | ⟨(_,.listDevices _ _),reply⟩ =>
    ∃ d items, Carries (β := List Device) reply (d::items) ∧ d.deviceID = ""
  | _ => False

/-- A reply shows a device without an id. -/
def unnamed : Reply (List Device) → Bool
  | .response status _ (.ok (d::_)) => status < 400 ∧ d.deviceID = ""
  | _ => false

theorem Carries.unnamed {reply : Reply (List Device)} {d : Device} {items : List Device}
    (h : Carries reply (d::items)) (hd : d.deviceID = "") : unnamed reply = true := by
  obtain ⟨status,body,rfl,hlt⟩ := h
  exact decide_eq_true ⟨hlt,hd⟩

/-- The event is a list with a device without an id. -/
def listsUnnamed : Event http → Bool
  | ⟨(_,.listDevices _ _),reply⟩ => unnamed reply
  | _ => false

theorem Anonymous.listsUnnamed {ev : Event http} (h : Anonymous ev) : listsUnnamed ev = true := by
  obtain ⟨⟨token,req⟩,reply⟩ := ev
  cases req with
  | listDevices app name =>
    obtain ⟨d,items,hc,hd⟩ := h
    exact hc.unnamed hd
  | application | createDevice | patchAttributes | createKey | deleteDevice | release
  | deployments => exact h.elim

/-- An id the method returns is not empty. -/
def Method.Names : (m : Method) → m.Answer → Prop
  | .ensureClusterDevice _,r | .ensureNodeDevice _ _ _,r =>
    ∀ id, (r : Except Error String) = .ok id → id ≠ ""
  | _,_ => True

/-- Nothing in the history is without an id, neither a device listed nor a request. -/
structure Clear (h : History http) : Prop where
  listed : ∀ ev ∈ h, ¬Anonymous ev
  sent : ∀ ev ∈ h, ev.call.2.Identifies

/-- The history shows a device listed without an id, and a request without one. -/
structure Muddled (h : History http) : Prop where
  listed : ∃ ev ∈ h, Anonymous ev
  sent : ∃ ev ∈ h, ¬ev.call.2.Identifies

variable {h h' : History http} {c : HTTPClient}

theorem Clear.cons (hc : Clear h) {ev : Event http} (hl : ¬Anonymous ev)
    (hi : ev.call.2.Identifies) : Clear (ev::h) :=
  ⟨List.forall_mem_cons.mpr ⟨hl,hc.listed⟩,List.forall_mem_cons.mpr ⟨hi,hc.sent⟩⟩

theorem Muddled.later (hm : Muddled h) (hs : h <:+ h') : Muddled h' := by
  obtain ⟨⟨ev,hev,ha⟩,ev',hev',hn⟩ := hm
  exact ⟨⟨ev,hs.subset hev,ha⟩,ev',hs.subset hev',hn⟩

/-- How a method that starts with a clear history may leave it. -/
def Outcome (m : Method) (h : History http) (r : m.Answer) : Prop :=
  Clear h ∧ m.Names r ∨ Muddled h

/-- One request that is no list leaves the history clear. -/
theorem Clear.send {α : Type} (hc : Clear h) {q : Request} (hi : q.Identifies)
    (hl : ∀ app name, q ≠ .listDevices app name) {Ψ : History http → α → Prop}
    {next : http.Answer (c.token,q) → Program http α}
    (hnext : ∀ h' reply, Clear h' → Obeys (fun _ _ => True) Ψ h' (next reply)) :
    Obeys (fun _ _ => True) Ψ h (.call (c.token,q) next) := by
  refine ⟨trivial,fun reply => hnext _ reply (hc.cons ?_ hi)⟩
  cases q with
  | listDevices app name => exact absurd rfl (hl app name)
  | application | createDevice | patchAttributes | createKey | deleteDevice | release
  | deployments => exact id

theorem fetched_of_carries {req : Request} {what : String} {reply : Reply req.Decoded}
    {x : req.Decoded} (h : Carries reply x) : fetched what (interpret req reply) = .ok x := by
  obtain ⟨status,body,rfl,hlt⟩ := h
  simp only [interpret,if_neg (Nat.not_le.mpr hlt),fetched]

section ensure
variable {app name deviceClass recipeID gatewayID : String} {tags : List Tag}
  {attrs : List DeviceAttribute}

theorem createDevice_names (hc : Clear h) :
    Obeys (fun _ _ => True) (fun h' r => Clear h' ∧ ∀ id, r = .ok id → id ≠ "") h
      (c.createDevice app name deviceClass recipeID gatewayID tags attrs) := by
  obtain ⟨payload,-,heq⟩ :=
    createDevice_eq (c := c) app name deviceClass recipeID gatewayID tags attrs
  rw [heq]
  refine hc.send (q := .createDevice app payload) trivial (fun _ _ => nofun) ?_
  intro h' reply hc'
  exact ⟨hc',fun id hid => (newDeviceID_eq_ok hid).1⟩

/-- The first device of a list is patched under the id it came with. -/
theorem ensureDevice_outcome (hc : Clear h) :
    Obeys (fun _ _ => True)
      (fun h' r => (Clear h' ∧ ∀ id, r = .ok id → id ≠ "") ∨ Muddled h') h
      (c.ensureDevice app name deviceClass recipeID gatewayID tags attrs) := by
  refine ⟨trivial,fun reply => ?_⟩
  dsimp only [Bind.bind,Pure.pure,Program.bind]
  have hread : Anonymous ⟨(c.token,.listDevices app name),reply⟩ →
      ∃ (d : Device) (items : List Device), d.deviceID = "" ∧
        fetched "device list" (interpret (.listDevices app name) reply) = .ok (d::items) := by
    rintro ⟨d,items,hcarries,hd⟩
    exact ⟨d,items,hd,fetched_of_carries hcarries⟩
  cases hx : fetched "device list" (interpret (.listDevices app name) reply) with
  | error err =>
    refine .inl ⟨hc.cons ?_ trivial,nofun⟩
    intro ha
    obtain ⟨d,items,-,hok⟩ := hread ha
    cases hx.symm.trans hok
  | ok items =>
    change List Device at items
    cases items with
    | nil =>
      have hnone : ¬Anonymous ⟨(c.token,.listDevices app name),reply⟩ := by
        intro ha
        obtain ⟨d,items,-,hok⟩ := hread ha
        cases hx.symm.trans hok
      exact (createDevice_names (hc.cons hnone trivial)).mono (fun _ _ => id) (fun _ _ => .inl)
    | cons d items =>
      refine ⟨trivial,fun reply' => ?_⟩
      dsimp only [Bind.bind,Pure.pure,Program.bind]
      by_cases hd : d.deviceID = ""
      · -- The list is on record, and so is the request to patch no device in particular.
        have hlisted : Anonymous ⟨(c.token,.listDevices app name),reply⟩ :=
          ⟨d,items,carries_of_fetched hx,hd⟩
        have hm : Muddled (⟨(c.token,.patchAttributes app d.deviceID attrs),reply'⟩::
            ⟨(c.token,.listDevices app name),reply⟩::h) :=
          ⟨⟨_,List.mem_cons_of_mem _ List.mem_cons_self,hlisted⟩,
            ⟨_,List.mem_cons_self,fun hne => hne hd⟩⟩
        cases sent (interpret (.patchAttributes app d.deviceID attrs) reply') with
        | error err => exact .inr hm
        | ok => exact .inr hm
      · have hnamed : ¬Anonymous ⟨(c.token,.listDevices app name),reply⟩ := by
          intro ha
          obtain ⟨d',items',hd',hok⟩ := hread ha
          cases hx.symm.trans hok
          exact hd hd'
        have hclear : Clear (⟨(c.token,.patchAttributes app d.deviceID attrs),reply'⟩::
            ⟨(c.token,.listDevices app name),reply⟩::h) := (hc.cons hnamed trivial).cons id hd
        cases sent (interpret (.patchAttributes app d.deviceID attrs) reply') with
        | error err => exact .inl ⟨hclear,nofun⟩
        | ok =>
          refine .inl ⟨hclear,?_⟩
          rintro id ⟨⟩
          exact hd

end ensure

/-- The other methods send one request, which names a device if it is about one. -/
theorem implementation_outcome {m : Method} (hm : ∀ app, m ≠ .deleteDevice app "")
    (hc : Clear h) : Obeys (fun _ _ => True) (Outcome m) h (c.implementation m) := by
  cases m with
  | ensureClusterDevice spec => exact ensureDevice_outcome hc
  | ensureNodeDevice spec n g => exact ensureDevice_outcome hc
  | ping =>
    exact hc.send (q := .application _) trivial (fun _ _ => nofun) fun _ _ h' => .inl ⟨h',trivial⟩
  | createDeviceAccessKey app id name =>
    refine hc.send (q := .createKey app name) trivial (fun _ _ => nofun) fun h' reply hc' => ?_
    dsimp only [Bind.bind,Pure.pure,Program.bind]
    cases fetched "access key" (interpret (.createKey app name) reply) with
    | error err => exact .inl ⟨hc',trivial⟩
    | ok k => exact .ite (.inl ⟨hc',trivial⟩) (.inl ⟨hc',trivial⟩)
  | deleteDevice app id =>
    have hid : id ≠ "" := by
      rintro rfl
      exact hm app rfl
    exact hc.send (q := .deleteDevice app id) hid (fun _ _ => nofun) fun _ _ h' => .inl ⟨h',trivial⟩
  | releaseWorkflow app id flow version =>
    refine hc.send (q := .release app flow version [id]) trivial (fun _ _ => nofun) ?_
    intro h' reply hc'
    dsimp only [Bind.bind,Pure.pure,Program.bind]
    cases sent (interpret (.release app flow version [id]) reply) with
    | error err => exact .ite (.inl ⟨hc',trivial⟩) (.inl ⟨hc',trivial⟩)
    | ok => exact .inl ⟨hc',trivial⟩
  | getEdgeDeployments app id =>
    exact hc.send (q := .deployments app id) trivial (fun _ _ => nofun) fun _ _ h' =>
      .inl ⟨h',trivial⟩

/-- Where the devices of an application are. -/
def collection (app : String) : String := Request.apiBase ++ "/applications/" ++ app ++ "/devices/"

theorem deleteDevice_path {app id : String} (hid : id ≠ "") :
    (Request.deleteDevice app id).path ≠ collection app := by
  intro h
  have h : collection app ++ id = collection app ++ "" := h.trans String.append_empty.symm
  exact hid (String.append_right_inj _ |>.mp h)

end Losant

namespace Sync

/-- A method of the client, with any replies. -/
def Exchanged (w : History Losant.http) (lc : Losant.HTTPClient) (m : Losant.Method) (r : m.Answer)
    (w' : History Losant.http) : Prop := ∃ s, run s w (lc.implementation m) = (w',r)

/-- A controller whose client gets any replies. The world is what was said. -/
def overHTTP (lib : Externals) : System losantSync calls (Except String Result) where
  World := History Losant.http
  start w := w = []
  answers := onLosant Exchanged
  others _ _ := False
  main := reconcile lib

/-- The call is about some device in particular. -/
def Addressed : interface.Call → Prop
  | .inr (.losant _ (.deleteDevice _ id)) => id ≠ ""
  | .inr (.reportState _ payload) => payload.deviceID ≠ ""
  | _ => True

/-- The call was made, whether or not it was answered. -/
def Made {σ : System losantSync calls (Except String Result)} (c : Config σ)
    (e : interface.Call) : Prop :=
  (∃ h ∈ c.histories, ∃ ev ∈ h, ev.call = e) ∨ ∃ h next, c.job = some (h,.call e next)

variable {lib : Externals} {c d : Config (overHTTP lib)}

/-- Every request that was sent and the reply to it. -/
def traffic (c : Config (overHTTP lib)) : History Losant.http := c.world

/-- Nothing was ever sent about a device without an id. -/
structure Identified (c : Config (overHTTP lib)) : Prop where
  requests : ∀ ev ∈ traffic c, ev.call.2.Identifies
  calls {e} : Made c e → Addressed e
  collections {token app id reply} :
    (⟨(token,.deleteDevice app id),reply⟩ : Event Losant.http) ∈ traffic c →
      (Losant.Request.deleteDevice app id).path ≠ Losant.collection app

theorem allowed_of_made {e : interface.Call} (hc : (overHTTP lib).Reachable c) (he : Made c e) :
    ∃ k ∈ c.histories, ∃ l, l <:+ k ∧ Permits l e ∧ Tells lib l e := by
  rcases he with ⟨h,hh,ev,hev,rfl⟩ | ⟨h,next,hj⟩
  · obtain ⟨l,hl,hallowed⟩ := (traced_telling rfl hc).allowed_of_mem hh hev
    exact ⟨h,hh,l,hl,hallowed⟩
  · have hsound := sound_telling rfl hc
    exact ⟨h,Config.mem_histories hj,h,List.suffix_refl h,(hsound.obeys hj).1⟩

/-- As long as every id that was given is one, the calls are addressed. -/
theorem addressed_of_made {e : interface.Call} (hc : (overHTTP lib).Reachable c)
    (hgiven : ∀ slot id, Given c slot id → id ≠ "") (he : Made c e) : Addressed e := by
  have hmain : (overHTTP lib).main = reconcile lib := rfl
  have htraced := traced_telling hmain hc
  obtain ⟨k,hk,l,hl,hpermits,htells⟩ := allowed_of_made hc he
  fun_cases Addressed e with
  | case1 lc app id =>
    obtain ⟨-,b,hb,-,hrec⟩ := hpermits
    obtain ⟨slot,hg⟩ := given_of_copy htraced hk hl hb.1 hrec
    exact hgiven slot id hg
  | case2 gc payload =>
    obtain ⟨slot,-,hknown⟩ := htells
    exact hgiven slot payload.deviceID (hknown.given hk hl)
  | case3 => trivial

theorem Gives.named {lc : Losant.HTTPClient} {m : Losant.Method} {r : m.Answer} {slot : Slot}
    {id : String} (hg : Gives ⟨.inr (.losant lc m),r⟩ slot id) (hr : m.Names r) : id ≠ "" := by
  cases hg with
  | cluster => exact hr id rfl
  | node => exact hr id rfl

/-- A step leaves the traffic and the devices given as they are, or it is a method of the client. -/
theorem overHTTP_step (hs : (overHTTP lib).Step c d) :
    (traffic d = traffic c ∧ ∀ slot id, Given d slot id → Given c slot id) ∨
    ∃ h lc m next s, c.job = some (h,.call (.inr (.losant lc m)) next) ∧
      traffic d = (run s (traffic c) (lc.implementation m)).1 ∧
      ∀ slot id, Given d slot id → Given c slot id ∨
        Gives ⟨.inr (.losant lc m),(run s (traffic c) (lc.implementation m)).2⟩ slot id := by
  have hbefore := fun slot id (hg : Given d slot id) => hg.before hs
  -- Without a method of the client in the step nothing is given.
  have hkept : (∀ h lc m next, c.job ≠ some (h,.call (.inr (.losant lc m)) next)) →
      ∀ slot id, Given d slot id → Given c slot id := by
    intro hno slot id hg
    rcases hbefore slot id hg with hg | ⟨h,e,next,r,hj,-,hg⟩
    · exact hg
    · cases hg with
      | cluster => exact absurd hj (hno _ _ _ _)
      | node => exact absurd hj (hno _ _ _ _)
  cases hs with
  | others hfalse => exact hfalse.elim
  | user | crash => exact .inl ⟨rfl,fun _ _ hg => hg⟩
  | start | finish | own => exact .inl ⟨rfl,hkept (fun _ _ _ _ hj => nomatch hj)⟩
  | @outside s w w' past h e next r ha =>
    have ha : onLosant Exchanged w e r w' := ha
    rcases onLosant_cases ha with ⟨hsame,hother⟩ | ⟨lc,m,r,hev,s,hrun⟩
    · refine .inl ⟨hsame,hkept fun h' lc m next' hj => ?_⟩
      cases hj
      exact hother lc m rfl
    · cases hev
      refine .inr ⟨h,lc,m,next,s,rfl,(congrArg Prod.fst hrun).symm,fun slot id hg => ?_⟩
      rcases hbefore slot id hg with hg | ⟨h',e,next',r',hj,hj',hg⟩
      · exact .inl hg
      · cases hj
        cases hj'
        have hr : (run s w (lc.implementation m)).2 = r := congrArg Prod.snd hrun
        refine .inr ?_
        change Gives ⟨.inr (.losant lc m),(run s w (lc.implementation m)).2⟩ slot id
        rw [hr]
        exact hg

/-- Until a device is listed without an id there is none anywhere; from then on there is one in
some request. -/
theorem clear_or_muddled (hc : (overHTTP lib).Reachable c) :
    (Losant.Clear (traffic c) ∧ ∀ slot id, Given c slot id → id ≠ "") ∨
      Losant.Muddled (traffic c) := by
  induction hc with
  | @init w hw =>
    obtain rfl : w = [] := hw
    refine .inl ⟨⟨(fun _ h => nomatch h),(fun _ h => nomatch h)⟩,?_⟩
    rintro slot id ⟨h,hh,-⟩
    cases hh
  | @step c d hb hs _ ih =>
    rcases overHTTP_step hs with ⟨htraffic,hgiven⟩ | ⟨h,lc,m,next,s,hj,htraffic,hgiven⟩
    · rw [htraffic]
      refine ih.imp_left ?_
      rintro ⟨hclear,hids⟩
      exact ⟨hclear,fun slot id hg => hids slot id (hgiven slot id hg)⟩
    · rw [htraffic]
      rcases ih with ⟨hclear,hids⟩ | hm
      · have hdelete : ∀ app, m ≠ .deleteDevice app "" := by
          rintro app rfl
          exact addressed_of_made hb hids (.inr ⟨h,next,hj⟩) rfl
        refine ((Losant.implementation_outcome hdelete hclear).ends s).imp_left ?_
        rintro ⟨hclear',hnames⟩
        refine ⟨hclear',fun slot id hg => ?_⟩
        rcases hgiven slot id hg with hg | hg
        · exact hids slot id hg
        · exact hg.named hnames
      · exact .inr (hm.later (suffix_run _ _ _))

/-! ## Evaluated runs -/

/-- Every request works, and every list has one device, with the id given. -/
def listReplies (id : String) : Strategy Losant.http
  | _,(_,.listDevices _ name) =>
    .response 200 "" (.ok [({ deviceID := id, name := name } : Losant.Device)])
  | _,(_,.createDevice _ payload) =>
    .response 200 "" (.ok ({ deviceID := id, name := payload.name } : Losant.Device))
  | _,(_,.createKey _ _) => .response 200 "" (.ok (⟨"id","key","secret"⟩ : Losant.AccessKey))
  | _,(_,.deployments _ _) => .response 200 "" (.ok ([] : List Losant.EdgeDeploymentStatus))
  | _,(_,.application _) | _,(_,.patchAttributes _ _ _) | _,(_,.release _ _ _ _)
  | _,(_,.deleteDevice _ _) => .response 200 "" (.ok ())

def onlyDevice (id : String) : GoMap String := (∅ : GoMap String).insert "n1" id

def serveListing (id : String) (w : History Losant.http) :
    (e : Call) → Option (calls.Answer e × History Losant.http)
  | .losant lc m => some (run (listReplies id) w (lc.implementation m)).swap
  | .rangeDevices m =>
    if hm : m = onlyDevice id then some (⟨[⟨"n1",id⟩],by rw [hm]; rfl⟩,w) else none
  | e => (serveAlone "n1" {} e).map fun x => (x.1,w)

theorem answers_of_serveListing {id : String} {w w' : History Losant.http} {e : Call}
    {r : calls.Answer e} (h : serveListing id w e = some (r,w')) :
    (overHTTP lib).answers w e r w' := by
  have hsame : serveListing id w e = (serveAlone "n1" {} e).map (fun x => (x.1,w)) → w' = w := by
    intro heq
    obtain ⟨x,-,hx⟩ := Option.map_eq_some_iff.mp (heq.symm.trans h)
    exact (congrArg Prod.snd hx).symm
  cases e with
  | losant lc m =>
    cases h
    exact ⟨listReplies id,rfl⟩
  | rangeDevices m =>
    change (if _ : _ then _ else _) = _ at h
    split at h
    · cases h
      rfl
    · cases h
  | now | rangeNodes | healthSnapshot | getSecret | createSecret | updateSecret | getDeployment
  | patchDeployment | reportState => exact hsame rfl

def listingJob (id : String) : (overHTTP .plain).Act := .job
  { refuse := fun _ => none
    serve := fun _ w e => serveListing id w e
    sound := fun h => answers_of_serveListing h }

/-- The object is created, three jobs make it active, and it is deleted. -/
def activateAndDelete (id : String) : List (overHTTP .plain).Act :=
  [.create newSync,listingJob id,listingJob id,listingJob id,.markDeleted 0,listingJob id]

/-- The calls name their devices exactly as long as no list that was accepted has begun with a
device without an id. -/
theorem identified_iff (lib : Externals) {c : Config (overHTTP lib)}
    (hc : (overHTTP lib).Reachable c) :
    Identified c ↔ ∀ ev ∈ traffic c, ¬Losant.Anonymous ev := by
  rcases clear_or_muddled hc with ⟨hclear,hids⟩ | ⟨⟨ev,hev,ha⟩,ev',hev',hn⟩
  · refine iff_of_true ⟨hclear.sent,addressed_of_made hc hids,?_⟩ hclear.listed
    intro token app id reply hev
    exact Losant.deleteDevice_path (hclear.sent _ hev)
  · refine iff_of_false (fun hi => hn (hi.requests ev' hev')) (fun hno => hno ev hev ha)

/-- The lists name their devices, and the object is created, made active and deleted. -/
theorem identified_named : ∃ c : Config (overHTTP .plain), (overHTTP .plain).Reachable c ∧
    (∃ ev ∈ traffic c, ev.call.2 = .deleteDevice "app" "device-7") ∧ Identified c := by
  obtain ⟨c,hc,hp⟩ := System.exists_config (σ := overHTTP .plain) (w := []) rfl
    (activateAndDelete "device-7") (fun c =>
      ((traffic c).any fun ev => ev.call.2 = .deleteDevice "app" "device-7") &&
        (traffic c).all fun ev => !Losant.listsUnnamed ev) (by decide +kernel)
  obtain ⟨hdel,hnamed⟩ := (Bool.and_eq_true _ _).mp hp
  obtain ⟨ev,hev,hdel⟩ := List.any_eq_true.mp hdel
  refine ⟨c,hc,⟨ev,hev,of_decide_eq_true hdel⟩,(identified_iff .plain hc).mpr ?_⟩
  intro ev hev ha
  have hno := List.all_eq_true.mp hnamed ev hev
  rw [ha.listsUnnamed] at hno
  cases hno

/-- The lists name no device. It is patched, and once the object is deleted the request goes to the
devices of the whole application. -/
theorem unnamed_device_deleted : ∃ c : Config (overHTTP .plain), (overHTTP .plain).Reachable c ∧
    (∃ ev ∈ traffic c, ev.call.2 = .patchAttributes "app" "" Losant.nodeDeviceAttributes) ∧
    ∃ ev ∈ traffic c, ev.call.2 = .deleteDevice "app" "" ∧
      ev.call.2.path = Losant.collection "app" := by
  obtain ⟨c,hc,hp⟩ := System.exists_config (σ := overHTTP .plain) (w := []) rfl
    (activateAndDelete "") (fun c =>
      ((traffic c).any fun ev =>
        ev.call.2 = .patchAttributes "app" "" Losant.nodeDeviceAttributes) &&
        (traffic c).any fun ev => ev.call.2 = .deleteDevice "app" "") (by decide +kernel)
  obtain ⟨hpatch,hdel⟩ := (Bool.and_eq_true _ _).mp hp
  obtain ⟨ev,hev,hpatch⟩ := List.any_eq_true.mp hpatch
  obtain ⟨ev',hev',hdel⟩ := List.any_eq_true.mp hdel
  have hdel := of_decide_eq_true hdel
  refine ⟨c,hc,⟨ev,hev,of_decide_eq_true hpatch⟩,ev',hev',hdel,?_⟩
  rw [hdel]
  rfl

end Sync
end LosantDevice

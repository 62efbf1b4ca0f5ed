import LosantDevice.Sync.Devices

/-!
# Two clusters in one application

Two controllers, each with a cluster of its own, on one table of devices. Their steps are
interleaved request by request, so that one may be between the list and the creation of a device
while the other makes, finds or deletes devices. Nothing is assumed of the answers from the two
clusters, and others make and delete devices as they like.
-/
namespace LosantDevice.Sync
open Effect Kube Go Program Registry

/-- One of the controllers, with what is left of the method of the Losant client it is in. -/
structure Side (lib : Externals) where
  config : Config (anyAnswers lib)
  method : Option ((m : Losant.Method) × Program Losant.http m.Answer)

/-- The job is at a method of the Losant client. -/
def Calling {lib : Externals} (c : Config (anyAnswers lib)) : Prop :=
  ∃ h lc m next, c.job = some (h,.call (.inr (.losant lc m)) next)

/-- What one controller does, with the devices before and after. A method is entered, sends its
requests one at a time, and returns. -/
inductive Side.Step {lib : Externals} :
    Losant.Devices → Side lib → Losant.Devices → Side lib → Prop
  | works {t c d} (moved : (anyAnswers lib).Step c d) (idle : ¬Calling c) :
      Step t ⟨c,none⟩ t ⟨d,none⟩
  | user {t s s' w past job p} (edited : Server.Edited s s') :
      Step t ⟨⟨s,w,past,job⟩,p⟩ t ⟨⟨s',w,past,job⟩,p⟩
  | crash {t s w past h q p} : Step t ⟨⟨s,w,past,some (h,q)⟩,p⟩ t ⟨⟨s,w,h::past,none⟩,none⟩
  | calls {t s w past h lc m next} :
      Step t ⟨⟨s,w,past,some (h,.call (.inr (.losant lc m)) next)⟩,none⟩
        t ⟨⟨s,w,past,some (h,.call (.inr (.losant lc m)) next)⟩,some ⟨m,lc.implementation m⟩⟩
  | sends {t t' c m e next r} (served : Losant.serve t e r t') :
      Step t ⟨c,some ⟨m,.call e next⟩⟩ t' ⟨c,some ⟨m,next r⟩⟩
  | returns {t s w past h lc m next r} :
      Step t ⟨⟨s,w,past,some (h,.call (.inr (.losant lc m)) next)⟩,some ⟨m,.done r⟩⟩
        t ⟨⟨s,w,past,some (⟨.inr (.losant lc m),r⟩::h,next r)⟩,none⟩

def Side.idle (lib : Externals) : Side lib := ⟨⟨⟨[],0⟩,(),[],none⟩,none⟩

structure Pair (lib : Externals) where
  devices : Losant.Devices
  first : Side lib
  second : Side lib

inductive Pair.Step {lib : Externals} : Pair lib → Pair lib → Prop
  | first {t t' a a' b} (moved : Side.Step t a t' a') : Step ⟨t,a,b⟩ ⟨t',a',b⟩
  | second {t t' a b b'} (moved : Side.Step t b t' b') : Step ⟨t,a,b⟩ ⟨t',a,b'⟩
  | others {t t' a b} (moved : Table.Moved (fun _ => False) t t') : Step ⟨t,a,b⟩ ⟨t',a,b⟩

/-- Reachable through states that satisfy `P`, from any devices that were there before. -/
inductive Pair.ReachableBy {lib : Externals} (P : Pair lib → Prop) : Pair lib → Prop
  | init {t} (sound : t.Sound (fun _ => False)) : ReachableBy P ⟨t,.idle lib,.idle lib⟩
  | step {c d} (before : ReachableBy P c) (moved : Pair.Step c d) (allowed : P d) : ReachableBy P d

variable {lib : Externals}

/-- The object of a controller is one of its site. -/
def Side.AtSite (site : Site) (s : Side lib) : Prop :=
  ∀ o, s.config.server.current = some o → Sync.AtSite site o

/-- The controller was given the node in some snapshot of its cluster's health. -/
def Side.Knows (s : Side lib) (n : String) : Prop := ∃ h ∈ s.config.histories, Handed h n

/-- The two controllers have the two cluster names in the application. -/
def Pair.Within (app a b : String) (c : Pair lib) : Prop :=
  c.first.AtSite ⟨app,a⟩ ∧ c.second.AtSite ⟨app,b⟩

/-- No node of one cluster and no node of the other get devices of one name. -/
def Pair.Apart (a b : String) (c : Pair lib) : Prop :=
  ∀ n m, c.first.Knows n → c.second.Knows m → Losant.nodeDeviceName a n ≠ Losant.nodeDeviceName b m

/-! ## Where the devices of one controller are -/

/-- What a method that has come this far can still return, the method can return. -/
def Underway (t : Losant.Devices) (s : Side lib) : Prop :=
  ∀ {h lc m next p}, s.config.job = some (h,.call (.inr (.losant lc m)) next) →
    s.method = some ⟨m,p⟩ → ∀ r t',
      p.Runs Losant.serve (fun t t' => t.entries ⊆ t'.entries) t r t' →
        ∃ t₀, (lc.implementation m).Runs Losant.serve (fun t t' => t.entries ⊆ t'.entries) t₀ r t'

/-- Every device a controller was given is under a name of its site. -/
structure Rooted (site : Site) (t : Losant.Devices) (s : Side lib) : Prop where
  reachable : (anyAnswers lib).Reachable s.config
  atSite : ∀ o, some o ∈ s.config.server.log → AtSite site o
  given {slot id} : Given s.config slot id → (id,site.place slot) ∈ t.entries
  underway : Underway t s

variable {site : Site} {t t' : Losant.Devices} {s s' : Side lib}

/-- Whatever others do to the devices. -/
theorem Rooted.grows (hr : Rooted site t s) (hg : t.entries ⊆ t'.entries) : Rooted site t' s where
  reachable := hr.reachable
  atSite := hr.atSite
  given h := hg (hr.given h)
  underway hj hm r t₁ hruns := hr.underway hj hm r t₁ (.others hg hruns)

/-- The specs a job asks devices for are those of its site. -/
theorem Rooted.entry (hr : Rooted site t s) {h lc m next} {r : m.Answer} {slot : Slot} {id : String}
    (hj : s.config.job = some (h,.call (.inr (.losant lc m)) next))
    (hg : Gives ⟨.inr (.losant lc m),r⟩ slot id) {t₀ : Losant.Devices}
    (hruns : (lc.implementation m).Runs Losant.serve (fun t t' => t.entries ⊆ t'.entries) t₀ r t) :
    (id,site.place slot) ∈ t.entries := by
  have hsound : s.config.Sound Permits (fun _ _ => True) :=
    System.Reachable.sound Permits.disciplined (reconcile_obeys lib) hr.reachable
  have hcopy : ∀ {b}, lastCopy h = some b → AtSite site b := by
    intro b hb
    obtain ⟨-,l,hl,-⟩ := hsound.copy hj hb
    exact hr.atSite b (hl.subset List.mem_cons_self)
  have hasks := (hsound.obeys hj).1.2
  cases hg with
  | cluster =>
    obtain ⟨b,hb,rfl,-⟩ := hasks
    obtain ⟨happ,hname⟩ := hcopy hb.1
    have he := Losant.ensureDevice_entry (fun h => h) hruns
    rw [happ,hname] at he
    exact he
  | node =>
    obtain ⟨b,hb,rfl⟩ := hasks
    obtain ⟨happ,hname⟩ := hcopy hb.1
    have he := Losant.ensureDevice_entry (fun h => h) hruns
    rw [happ,hname] at he
    exact he

/-- The log of a controller holds only objects of its site. -/
theorem atSite_step {c d : Config (anyAnswers lib)} (hr : (anyAnswers lib).Reachable c)
    (hc : ∀ o, some o ∈ c.server.log → AtSite site o) (hs : (anyAnswers lib).Step c d)
    (hd : ∀ o, d.server.current = some o → AtSite site o) :
    ∀ o, some o ∈ d.server.log → AtSite site o := by
  have hsound : c.Sound Permits (fun _ _ => True) :=
    System.Reachable.sound Permits.disciplined (reconcile_obeys lib) hr
  intro o ho
  rcases (hsound.written Permits.disciplined hs).mem_or_current ho with ho | ho
  · exact hc o ho
  · exact hd o ho

theorem Rooted.step (hr : Rooted site t s) (hs : Side.Step t s t' s') (hsite : s'.AtSite site) :
    Rooted site t' s' := by
  cases hs with
  | @works c d hm hidle =>
    refine ⟨hr.reachable.step hm trivial,atSite_step hr.reachable hr.atSite hm hsite,?_,?_⟩
    · intro slot id hg
      rcases Given.before hm hg with hg | ⟨h,e,next,r,hj,-,hg⟩
      · exact hr.given hg
      · -- A job that is given a device was at a method.
        cases hg with
        | cluster | node => exact absurd ⟨h,_,_,next,hj⟩ hidle
    · intro h lc m next p _ hm
      cases hm
  | user he =>
    exact ⟨hr.reachable.step (.user he) trivial,
      atSite_step hr.reachable hr.atSite (.user he) hsite,hr.given,hr.underway⟩
  | crash =>
    refine ⟨hr.reachable.step .crash trivial,hr.atSite,hr.given,?_⟩
    intro h lc m next p _ hm
    cases hm
  | calls =>
    refine ⟨hr.reachable,hr.atSite,hr.given,?_⟩
    intro h lc m next p hj hm r t₁ hruns
    cases hj
    cases hm
    exact ⟨t,hruns⟩
  | sends hserved =>
    have hg := Losant.serve_entries hserved
    refine ⟨hr.reachable,hr.atSite,fun h => hg (hr.given h),?_⟩
    intro h lc m next p hj hm r t₁ hruns
    cases hm
    exact hr.underway hj rfl r t₁ (.call hserved hruns)
  | @returns s w past h lc m next r =>
    have hm : (anyAnswers lib).Step ⟨s,w,past,some (h,.call (.inr (.losant lc m)) next)⟩
        ⟨s,w,past,some (⟨.inr (.losant lc m),r⟩::h,next r)⟩ := .outside trivial
    refine ⟨hr.reachable.step hm trivial,hr.atSite,?_,?_⟩
    · intro slot id hg
      rcases Given.before hm hg with hg | ⟨h',e,next',r',hj,hj',hg⟩
      · exact hr.given hg
      · cases hj
        cases hj'
        obtain ⟨t₀,hruns⟩ := hr.underway rfl rfl r t .done
        exact hr.entry rfl hg hruns
    · intro h lc m next p _ hm
      cases hm

theorem rooted_idle : Rooted site t (.idle lib) where
  reachable := .init trivial
  atSite o ho := by cases ho
  given hg := by
    obtain ⟨h,hh,-⟩ := hg
    cases hh
  underway hj := by cases hj

theorem Side.Step.entries (hs : Side.Step t s t' s') : t.entries ⊆ t'.entries := by
  cases hs with
  | sends hserved => exact Losant.serve_entries hserved
  | works | user | crash | calls | returns => exact List.Subset.refl _

theorem Side.Step.sound (hs : Side.Step t s t' s') (ht : t.Sound (fun _ => False)) :
    t'.Sound (fun _ => False) := by
  cases hs with
  | sends hserved => exact Losant.serve_sound hserved ht
  | works | user | crash | calls | returns => exact ht

/-! ## Both controllers -/

structure Pair.Inv (app a b : String) (c : Pair lib) : Prop where
  sound : c.devices.Sound (fun _ => False)
  first : Rooted ⟨app,a⟩ c.devices c.first
  second : Rooted ⟨app,b⟩ c.devices c.second

theorem Pair.Inv.step {app a b : String} {c d : Pair lib} (hc : c.Inv app a b)
    (hs : Pair.Step c d) (hd : d.Within app a b) : d.Inv app a b := by
  cases hs with
  | first hm => exact ⟨hm.sound hc.sound,hc.first.step hm hd.1,hc.second.grows hm.entries⟩
  | second hm => exact ⟨hm.sound hc.sound,hc.first.grows hm.entries,hc.second.step hm hd.2⟩
  | others hm =>
    have hg : Table.Grows (fun _ => False) (fun _ => True) (fun _ => True) _ _ := hm.grows
    exact ⟨hc.sound.moved hm,hc.first.grows (fun _ hx => hg.entries hx),
      hc.second.grows (fun _ hx => hg.entries hx)⟩

theorem Pair.ReachableBy.inv {app a b : String} {c : Pair lib}
    (hc : Pair.ReachableBy (Pair.Within app a b) c) : c.Inv app a b := by
  induction hc with
  | init ht => exact ⟨ht,rooted_idle,rooted_idle⟩
  | step _ hm hd ih => exact ih.step hm hd

/-- A status that was stored records the device. -/
def Side.Records (s : Side lib) (id : String) : Prop :=
  ∃ o, some o ∈ s.config.server.log ∧ Recorded o.status id

/-- A report went to the device. -/
def Side.Reports (s : Side lib) (id : String) : Prop :=
  ∃ h ∈ s.config.histories, ∃ ev ∈ h, ∃ gc payload,
    ev.call = .inr (.reportState gc payload) ∧ payload.deviceID = id

/-- The controller is about to delete the device, or has called for it. -/
def Side.Deletes (s : Side lib) (id : String) : Prop :=
  (∃ h lc app next, s.config.job = some (h,.call (.inr (.losant lc (.deleteDevice app id))) next)) ∨
    ∃ h ∈ s.config.histories, ∃ ev ∈ h, ∃ lc app, ev.call = .inr (.losant lc (.deleteDevice app id))

section given
variable {id : String}

theorem Rooted.traced (hr : Rooted site t s) :
    s.config.Traced (fun h e => Permits h e ∧ Tells lib h e) := traced_telling rfl hr.reachable

theorem Rooted.records (hr : Rooted site t s) (h : s.Records id) :
    ∃ slot, Given s.config slot id := by
  obtain ⟨o,ho,hrec⟩ := h
  obtain ⟨slot,hslot⟩ := hrec.exists_slot
  exact ⟨slot,given_of_recorded hr.traced (List.suffix_refl _) ho hslot⟩

theorem Rooted.reports (hr : Rooted site t s) (h : s.Reports id) :
    ∃ slot, Given s.config slot id := by
  obtain ⟨h,hh,⟨e,r⟩,hev,gc,payload,rfl,rfl⟩ := h
  obtain ⟨l,hl,-,slot,-,hknown⟩ := hr.traced.allowed_of_mem hh hev
  exact ⟨slot,hknown.given hh hl⟩

theorem Rooted.deletes (hr : Rooted site t s) (h : s.Deletes id) :
    ∃ slot, Given s.config slot id := by
  rcases h with ⟨h,lc,app,next,hj⟩ | ⟨h,hh,⟨e,r⟩,hev,lc,app,rfl⟩
  · have hsound : s.config.Sound Permits (fun _ _ => True) :=
      System.Reachable.sound Permits.disciplined (reconcile_obeys lib) hr.reachable
    obtain ⟨-,b,hb,-,hrec⟩ := (hsound.obeys hj).1
    exact given_of_copy hr.traced (Config.mem_histories hj) (List.suffix_refl _) hb.1 hrec
  · obtain ⟨l,hl,⟨-,b,hb,-,hrec⟩,-⟩ := hr.traced.allowed_of_mem hh hev
    exact given_of_copy hr.traced hh hl hb.1 hrec

end given

theorem clusterDeviceName_injective : Function.Injective Losant.clusterDeviceName := by
  intro a b h
  have h := congrArg String.toList h
  simp only [Losant.clusterDeviceName,String.toList_append] at h
  exact String.toList_injective (List.append_cancel_left h)

/-- No device is given to both: it would have two names, or the two names would be one. -/
theorem Pair.Inv.disjoint {app a b : String} {c : Pair lib} (hc : c.Inv app a b) (hne : a ≠ b)
    (hapart : c.Apart a b) {slot slot' : Slot} {id : String} (hg : Given c.first.config slot id)
    (hg' : Given c.second.config slot' id) : False := by
  have hplace := hc.sound.place (hc.first.given hg) (hc.second.given hg')
  have hname := congrArg Prod.snd hplace
  match slot,slot' with
  | .cluster,.cluster => exact hne (clusterDeviceName_injective hname)
  | .cluster,.node n => exact clusterDeviceName_ne_nodeDeviceName _ _ _ hname
  | .node n,.cluster => exact clusterDeviceName_ne_nodeDeviceName _ _ _ hname.symm
  | .node n,.node m =>
    exact hapart n m (handed_of_given hc.first.traced hg)
      (handed_of_given hc.second.traced hg') hname

/-- Two device names of nodes are equal only if one cluster name is the other, a dash and more. -/
theorem dash_of_nodeDeviceName_eq {a b n m : String} (hne : a ≠ b)
    (h : Losant.nodeDeviceName a n = Losant.nodeDeviceName b m) :
    a.toList ++ ['-'] <+: b.toList ∨ b.toList ++ ['-'] <+: a.toList := by
  have h := congrArg String.toList h
  simp only [Losant.nodeDeviceName,String.toList_append,List.append_assoc] at h
  have h := List.append_cancel_left h
  change a.toList ++ '-'::n.toList = b.toList ++ '-'::m.toList at h
  rcases List.append_eq_append_iff.mp h with ⟨l,hb,hl⟩ | ⟨l,ha,hl⟩
  · cases l with
    | nil => exact absurd (String.toList_injective (by simpa using hb.symm)) hne
    | cons x l =>
      obtain ⟨rfl,-⟩ := List.cons.inj hl
      exact .inl ⟨l,by simp [hb]⟩
  · cases l with
    | nil => exact absurd (String.toList_injective (by simpa using ha)) hne
    | cons x l =>
      obtain ⟨rfl,-⟩ := List.cons.inj hl
      exact .inr ⟨l,by simp [ha]⟩

/-! ## Runs of one controller after the other -/

/-- A method of the client, with nobody else at the devices. -/
def CarriedOut (t : Losant.Devices) (lc : Losant.HTTPClient) (m : Losant.Method) (r : m.Answer)
    (t' : Losant.Devices) : Prop :=
  (lc.implementation m).Runs Losant.serve (fun _ _ => False) t r t'

/-- A controller that is alone with the devices `t₀`. -/
def alone (lib : Externals) (t₀ : Losant.Devices) :
    System losantSync calls (Except String Result) where
  World := Losant.Devices
  start t := t = t₀
  answers := onLosant CarriedOut
  others _ _ := False
  main := reconcile lib

def Side.of {t₀ : Losant.Devices} (c : Config (alone lib t₀)) : Side lib :=
  ⟨⟨c.server,(),c.past,c.job⟩,none⟩

theorem not_calling {c : Config (anyAnswers lib)} {h e next} (hj : c.job = some (h,.call e next))
    (he : ∀ lc m, e ≠ .inr (.losant lc m)) : ¬Calling c := by
  rintro ⟨h',lc,m,next',hj'⟩
  cases hj.symm.trans hj'
  exact he lc m rfl

section alone
variable {P : Pair lib → Prop} {F : Losant.Devices → Side lib → Pair lib} {t₀ : Losant.Devices}
  (hF : ∀ {t s t' s'}, Side.Step t s t' s' → Pair.Step (F t s) (F t' s'))
  (hP : ∀ {t s}, s.AtSite site → P (F t s))

include hF hP

/-- The requests of a method, one after the other. -/
theorem sends_all {cfg : Config (anyAnswers lib)} {m : Losant.Method}
    {p : Program Losant.http m.Answer}
    {r : m.Answer} (hruns : p.Runs Losant.serve (fun _ _ => False) t r t')
    (hcfg : Side.AtSite site ⟨cfg,none⟩) (hc : Pair.ReachableBy P (F t ⟨cfg,some ⟨m,p⟩⟩)) :
    Pair.ReachableBy P (F t' ⟨cfg,some ⟨m,.done r⟩⟩) := by
  induction hruns with
  | done => exact hc
  | others hfalse => exact hfalse.elim
  | call hserve _ ih => exact ih (hc.step (hF (.sends hserve)) (hP hcfg))

theorem alone_step {c d : Config (alone lib t₀)} (hs : (alone lib t₀).Step c d)
    (hc : (Side.of c).AtSite site) (hd : (Side.of d).AtSite site)
    (hr : Pair.ReachableBy P (F c.world (.of c))) : Pair.ReachableBy P (F d.world (.of d)) := by
  cases hs with
  | user he => exact hr.step (hF (.user he)) (hP hd)
  | others hfalse => exact hfalse.elim
  | start => exact hr.step (hF (.works .start (by simp [Calling]))) (hP hd)
  | own ha => exact hr.step (hF (.works (.own ha) (not_calling rfl (fun _ _ => nofun)))) (hP hd)
  | @outside s w w' past h e next r ha =>
    have ha : onLosant CarriedOut w e r w' := ha
    rcases onLosant_cases ha with ⟨rfl,hother⟩ | ⟨lc,m,r',hev,hruns⟩
    · refine hr.step (hF (.works (.outside trivial) (not_calling rfl ?_))) (hP hd)
      exact fun lc m he => hother lc m (Sum.inr.inj he)
    · cases hev
      have hcalled := hr.step (hF .calls) (hP hc)
      exact (sends_all hF hP hruns hc hcalled).step (hF .returns) (hP hd)
  | finish => exact hr.step (hF (.works .finish (by simp [Calling]))) (hP hd)
  | crash => exact hr.step (hF .crash) (hP hd)

theorem alone_reachable {c : Config (alone lib t₀)}
    (hc : (alone lib t₀).ReachableBy
      (fun c d => (Side.of c).AtSite site ∧ (Side.of d).AtSite site) c)
    (h₀ : Pair.ReachableBy P (F t₀ (.idle lib))) : Pair.ReachableBy P (F c.world (.of c)) := by
  induction hc with
  | @init w hw =>
    change Pair.ReachableBy P (F w (.idle lib))
    rw [show w = t₀ from hw]
    exact h₀
  | step _ hm ha ih => exact alone_step hF hP hm ha.1 ha.2 ih

end alone

theorem atSite_idle : (Side.idle lib).AtSite site := by
  intro o ho
  cases ho

theorem atSite_of_reachable {t₀ : Losant.Devices} {c : Config (alone lib t₀)}
    (hc : (alone lib t₀).ReachableBy
      (fun c d => (Side.of c).AtSite site ∧ (Side.of d).AtSite site) c) :
    (Side.of c).AtSite site := by
  cases hc with
  | init => exact atSite_idle
  | step _ _ ha => exact ha.2

def onlyNode (n : String) : GoMap Monitor.NodeHealth :=
  (∅ : GoMap Monitor.NodeHealth).insert n wellNode

/-- Every call works; the cluster has one node. -/
def serveAlone (n : String) (t : Losant.Devices) :
    (e : Call) → Option (calls.Answer e × Losant.Devices)
  | .now _ => some ((0 : ℤ),t)
  | .rangeNodes m =>
    if hm : m = onlyNode n then some (⟨[⟨n,wellNode⟩],by rw [hm]; rfl⟩,t) else none
  | .healthSnapshot => some (({},onlyNode n),t)
  | .getSecret ref =>
    if ref.name = geaCredentialsSecretName then some (.error ⟨.notFound,"secrets not found"⟩,t)
    else some (.ok { data := (∅ : GoMap String).insert "api-token" "token" },t)
  | .createSecret _ => some (.ok (),t)
  | .losant lc m => evaluate Losant.respond (lc.implementation m) t
  | .reportState _ _ => some (.ok (),t)
  | _ => none

theorem answers_of_serveAlone {n : String} {t₀ : Losant.Devices} {e : Call} {r : calls.Answer e}
    (h : serveAlone n t e = some (r,t')) : (alone lib t₀).answers t e r t' := by
  match e with
  | .losant lc m => exact evaluate_runs (fun h => Losant.serve_of_respond h) h
  | .rangeNodes m =>
    change (if _ : _ then _ else _) = _ at h
    split at h
    · cases h
      rfl
    · cases h
  | .getSecret ref =>
    change (if _ then _ else _) = _ at h
    split at h
    · cases h
      rfl
    · cases h
      rfl
  | .now _ | .healthSnapshot | .createSecret _ | .reportState _ _ =>
    cases h
    rfl
  | .rangeDevices _ | .updateSecret _ | .getDeployment _ | .patchDeployment _ _ => cases h

def aloneJob (n : String) (t₀ : Losant.Devices) : (alone .plain t₀).Act := .job
  { refuse := fun _ => none
    serve := fun _ t e => serveAlone n t e
    sound := fun h => answers_of_serveAlone h }

def syncOf (cluster : String) : LosantSync :=
  { newSync with spec := { newSync.spec with clusterName := cluster } }

/-- The object is created, and three jobs make it active. -/
def activateAlone (cluster n : String) (t₀ : Losant.Devices) : List (alone .plain t₀).Act :=
  [.create (syncOf cluster),aloneJob n t₀,aloneJob n t₀,aloneJob n t₀]

def namedSo (cluster : String) {t₀ : Losant.Devices} (c d : Config (alone .plain t₀)) : Bool :=
  (c.server.current.all fun o => o.spec.applicationID = "app" ∧ o.spec.clusterName = cluster) &&
    d.server.current.all fun o => o.spec.applicationID = "app" ∧ o.spec.clusterName = cluster

/-- The node has the device and the table is as given. -/
def provisioned (n id : String) (t₁ : Losant.Devices) {t₀ : Losant.Devices}
    (c : Config (alone .plain t₀)) : Bool :=
  (c.server.current.any fun o => recorded o.status (.node n) = some id) &&
    decide (Table.entries c.world = t₁.entries ∧ Table.removed c.world = t₁.removed ∧
      Table.taken c.world = t₁.taken)

theorem exists_alone (cluster n id : String) (t₀ t₁ : Losant.Devices)
    (h : (System.replay (namedSo cluster) (activateAlone cluster n t₀) ⟨⟨[],0⟩,t₀,[],none⟩).map
      (provisioned n id t₁) = some true) : ∃ c : Config (alone .plain t₀),
      (alone .plain t₀).ReachableBy (fun c d => (Side.of c).AtSite ⟨"app",cluster⟩ ∧
        (Side.of d).AtSite ⟨"app",cluster⟩) c ∧ c.world = t₁ ∧
      ∃ o, c.server.current = some o ∧ Recorded o.status id := by
  obtain ⟨c,hc,hp⟩ := System.exists_tested (σ := alone .plain t₀) (namedSo cluster) rfl
    (activateAlone cluster n t₀) _ h
  obtain ⟨hrec,htable⟩ := (Bool.and_eq_true _ _).mp hp
  obtain ⟨o,ho,hrec⟩ := (Option.any_eq_true _ _).mp hrec
  obtain ⟨he,hr,ht⟩ := of_decide_eq_true htable
  refine ⟨c,hc.mono ?_,?_,o,ho,.inl ⟨n,of_decide_eq_true hrec⟩⟩
  · intro c d hcd
    obtain ⟨hc,hd⟩ := (Bool.and_eq_true _ _).mp hcd
    refine ⟨fun o ho => ?_,fun o ho => ?_⟩
    · exact of_decide_eq_true (p := _ ∧ _) ((Option.all_eq_true _ _).mp hc o ho)
    · exact of_decide_eq_true (p := _ ∧ _) ((Option.all_eq_true _ _).mp hd o ho)
  · exact Table.ext he hr ht

/-- The first controller has run alone, and then the second. -/
theorem exists_pair (a b n m id id' : String) (t₁ t₂ : Losant.Devices)
    (h :
      (System.replay (namedSo a) (activateAlone a n {}) ⟨⟨[],0⟩,({} : Losant.Devices),[],none⟩).map
      (provisioned n id t₁) = some true)
    (h' : (System.replay (namedSo b) (activateAlone b m t₁) ⟨⟨[],0⟩,t₁,[],none⟩).map
      (provisioned m id' t₂) = some true) : ∃ c : Pair .plain,
      Pair.ReachableBy (Pair.Within "app" a b) c ∧
      (∃ o, c.first.config.server.current = some o ∧ Recorded o.status id) ∧
      ∃ o, c.second.config.server.current = some o ∧ Recorded o.status id' := by
  obtain ⟨c,hc,rfl,hrec⟩ := exists_alone a n id {} t₁ h
  obtain ⟨d,hd,-,hrec'⟩ := exists_alone b m id' c.world t₂ h'
  have hinit : Pair.ReachableBy (Pair.Within "app" a b) ⟨{},.idle .plain,.idle .plain⟩ :=
    .init ⟨nofun,nofun,nofun⟩
  have hfirst := alone_reachable (P := Pair.Within "app" a b) (F := fun t s => ⟨t,s,.idle .plain⟩)
    .first (fun hs => ⟨hs,atSite_idle⟩) hc hinit
  have hsite : (Side.of c).AtSite ⟨"app",a⟩ := atSite_of_reachable hc
  have hsecond := alone_reachable (P := Pair.Within "app" a b) (F := fun t s => ⟨t,.of c,s⟩)
    .second (fun hs => ⟨hsite,hs⟩) hd hfirst
  exact ⟨_,hsecond,hrec,hrec'⟩

/-- The devices of a cluster with one node, as the controller makes them. -/
def oneCluster (a n : String) : Losant.Devices where
  entries :=
    [("device-1",("app",Losant.nodeDeviceName a n)),("device-0",("app",Losant.clusterDeviceName a))]

/-- As long as no two nodes were handed to the two controllers whose devices get one name, no device
is recorded by both, and neither deletes a device that the other has recorded or reports to. -/
theorem devices_apart (lib : Externals) {app a b : String} (hne : a ≠ b) {c : Pair lib}
    (hc : Pair.ReachableBy (Pair.Within app a b) c) (hapart : c.Apart a b) (id : String) :
    ¬(c.first.Records id ∧ c.second.Records id) ∧
    (c.first.Deletes id → ¬c.second.Records id ∧ ¬c.second.Reports id) ∧
    (c.second.Deletes id → ¬c.first.Records id ∧ ¬c.first.Reports id) := by
  have hinv := hc.inv
  have hdisjoint : ∀ {id}, (∃ slot, Given c.first.config slot id) →
      (∃ slot, Given c.second.config slot id) → False :=
    fun ⟨_,hg⟩ ⟨_,hg'⟩ => hinv.disjoint hne hapart hg hg'
  refine ⟨?_,?_,?_⟩
  · rintro ⟨h,h'⟩
    exact hdisjoint (hinv.first.records h) (hinv.second.records h')
  · intro hdel
    have hg := hinv.first.deletes hdel
    exact ⟨fun h => hdisjoint hg (hinv.second.records h),fun h =>
      hdisjoint hg (hinv.second.reports h)⟩
  · intro hdel
    have hg := hinv.second.deletes hdel
    exact ⟨fun h => hdisjoint (hinv.first.records h) hg,fun h =>
      hdisjoint (hinv.first.reports h) hg⟩

/-- The clusters `a` and `b`, each with a node `n1`. -/
theorem devices_apart_two : ∃ c : Pair .plain, Pair.ReachableBy (Pair.Within "app" "a" "b") c ∧
    (∃ o, c.first.config.server.current = some o ∧ Recorded o.status "device-1") ∧
    (∃ o, c.second.config.server.current = some o ∧ Recorded o.status "device-3") ∧
    ¬(c.first.Records "device-1" ∧ c.second.Records "device-1") := by
  obtain ⟨c,hc,hfirst,hsecond⟩ := exists_pair "a" "b" "n1" "n1" "device-1" "device-3"
    (oneCluster "a" "n1")
    { entries := [("device-3",("app","k8s-node-b-n1")),("device-2",("app","k8s-cluster-b"))] ++
        (oneCluster "a" "n1").entries } (by decide +kernel) (by decide +kernel)
  have hne : "a" ≠ "b" := by decide
  have hapart : c.Apart "a" "b" := by
    intro n m _ _ heq
    rcases dash_of_nodeDeviceName_eq hne heq with h | h
    · exact absurd h (by decide)
    · exact absurd h (by decide)
  exact ⟨c,hc,hfirst,hsecond,(devices_apart .plain hne hc hapart "device-1").1⟩

/-- The node `b-c` of the cluster `a` and the node `c` of the cluster `a-b` share a device. -/
theorem devices_shared : ∃ c : Pair .plain, Pair.ReachableBy (Pair.Within "app" "a" "a-b") c ∧
    (∃ o, c.first.config.server.current = some o ∧ Recorded o.status "device-1") ∧
    ∃ o, c.second.config.server.current = some o ∧ Recorded o.status "device-1" := by
  refine exists_pair "a" "a-b" "b-c" "c" "device-1" "device-1" (oneCluster "a" "b-c")
    { entries := ("device-2",("app","k8s-cluster-a-b"))::(oneCluster "a" "b-c").entries } ?_ ?_
  · decide +kernel
  · decide +kernel

end LosantDevice.Sync

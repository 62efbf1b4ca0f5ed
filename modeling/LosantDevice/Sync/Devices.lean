import LosantDevice.Sync.World
import LosantDevice.Sync.Honesty

/-!
# One device for each slot

Whatever is lost on the way, the controller never makes a second device under a name, and the id
it has stored for a slot changes only after others have deleted the device. The devices that a job
has found, the ones the status records and the table in Losant are related by an invariant of
every step.
-/
namespace LosantDevice.Sync
open Effect Kube Go Program Registry

variable {lib : Externals} {site : Site} {c d : Config (system lib site)}

/-! ## What a job has found and what a status records -/

def recorded (t : LosantSyncStatus) : Slot → Option String
  | .cluster => if t.clusterDeviceID = "" then none else some t.clusterDeviceID
  | .node n => t.nodeDevices.lookup n

def View.found (v : View) : Slot → Option String
  | .cluster => v.cluster
  | .node n => v.nodes.lookup n

@[simp] theorem recorded_initial (slot : Slot) : recorded {} slot = none := by
  cases slot <;> rfl

@[simp] theorem recorded_encode (t : LosantSyncStatus) (slot : Slot) :
    recorded t.encode slot = recorded t slot := by cases slot <;> rfl

theorem Recorded.exists_slot {t : LosantSyncStatus} {id : String} (h : Recorded t id) :
    ∃ slot, recorded t slot = some id := by
  rcases h with ⟨n,hn⟩ | ⟨rfl,hne⟩
  · exact ⟨.node n,hn⟩
  · exact ⟨.cluster,if_neg hne⟩

theorem View.lookup_nodeDevices (v : View) (m : GoMap String) (n : String) :
    (v.nodeDevices m).lookup n = (v.nodes.lookup n).or (m.lookup n) := by
  unfold View.nodeDevices
  induction v.nodes with
  | nil => rfl
  | cons p l ih =>
    obtain ⟨k,id⟩ := p
    simp only [List.foldr_cons,List.lookup_cons]
    by_cases hk : n = k
    · subst hk
      simp
    · have hb : (n == k) = false := beq_false_of_ne hk
      rw [Finmap.lookup_insert_of_ne _ hk,ih,hb]

/-- A status written by a job records what the job has found or what was recorded before. -/
theorem StatusWrite.recorded_cases {h : Past} {b : LosantSync} {t : LosantSyncStatus}
    (hw : StatusWrite h b t) (slot : Slot) : recorded t slot = recorded b.status slot ∨
      ∃ id, (view h).found slot = some id ∧ (id ≠ "" → recorded t slot = some id) ∧
        ∀ id', recorded t slot = some id' → id = id' := by
  have hkept : Kept h b t → recorded t slot = recorded b.status slot ∨
      ∃ id, (view h).found slot = some id ∧ (id ≠ "" → recorded t slot = some id) ∧
        ∀ id', recorded t slot = some id' → id = id' := by
    intro hk
    cases slot with
    | cluster =>
      cases hc : (view h).cluster with
      | none => exact .inl (by simp [recorded,hk.cluster,hc])
      | some id =>
        refine .inr ⟨id,hc,fun hne => by simp [recorded,hk.cluster,hc,hne],?_⟩
        intro id' hid
        simp only [recorded,hk.cluster,hc,Option.getD_some] at hid
        split at hid
        · cases hid
        · exact Option.some.inj hid
    | node n =>
      have hn : recorded t (.node n) =
          ((view h).nodes.lookup n).or (recorded b.status (.node n)) := by
        change t.nodeDevices.lookup n = _
        rw [hk.nodes]
        exact (view h).lookup_nodeDevices b.status.nodeDevices n
      cases hf : (view h).nodes.lookup n with
      | none => exact .inl (by simpa [hf] using hn)
      | some id =>
        have hid : recorded t (.node n) = some id := by simpa [hf] using hn
        exact .inr ⟨id,hf,fun _ => hid,fun id' hid' => Option.some.inj (hid.symm.trans hid')⟩
  cases hw with
  | suspended | first => exact .inl rfl
  | degraded _ hk => exact hkept hk
  | active _ hk => exact hkept hk

/-- An event either gives a device for the slot or leaves what was found for it. -/
theorem observe_found (ev : Event interface) (v : View) (k : Slot) :
    (∃ id, Gives ev k id ∧ (observe ev v).found k = some id) ∨
      (observe ev v).found k = v.found k := by
  fun_cases observe ev v with
  | case11 _ _ _ id =>
    cases k with
    | cluster => exact .inl ⟨id,.cluster,rfl⟩
    | node n => exact .inr rfl
  | case13 _ _ n _ _ id =>
    cases k with
    | cluster => exact .inr rfl
    | node m =>
      change (∃ id', _ ∧ ((n,id)::v.nodes).lookup m = some id') ∨
        ((n,id)::v.nodes).lookup m = v.nodes.lookup m
      rw [List.lookup_cons]
      by_cases hm : m = n
      · subst hm
        exact .inl ⟨id,.node,by simp⟩
      · rw [beq_false_of_ne hm]
        exact .inr rfl
  | _ => cases k <;> exact .inr rfl

theorem found_cons {ev : Event interface} {h : Past} {k : Slot} {id : String}
    (hf : (view (ev::h)).found k = some id) :
    Gives ev k id ∨ (view h).found k = some id := by
  rcases observe_found ev (view h) k with ⟨id',hg,hid⟩ | heq
  · cases hid.symm.trans hf
    exact .inl hg
  · exact .inr (heq.symm.trans hf)

theorem found_given {h : Past} {k : Slot} {id : String} (hf : (view h).found k = some id) :
    ∃ ev ∈ h, Gives ev k id := by
  induction h with
  | nil => cases k <;> cases hf
  | cons ev h ih =>
    rcases found_cons hf with hg | hf
    · exact ⟨ev,List.mem_cons_self,hg⟩
    · obtain ⟨ev',hm,hg⟩ := ih hf
      exact ⟨ev',List.mem_cons_of_mem _ hm,hg⟩

section given
variable {σ : System losantSync calls (Except String Result)} {c d : Config σ}

/-- Some job was given the device for the slot. -/
def Given (c : Config σ) (slot : Slot) (id : String) : Prop :=
  ∃ h ∈ c.histories, ∃ ev ∈ h, Gives ev slot id

/-- A device that was given after a step was given before it or by the answer in it. -/
theorem Given.before {slot : Slot} {id : String} (hs : σ.Step c d) (hg : Given d slot id) :
    Given c slot id ∨ ∃ h e next r, c.job = some (h,.call (.inr e) next) ∧
      d.job = some (⟨.inr e,r⟩::h,next r) ∧ Gives ⟨.inr e,r⟩ slot id := by
  obtain ⟨k,hk,ev,hev,hg⟩ := hg
  cases hs with
  | user | others | finish | crash => exact .inl ⟨k,hk,ev,hev,hg⟩
  | start =>
    rcases List.mem_cons.mp hk with rfl | hk
    · cases hev
    · exact .inl ⟨k,hk,ev,hev,hg⟩
  | @own s s' w past h e next r ha =>
    rcases List.mem_cons.mp hk with rfl | hk
    · rcases List.mem_cons.mp hev with rfl | hev
      · cases hg
      · exact .inl ⟨h,List.mem_cons_self,ev,hev,hg⟩
    · exact .inl ⟨k,List.mem_cons_of_mem _ hk,ev,hev,hg⟩
  | @outside s w w' past h e next r ha =>
    rcases List.mem_cons.mp hk with rfl | hk
    · rcases List.mem_cons.mp hev with rfl | hev
      · exact .inr ⟨h,e,next,r,rfl,rfl,hg⟩
      · exact .inl ⟨h,List.mem_cons_self,ev,hev,hg⟩
    · exact .inl ⟨k,List.mem_cons_of_mem _ hk,ev,hev,hg⟩

/-- A status records what the copy recorded or the job has found. -/
theorem StatusWrite.recorded_found {h : Past} {b : LosantSync} {t : LosantSyncStatus}
    (hw : StatusWrite h b t) {slot : Slot} {id : String} (hrec : recorded t slot = some id) :
    recorded b.status slot = some id ∨ (view h).found slot = some id := by
  rcases hw.recorded_cases slot with heq | ⟨id',hf,-,hid⟩
  · exact .inl (heq.symm.trans hrec)
  · rw [hid id hrec] at hf
    exact .inr hf

/-- What is recorded goes back to a device that was given. -/
theorem given_of_recorded (hc : c.Traced (fun h e => Permits h e ∧ Tells lib h e))
    {l : List (Option LosantSync)} (hl : l <:+ c.server.log) {o : LosantSync} (ho : some o ∈ l)
    {slot : Slot} {id : String} (hrec : recorded o.status slot = some id) : Given c slot id := by
  induction l generalizing o with
  | nil => cases ho
  | cons x l ih =>
    have ih := fun {o} => @ih ((List.suffix_cons _ _).trans hl) o
    rcases List.mem_cons.mp ho with rfl | ho
    · cases hc.origin hl with
      | created _ hb =>
        rw [hb.2.2] at hrec
        exact absurd hrec (by simp [losantSync])
      | user _ hst _ _ => exact ih List.mem_cons_self (hst ▸ hrec)
      | @status a b l k₀ k v hm he hcopy _ _ _ =>
        obtain ⟨-,b',hheld,-,-,hw⟩ := (hc.allowed hm he).1
        obtain rfl : b = b' := Option.some.inj (hcopy.symm.trans hheld.1)
        have hrec : recorded a.status slot = some id := (recorded_encode _ slot).symm.trans hrec
        rcases hw.recorded_found hrec with hrec | hf
        · exact ih List.mem_cons_self hrec
        · obtain ⟨ev,hev,hg⟩ := found_given hf
          exact ⟨_,hm,ev,he.subset (List.mem_cons_of_mem _ hev),hg⟩
      | object _ _ _ _ hk =>
        have hst := congrArg Object.status (hk o rfl)
        exact ih List.mem_cons_self (hst ▸ hrec)
    · exact ih ho hrec

theorem given_of_copy (hc : c.Traced (fun h e => Permits h e ∧ Tells lib h e)) {k l : Past}
    (hk : k ∈ c.histories) (hl : l <:+ k) {b : LosantSync} (hb : lastCopy l = some b) {id : String}
    (hrec : Recorded b.status id) : ∃ slot, Given c slot id := by
  obtain ⟨m,hm⟩ := hc.copies hk hl hb
  obtain ⟨slot,hslot⟩ := hrec.exists_slot
  exact ⟨slot,given_of_recorded hc hm List.mem_cons_self hslot⟩

theorem Known.given {k l : Past} {slot : Slot} {id : String} (h : Known l slot id)
    (hk : k ∈ c.histories) (hl : l <:+ k) : Given c slot id := by
  obtain ⟨ev,hev,hg⟩ := h
  exact ⟨k,hk,ev,hl.subset hev,hg⟩

/-- The device of a node was given for a node that was in a snapshot. -/
theorem handed_of_given (hc : c.Traced (fun h e => Permits h e ∧ Tells lib h e)) {n id : String}
    (hg : Given c (.node n) id) : ∃ h ∈ c.histories, Handed h n := by
  obtain ⟨h,hh,ev,hev,hg⟩ := hg
  obtain ⟨l,hl,-,htells⟩ := hc.allowed_of_mem hh hev
  cases hg with
  | node => exact ⟨h,hh,Handed.later htells.1 hl⟩

end given

/-! ## The table -/

def AtSite (site : Site) (o : LosantSync) : Prop :=
  o.spec.applicationID = site.app ∧ o.spec.clusterName = site.clusterName

/-- Every object is one of the site, and the table has at most one device for each slot. -/
structure Orderly (c : Config (system lib site)) : Prop where
  atSite : ∀ o, some o ∈ c.server.log → AtSite site o
  sound : (worldOf c).devices.Sound site.Own
  named : Losant.Named site.Own (worldOf c).devices

abbrev Ran (c : Config (system lib site)) : Prop := c.Sound Permits (fun _ _ => True)

theorem ran {P : Config (system lib site) → Config (system lib site) → Prop}
    (hc : (system lib site).ReachableBy P c) : Ran c :=
  System.Reachable.sound Permits.disciplined (reconcile_obeys lib) hc.reachable

/-- The copy of the running job is one of the site. -/
theorem Orderly.copy (ho : Orderly c) (hr : Ran c) {h p b} (hj : c.job = some (h,p))
    (hb : lastCopy h = some b) : AtSite site b := by
  obtain ⟨-,l,hl,-⟩ := hr.copy hj hb
  exact ho.atSite b (hl.subset List.mem_cons_self)

/-- A method that makes a device makes it for a slot of the site. -/
theorem Orderly.makes (ho : Orderly c) (hr : Ran c) {h p} {m : Losant.Method}
    (hj : c.job = some (h,p)) (ha : Asks h m) : ∀ k, m.Makes k → site.Own k := by
  intro k hk
  cases m with
  | ensureClusterDevice spec =>
    obtain ⟨b,hb,rfl,-⟩ := ha
    obtain ⟨happ,hname⟩ := ho.copy hr hj hb.1
    have hk : k = (b.spec.applicationID,Losant.clusterDeviceName b.spec.clusterName) := hk
    rw [happ,hname] at hk
    exact ⟨.cluster,hk⟩
  | ensureNodeDevice spec n g =>
    obtain ⟨b,hb,rfl⟩ := ha
    obtain ⟨happ,hname⟩ := ho.copy hr hj hb.1
    have hk : k = (b.spec.applicationID,Losant.nodeDeviceName b.spec.clusterName n) := hk
    rw [happ,hname] at hk
    exact ⟨.node n,hk⟩
  | ping | createDeviceAccessKey | deleteDevice | releaseWorkflow | getEdgeDeployments =>
    exact hk.elim

theorem Asks.deletes {h : Past} {m : Losant.Method} {id : String} (ha : Asks h m)
    (hid : m.Deletes id) : ∃ b, Deleting h b ∧ Recorded b.status id := by
  cases m with
  | deleteDevice app id' =>
    obtain ⟨b,hb,-,hrec⟩ := ha
    obtain rfl : id = id' := hid
    exact ⟨b,hb,hrec⟩
  | ping | ensureClusterDevice | ensureNodeDevice | createDeviceAccessKey | releaseWorkflow
  | getEdgeDeployments => exact hid.elim

/-- The devices a step may remove: those recorded in a copy that is being deleted. -/
def Cleans (c : Config (system lib site)) (id : String) : Prop :=
  ∃ h p b, c.job = some (h,p) ∧ Deleting h b ∧ Recorded b.status id

/-- What a step does to the table. -/
theorem Orderly.devices_step (ho : Orderly c) (hr : Ran c) (hs : (system lib site).Step c d) :
    (worldOf c).devices.Grows site.Own (fun _ => True) (Cleans c) (worldOf d).devices ∧
      (worldOf d).devices.Sound site.Own ∧ Losant.Named site.Own (worldOf d).devices := by
  cases hs with
  | others ha =>
    cases ha with
    | devices hm => exact ⟨hm.grows,ho.sound.moved hm,ho.named.moved hm⟩
    | secret ref s => exact ⟨.refl _,ho.sound,ho.named⟩
  | @outside s w w' past h e next r ha =>
    rcases World.answers_devices ha with heq | ⟨lc,m,r',hev,hserve⟩
    · change w.devices.Grows _ _ _ w'.devices ∧ w'.devices.Sound _ ∧ _
      rw [heq]
      exact ⟨.refl _,ho.sound,by rw [worldOf,heq]; exact ho.named⟩
    · cases hev
      have hasks : Asks h m := (hr.obeys rfl).1.2
      obtain ⟨hg,hs'⟩ := hserve.grows ho.sound (ho.makes hr rfl hasks)
      refine ⟨hg.mono (fun _ _ => trivial) ?_,hs',hserve.named ho.named⟩
      intro id hid
      obtain ⟨b,hb,hrec⟩ := hasks.deletes hid
      exact ⟨h,_,b,rfl,hb,hrec⟩
  | user | start | own | finish | crash => exact ⟨.refl _,ho.sound,ho.named⟩

theorem Orderly.step (ho : Orderly c) (hr : Ran c) (hs : (system lib site).Step c d)
    (hsite : SameSite site c d) : Orderly d := by
  obtain ⟨-,hsound,hnamed⟩ := ho.devices_step hr hs
  refine ⟨?_,hsound,hnamed⟩
  intro o hmem
  rcases (hr.written Permits.disciplined hs).mem_or_current hmem with hmem | hcur
  · exact ho.atSite o hmem
  · exact hsite o hcur

theorem orderly (hc : (system lib site).ReachableBy (SameSite site) c) : Orderly c := by
  refine System.ReachableBy.invariant (fun c hc => ran hc) ?_ ?_ hc
  · intro w hw
    exact ⟨by simp,hw.sound,hw.named⟩
  · exact fun c d hr ho hs hp => ho.step hr hs hp

/-! ## Jobs, statuses and the table -/

/-- The device of a slot is where the slot says. -/
def Placed (c : Config (system lib site)) (slot : Slot) (id : String) : Prop :=
  (id,site.place slot) ∈ (worldOf c).devices.entries

/-- How what jobs were given and what statuses record relate to the table. A device is missed only
if others took it or the object is retired. -/
structure Tracked (c : Config (system lib site)) : Prop where
  given : ∀ h ∈ c.histories, ∀ ev ∈ h, ∀ slot id, Gives ev slot id → Placed c slot id
  placed : ∀ o, some o ∈ c.server.log → ∀ slot id, recorded o.status slot = some id →
    Placed c slot id
  found : ∀ h p b, c.job = some (h,p) → lastCopy h = some b → b.metadata.deletionTimestamp = none →
    ∀ slot id, (view h).found slot = some id → id ∈ (worldOf c).devices.removed →
      id ∈ (worldOf c).devices.taken
  kept : ∀ o, c.server.current = some o → ∀ slot id, recorded o.status slot = some id →
    id ∈ (worldOf c).devices.removed →
      id ∈ (worldOf c).devices.taken ∨ c.server.Retired o.metadata.uid
  agrees : ∀ h p o, c.job = some (h,p) → c.server.current = some o → ∀ slot id id',
    (view h).found slot = some id' → recorded o.status slot = some id →
      id = id' ∨ id ∈ (worldOf c).devices.taken ∨ c.server.Retired o.metadata.uid
  stable : ∀ o l o', some o::l <:+ c.server.log → some o' ∈ l → o'.metadata.uid = o.metadata.uid →
    ∀ slot id, recorded o'.status slot = some id →
      recorded o.status slot = some id ∨ id ∈ (worldOf c).devices.taken

/-- What is known besides. -/
structure Background (c : Config (system lib site)) : Prop where
  ran : Ran c
  traced : c.Traced Permits
  retires : c.Retires
  orderly : Orderly c

theorem background (hc : (system lib site).ReachableBy (SameSite site) c) : Background c :=
  ⟨ran hc,traced rfl hc.reachable,
    System.Reachable.retires Permits.disciplined (reconcile_obeys lib) hc.reachable,orderly hc⟩

namespace Tracked

/-- A job that has been given a device has settled its slot. -/
theorem settled (hb : Background c) {h e next r w'} {slot : Slot} {id : String}
    (hj : c.job = some (h,.call (.inr e) next)) (ha : (worldOf c).answers site e r w')
    (hg : Gives ⟨.inr e,r⟩ slot id) : w'.devices.Settled id (site.place slot) := by
  have hasks := (hb.ran.obeys hj).1
  cases hg with
  | cluster =>
    obtain ⟨t,hserve,rfl⟩ := ha
    have hmakes := hb.orderly.makes hb.ran hj hasks.2
    obtain ⟨b,hheld,rfl,-⟩ := hasks.2
    obtain ⟨happ,hname⟩ := hb.orderly.copy hb.ran hj hheld.1
    have he := (hserve.ensured_cluster hb.orderly.sound (hmakes _ rfl)).settled rfl
    rw [happ,hname] at he
    exact he
  | node =>
    obtain ⟨t,hserve,rfl⟩ := ha
    have hmakes := hb.orderly.makes hb.ran hj hasks.2
    obtain ⟨b,hheld,rfl⟩ := hasks.2
    obtain ⟨happ,hname⟩ := hb.orderly.copy hb.ran hj hheld.1
    have he := (hserve.ensured_node hb.orderly.sound (hmakes _ rfl)).settled rfl
    rw [happ,hname] at he
    exact he

theorem given_step (hb : Background c) (ht : Tracked c) (hs : (system lib site).Step c d) :
    ∀ h ∈ d.histories, ∀ ev ∈ h, ∀ slot id, Gives ev slot id → Placed d slot id := by
  have hgrows := (hb.orderly.devices_step hb.ran hs).1
  intro h hh ev hev slot id hg
  rcases Given.before hs ⟨h,hh,ev,hev,hg⟩ with ⟨h,hh,ev,hev,hg⟩ | ⟨h,e,next,r,hj,hj',hg⟩
  · exact hgrows.entries (ht.given h hh ev hev slot id hg)
  · exact (settled hb hj (hs.answers hj hj') hg).entry

/-- What a job has found has an id. -/
theorem found_ne_empty (hb : Background c) (ht : Tracked c) {h p} {slot : Slot} {id : String}
    (hj : c.job = some (h,p)) (hf : (view h).found slot = some id) : id ≠ "" := by
  obtain ⟨ev,hev,hg⟩ := found_given hf
  rintro rfl
  exact hb.orderly.named _ (site.own_place slot)
    (ht.given h (Config.mem_histories hj) ev hev _ _ hg)

/-- A status write is made on a live copy, and records what was recorded or found. -/
theorem status_write (hb : Background c) (ht : Tracked c) {h a next b}
    (hj : c.job = some (h,.call (.inl (.updateStatus a)) next)) (hcopy : lastCopy h = some b) :
    b.metadata.deletionTimestamp = none ∧ ∀ slot, recorded a.status slot = recorded b.status slot ∨
      ∃ id, (view h).found slot = some id ∧ recorded a.status slot = some id := by
  obtain ⟨-,b',hheld,-,-,hw⟩ := (hb.ran.obeys hj).1
  obtain rfl : b = b' := Option.some.inj (hcopy.symm.trans hheld.1)
  refine ⟨hheld.2.1,fun slot => ?_⟩
  rcases hw.recorded_cases slot with heq | ⟨id,hf,hrec,-⟩
  · exact .inl heq
  · exact .inr ⟨id,hf,hrec (ht.found_ne_empty hb hj hf)⟩

/-- While a job works on a live copy, no device is deleted. -/
theorem not_cleans {h p b} {id : String} (hj : c.job = some (h,p)) (hcopy : lastCopy h = some b)
    (hlive : b.metadata.deletionTimestamp = none) : ¬Cleans c id := by
  rintro ⟨h',p',b',hj',⟨hcopy',hdel,-⟩,-⟩
  obtain ⟨rfl,-⟩ := Prod.mk.inj (Option.some.inj (hj.symm.trans hj'))
  obtain rfl := Option.some.inj (hcopy.symm.trans hcopy')
  rw [hlive] at hdel
  cases hdel

/-- A job that has found something was at work on a live copy before its last call too. -/
theorem live_before (hb : Background c) {h e next r b} {k : Slot} {id : String}
    (hj : c.job = some (h,.call e next)) (hcopy : lastCopy (⟨e,r⟩::h) = some b)
    (hlive : b.metadata.deletionTimestamp = none) (hf : (view h).found k = some id) :
    ∃ b₀, lastCopy h = some b₀ ∧ b₀.metadata.deletionTimestamp = none := by
  have hperm := (hb.ran.obeys hj).1
  match e with
  | .inr e => exact ⟨b,hcopy,hlive⟩
  | .inl .get =>
    obtain rfl : h = [] := hperm
    cases k <;> cases hf
  | .inl (.update o) =>
    cases r with
    | ok v => cases hcopy
    | error err => exact ⟨b,hcopy,hlive⟩
  | .inl (.updateStatus o) =>
    cases r with
    | ok v =>
      obtain ⟨-,b₀,hheld,-⟩ := hperm
      exact ⟨b₀,hheld.1,hheld.2.1⟩
    | error err => exact ⟨b,hcopy,hlive⟩

theorem placed_step (hb : Background c) (ht : Tracked c) (hs : (system lib site).Step c d) :
    ∀ o, some o ∈ d.server.log → ∀ slot id, recorded o.status slot = some id →
      Placed d slot id := by
  have hgrows := (hb.orderly.devices_step hb.ran hs).1
  have hold : ∀ o, some o ∈ c.server.log → ∀ slot id, recorded o.status slot = some id →
      Placed d slot id := fun o ho slot id hrec => hgrows.entries (ht.placed o ho slot id hrec)
  intro o ho slot id hrec
  rcases (hb.ran.written Permits.disciplined hs).mem_or_current ho with ho | ho
  · exact hold o ho slot id hrec
  · cases hb.ran.successor Permits.disciplined hs ho with
    | created hi =>
      rw [hi] at hrec
      exact absurd hrec (by simp [losantSync])
    | kept hlat _ hst => exact hold _ (Server.mem_of_current hlat) slot id (hst ▸ hrec)
    | written hj hcopy hlat _ _ hst =>
      subst hst
      have hrec : recorded _ slot = some id := (recorded_encode _ slot).symm.trans hrec
      rcases (ht.status_write hb hj hcopy).2 slot with heq | ⟨id',hf,hrec'⟩
      · exact hold _ (Server.mem_of_current hlat) slot id (heq ▸ hrec)
      · obtain rfl := Option.some.inj (hrec'.symm.trans hrec)
        obtain ⟨ev,hev,hg⟩ := found_given hf
        exact hgrows.entries (ht.given _ (Config.mem_histories hj) ev hev _ _ hg)

theorem found_step (hb : Background c) (ht : Tracked c) (hs : (system lib site).Step c d) :
    ∀ h p b, d.job = some (h,p) → lastCopy h = some b → b.metadata.deletionTimestamp = none →
      ∀ slot id, (view h).found slot = some id → id ∈ (worldOf d).devices.removed →
        id ∈ (worldOf d).devices.taken := by
  have hgrows := (hb.orderly.devices_step hb.ran hs).1
  -- What the job had found before the step, on a copy that was live then too.
  have hold : ∀ {h p b slot id}, c.job = some (h,p) → lastCopy h = some b →
      b.metadata.deletionTimestamp = none → (view h).found slot = some id →
      id ∈ (worldOf d).devices.removed → id ∈ (worldOf d).devices.taken := by
    intro h p b slot id hj hcopy hlive hf hrem
    rcases hgrows.spared hrem with hrem | htaken | hclean
    · exact hgrows.taken (ht.found h p b hj hcopy hlive slot id hf hrem)
    · exact htaken
    · exact absurd hclean (not_cleans hj hcopy hlive)
  cases hs with
  | user | others => exact fun h p b hj hcopy hlive slot id hf hrem => hold hj hcopy hlive hf hrem
  | start =>
    intro h p b hj hcopy
    cases hj
    cases hcopy
  | @own s s' w past h e next r ha =>
    intro h' p b hj hcopy hlive slot id hf hrem
    cases hj
    rcases found_cons hf with hg | hf
    · cases hg
    · obtain ⟨b₀,hcopy₀,hlive₀⟩ := live_before hb rfl hcopy hlive hf
      exact hold rfl hcopy₀ hlive₀ hf hrem
  | @outside s w w' past h e next r ha =>
    intro h' p b hj hcopy hlive slot id hf hrem
    cases hj
    rcases found_cons hf with hg | hf
    · exact (settled hb rfl ha hg).kept hrem
    · exact hold rfl hcopy hlive hf hrem
  | finish | crash =>
    intro h p b hj
    cases hj

theorem kept_step (hb : Background c) (ht : Tracked c) (hs : (system lib site).Step c d) :
    ∀ o, d.server.current = some o → ∀ slot id, recorded o.status slot = some id →
      id ∈ (worldOf d).devices.removed →
        id ∈ (worldOf d).devices.taken ∨ d.server.Retired o.metadata.uid := by
  have hgrows := (hb.orderly.devices_step hb.ran hs).1
  have hlater : ∀ {uid}, c.server.Retired uid → d.server.Retired uid :=
    fun h => h.step Permits.disciplined hb.ran hs
  intro o ho slot id hrec hrem
  cases hb.ran.successor Permits.disciplined hs ho with
  | created hi =>
    rw [hi] at hrec
    exact absurd hrec (by simp [losantSync])
  | @kept b hlat hu hst =>
    rw [hst] at hrec
    rw [hu]
    rcases hgrows.spared hrem with hrem | htaken | ⟨h,p,b',hj,hdel,hrec'⟩
    · exact (ht.kept b hlat slot id hrec hrem).imp hgrows.taken hlater
    · exact .inl htaken
    · -- A job deletes devices: it has read that the object is being deleted.
      have hne : b.status ≠ losantSync.initial := by
        intro hi
        rw [hi] at hrec
        exact absurd hrec (by simp [losantSync])
      have hbegun := hb.ran.server.touched (Server.mem_of_current hlat) hne
      have huid := hb.ran.copy_uid hj hdel.1 hlat hbegun
      exact .inr (hlater (huid ▸ hb.retires h p b' hj hdel.1 hdel.2.1))
  | @written h a next b v hj hcopy hlat hm _ hst =>
    subst hst
    have hrec : recorded a.status slot = some id := (recorded_encode _ slot).symm.trans hrec
    have hu : (a.stored v).metadata.uid = b.metadata.uid := by simp [Object.stored,hm]
    obtain ⟨hlive,hcases⟩ := ht.status_write hb hj hcopy
    rw [hu]
    rcases hgrows.spared hrem with hrem | htaken | hclean
    · rcases hcases slot with heq | ⟨id',hf,hrec'⟩
      · exact (ht.kept b hlat slot id (heq ▸ hrec) hrem).imp hgrows.taken hlater
      · obtain rfl := Option.some.inj (hrec'.symm.trans hrec)
        exact .inl (hgrows.taken (ht.found h _ b hj hcopy hlive slot id' hf hrem))
    · exact .inl htaken
    · exact absurd hclean (not_cleans hj hcopy hlive)

theorem agrees_step (hb : Background c) (ht : Tracked c) (hs : (system lib site).Step c d) :
    ∀ h p o, d.job = some (h,p) → d.server.current = some o → ∀ slot id id',
      (view h).found slot = some id' → recorded o.status slot = some id →
        id = id' ∨ id ∈ (worldOf d).devices.taken ∨ d.server.Retired o.metadata.uid := by
  have hgrows := (hb.orderly.devices_step hb.ran hs).1
  have hkept := ht.kept_step hb hs
  have hold : ∀ {h p b slot id id'}, c.job = some (h,p) → c.server.current = some b →
      (view h).found slot = some id' → recorded b.status slot = some id →
      id = id' ∨ id ∈ (worldOf d).devices.taken ∨ d.server.Retired b.metadata.uid := by
    intro h p b slot id id' hj hlat hf hrec
    rcases ht.agrees h p b hj hlat slot id id' hf hrec with heq | htaken | hret
    · exact .inl heq
    · exact .inr (.inl (hgrows.taken htaken))
    · exact .inr (.inr (hret.step Permits.disciplined hb.ran hs))
  intro h p o hj ho slot id id' hf hrec
  cases hb.ran.successor Permits.disciplined hs ho with
  | created hi =>
    rw [hi] at hrec
    exact absurd hrec (by simp [losantSync])
  | @written k a next b v hj' hcopy hlat hm _ hst hafter =>
    subst hst
    cases Option.some.inj (hj.symm.trans hafter)
    have hrec : recorded a.status slot = some id := (recorded_encode _ slot).symm.trans hrec
    have hu : (a.stored v).metadata.uid = b.metadata.uid := by simp [Object.stored,hm]
    have hf : (view k).found slot = some id' := by
      rcases found_cons hf with hg | hf
      · cases hg
      · exact hf
    rw [hu]
    rcases (ht.status_write hb hj' hcopy).2 slot with heq | ⟨id'',hf',hrec'⟩
    · exact hold hj' hlat hf (heq ▸ hrec)
    · obtain rfl := Option.some.inj (hf'.symm.trans hf)
      exact .inl (Option.some.inj (hrec.symm.trans hrec'))
  | @kept b hlat hu hst =>
    have hrecb : recorded b.status slot = some id := hst ▸ hrec
    rw [hu]
    cases hs with
    | user | others => exact hold hj hlat hf hrecb
    | start =>
      cases hj
      cases slot <;> cases hf
    | @own s s' w past k e next r ha =>
      cases hj
      rcases found_cons hf with hg | hf
      · cases hg
      · exact hold rfl hlat hf hrecb
    | @outside s w w' past k e next r ha =>
      cases hj
      rcases found_cons hf with hg | hf
      · by_cases heq : id = id'
        · exact .inl heq
        · -- Another device in the place is gone, and the one recorded was in the place.
          have hplaced := hgrows.entries (ht.placed b (Server.mem_of_current hlat) slot id hrecb)
          have hrem := (settled hb rfl ha hg).rivals hplaced heq
          exact .inr (hkept b hlat slot id hrecb hrem)
      · exact hold rfl hlat hf hrecb
    | finish | crash => cases hj

theorem stable_step (hb : Background c) (ht : Tracked c) (hs : (system lib site).Step c d) :
    ∀ o l o', some o::l <:+ d.server.log → some o' ∈ l → o'.metadata.uid = o.metadata.uid →
      ∀ slot id, recorded o'.status slot = some id →
        recorded o.status slot = some id ∨ id ∈ (worldOf d).devices.taken := by
  have hgrows := (hb.orderly.devices_step hb.ran hs).1
  have hold : ∀ o l o', some o::l <:+ c.server.log → some o' ∈ l →
      o'.metadata.uid = o.metadata.uid → ∀ slot id, recorded o'.status slot = some id →
        recorded o.status slot = some id ∨ id ∈ (worldOf d).devices.taken :=
    fun o l o' hl ho' hu slot id hrec =>
      (ht.stable o l o' hl ho' hu slot id hrec).imp_right hgrows.taken
  intro o l o' hl ho' hu slot id hrec
  rcases (hb.ran.written Permits.disciplined hs).origin with hlog | ⟨x,hlog,-⟩
  · exact hold o l o' (hlog ▸ hl) ho' hu slot id hrec
  rw [hlog] at hl
  rcases List.suffix_cons_iff.mp hl with he | hl
  swap
  · exact hold o l o' hl ho' hu slot id hrec
  obtain ⟨rfl,rfl⟩ := List.cons.inj he
  -- The new state follows the stored one, which has kept what was recorded before it.
  have hlast : ∀ {b : LosantSync}, c.server.current = some b → b.metadata.uid = o.metadata.uid →
      recorded b.status slot = some id ∨ id ∈ (worldOf d).devices.taken := by
    intro b hlat hub
    obtain ⟨m,hm⟩ := Server.current_eq_some.mp hlat
    rw [hm] at ho'
    rcases List.mem_cons.mp ho' with hob | ho'
    · obtain rfl := Option.some.inj hob
      exact .inl hrec
    · exact hold b m o' (hm ▸ List.suffix_refl _) ho' (hu.trans hub.symm) slot id hrec
  cases hb.ran.successor Permits.disciplined hs (Server.current_eq_some.mpr ⟨_,hlog⟩) with
  | created _ hf => exact absurd hu (hf o' ho')
  | kept hlat hub hst =>
    rw [hst]
    exact hlast hlat hub.symm
  | @written h a next b v hj hcopy hlat hm _ hst =>
    subst hst
    have hub : b.metadata.uid = (a.stored v).metadata.uid := by simp [Object.stored,hm]
    have henc : recorded (a.stored v).status slot = recorded a.status slot := recorded_encode _ slot
    obtain ⟨hlive,hcases⟩ := ht.status_write hb hj hcopy
    rw [henc]
    rcases hlast hlat hub with hrecb | htaken
    · rcases hcases slot with heq | ⟨id',hf,hrec'⟩
      · exact .inl (heq.trans hrecb)
      · rcases ht.agrees h _ b hj hlat slot id id' hf hrecb with rfl | htaken | hret
        · exact .inl hrec'
        · exact .inr (hgrows.taken htaken)
        · exact absurd hret (hb.ran.not_retired hb.traced hj hcopy hlive)
    · exact .inr htaken

end Tracked

theorem tracked (hc : (system lib site).ReachableBy (SameSite site) c) : Tracked c := by
  refine System.ReachableBy.invariant (fun c hc => background hc) ?_ ?_ hc
  · intro w hw
    refine ⟨by simp [Config.histories],by simp,?_,?_,?_,by simp⟩
    · intro h p b hj
      cases hj
    · intro o ho
      cases ho
    · intro h p o hj
      cases hj
  · intro c d hb ht hs _
    exact ⟨ht.given_step hb hs,ht.placed_step hb hs,ht.found_step hb hs,ht.kept_step hb hs,
      ht.agrees_step hb hs,ht.stable_step hb hs⟩

/-- The slot has had the device: a job was given it or a status recorded it. -/
def Had (c : Config (system lib site)) (slot : Slot) (id : String) : Prop :=
  (∃ h ∈ c.histories, ∃ ev ∈ h, Gives ev slot id) ∨
    ∃ o, some o ∈ c.server.log ∧ recorded o.status slot = some id

theorem Tracked.had_placed (ht : Tracked c) {slot : Slot} {id : String} (h : Had c slot id) :
    Placed c slot id := by
  rcases h with ⟨h,hh,ev,hev,hg⟩ | ⟨o,ho,hrec⟩
  · exact ht.given h hh ev hev slot id hg
  · exact ht.placed o ho slot id hrec

/-- At most one device for each slot, distinct devices for distinct slots, and a stored id that
changes only after others took the device. -/
theorem devices_idempotent (lib : Externals) (site : Site) (c : Config (system lib site))
    (hc : (system lib site).ReachableBy (SameSite site) c) :
    (∀ slot id id', (worldOf c).devices.Present id (site.place slot) →
      (worldOf c).devices.Present id' (site.place slot) → id = id') ∧
    (∀ slot slot' id, Had c slot id → Had c slot' id → slot = slot') ∧
    (∀ o l o', some o::l <:+ c.server.log → some o' ∈ l → o'.metadata.uid = o.metadata.uid →
      ∀ slot id, recorded o'.status slot = some id → id ∉ (worldOf c).devices.taken →
        recorded o.status slot = some id) := by
  have ho := orderly hc
  have ht := tracked hc
  refine ⟨?_,?_,?_⟩
  · intro slot id id' hp hp'
    exact ho.sound.single (site.own_place slot) hp hp'
  · intro slot slot' id h h'
    exact site.place_injective (ho.sound.place (ht.had_placed h) (ht.had_placed h'))
  · intro o l o' hl ho' hu slot id hrec htaken
    exact (ht.stable o l o' hl ho' hu slot id hrec).resolve_right htaken

/-- The object of every step is one of the site. -/
def sameSite (_ d : Config (system .plain edgeSite)) : Bool :=
  d.server.current.all fun o => o.spec.applicationID = "app" ∧ o.spec.clusterName = "edge"

theorem sameSite_of_test (c d : Config (system .plain edgeSite)) (h : sameSite c d = true) :
    SameSite edgeSite c d := by
  intro o ho
  rw [sameSite,ho] at h
  exact of_decide_eq_true h

/-- After the third job the cluster and its node have a device each. -/
theorem devices_idempotent_active : ∃ c : Config (system .plain edgeSite),
    (system .plain edgeSite).ReachableBy (SameSite edgeSite) c ∧
    ∃ o, c.server.current = some o ∧ o.status.phase = .active ∧
      recorded o.status .cluster = some "device-0" ∧
      recorded o.status (.node "n1") = some "device-1" ∧
      ∀ id, (worldOf c).devices.Present id (edgeSite.place .cluster) → id = "device-0" := by
  obtain ⟨c,hc,hp⟩ := System.exists_tested sameSite start_emptyWorld (activate .plain)
    (fun c => c.server.current.any fun o => o.status.phase = .active ∧
      recorded o.status .cluster = some "device-0" ∧
      recorded o.status (.node "n1") = some "device-1" ∧
      ("device-0",edgeSite.place .cluster) ∈ (worldOf c).devices.entries ∧
      "device-0" ∉ (worldOf c).devices.removed) (by decide +kernel)
  obtain ⟨o,ho,hp⟩ := (Option.any_eq_true _ _).mp hp
  obtain ⟨hphase,hcluster,hnode,hpresent⟩ := of_decide_eq_true hp
  have hc := hc.mono sameSite_of_test
  refine ⟨c,hc,o,ho,hphase,hcluster,hnode,fun id hid => ?_⟩
  exact (devices_idempotent .plain edgeSite c hc).1 .cluster id "device-0" hid hpresent

end LosantDevice.Sync

import LosantDevice.Sync.Devices

/-!
# The gateway's credentials and the cluster device

The bootstrap stores credentials for the cluster device in a Secret and is then skipped for ever.
The Secret therefore stays behind when the device is deleted by others and the next sync makes a
new one. As long as no sync meets an object that was bootstrapped for a device that others have
deleted, the Secret holds the credentials of the device that the status records.
-/
namespace LosantDevice.Sync
open Effect Kube Go Program Registry

variable {lib : Externals} {site : Site} {c d : Config (system lib site)}

/-! ## Credentials -/

theorem not_holds_placeholder (id : String) : ¬Holds placeholderData id := by
  rintro ⟨-,hkey,-⟩
  exact hkey (by simp [valueOf,placeholderData,Finmap.lookup_insert_of_ne])

def Booted (o : LosantSync) : Prop := HasStatus o.status.conditions .geaBootstrapped .true

/-- The Secret holds credentials for the device. -/
def HasCredentials (w : World) (ref : NamespacedName) (id : String) : Prop :=
  ∃ s, w.secret ref = some s ∧ Holds s.data id

theorem World.secret_put (w : World) (ref : NamespacedName) (s : Option StoredSecret) :
    (w.put ref s).secret ref = s := by simp [World.secret,World.put]

theorem World.secrets_put (w : World) (ref : NamespacedName) (s : Option StoredSecret) :
    (w.put ref s).secrets ref = s::w.secrets ref := by simp [World.put]

theorem World.secrets_put_of_ne (w : World) {ref ref' : NamespacedName} (s : Option StoredSecret)
    (hne : ref' ≠ ref) : (w.put ref s).secrets ref' = w.secrets ref' := by simp [World.put,hne]

theorem HasCredentials.congr {w w' : World} {ref : NamespacedName} {id : String}
    (h : HasCredentials w ref id) (hs : w'.secrets ref = w.secrets ref) :
    HasCredentials w' ref id := by
  obtain ⟨s,hcur,hh⟩ := h
  refine ⟨s,?_,hh⟩
  rw [World.secret,hs]
  exact hcur

/-- Credentials that a job has made are complete. -/
theorem KeyData.holds (hc : (system lib site).Reachable c) {h p} (hj : c.job = some (h,p))
    {id : String} {data : GoMap String} (hk : KeyData h id data) : Holds data id := by
  obtain ⟨lc,app,name,key,hm,rfl⟩ := hk
  obtain ⟨w,w',t,hserve,-⟩ := System.Reachable.answered hc (Config.mem_histories hj) hm
  have hkey : (lc.createDeviceAccessKey app id name).Runs _ _ _ _ _ := hserve
  exact holds_credentialData (Losant.createDeviceAccessKey_complete hkey)

/-! ## The steps considered -/

/-- The step keeps to the site, the credentials are written only by calls of the job, and the
Secret of a bootstrapped object stays in its namespace. -/
structure Steady (site : Site) (c d : Config (system lib site)) : Prop where
  sameSite : SameSite site c d
  secrets : ∀ ref, ref.name = geaCredentialsSecretName →
    (worldOf d).secrets ref = (worldOf c).secrets ref ∨
      ∃ h e r, (system lib site).Answered c d h e r
  namespaces : ∀ o o', c.server.current = some o → d.server.current = some o' →
    o'.metadata.uid = o.metadata.uid → Booted o → credentialsRef o' = credentialsRef o

/-- When the cluster device is looked up for a bootstrapped object, others have not deleted the
recorded one. -/
structure Undisturbed (site : Site) (c d : Config (system lib site)) : Prop extends
    Steady site c d where
  device :
    ∀ h lc spec r o, (system lib site).Answered c d h (.losant lc (.ensureClusterDevice spec)) r →
    c.server.current = some o → Booted o →
    o.status.clusterDeviceID ∉ (worldOf d).devices.taken

/-- The step is the write of a Secret by the job. -/
structure Wrote (c d : Config (system lib site)) (s : Secret) : Prop where
  server : d.server = c.server
  devices : (worldOf d).devices = (worldOf c).devices
  secrets : ∃ v, (worldOf d).secrets = ((worldOf c).put s.namespacedName (some ⟨v,s.data⟩)).secrets
  job : ∃ h p e r q, c.job = some (h,p) ∧ d.job = some (⟨.inr e,r⟩::h,q) ∧
    view (⟨.inr e,r⟩::h) = (view h).know s.namespacedName s.data ∧
    (Stores h s ∨ s.data = placeholderData ∧ (worldOf c).secret s.namespacedName = none)

/-- The event shows the job what a Secret holds. -/
inductive Shows : Event interface → NamespacedName → GoMap String → Prop
  | read {ref s} : Shows ⟨.inr (.getSecret ref),.ok s⟩ ref s.data
  | created {s : Secret} : Shows ⟨.inr (.createSecret s),.ok ()⟩ s.namespacedName s.data
  | updated {s : Secret} : Shows ⟨.inr (.updateSecret s),.ok ()⟩ s.namespacedName s.data

theorem secrets_know {v : View} {ref ref' : NamespacedName} {data data' : GoMap String}
    (h : (v.know ref' data').secrets ref = some data) :
    ref = ref' ∧ data' = data ∨ v.secrets ref = some data := by
  by_cases he : ref = ref'
  · subst he
    exact .inl ⟨rfl,by simpa [View.know] using h⟩
  · exact .inr (by simpa [View.know,he] using h)

theorem secrets_cons {ev : Event interface} {h : Past} {ref : NamespacedName} {data : GoMap String}
    (hs : (view (ev::h)).secrets ref = some data) :
    Shows ev ref data ∨ (view h).secrets ref = some data := by
  change (observe ev (view h)).secrets ref = some data at hs
  revert hs
  fun_cases observe ev (view h) with
  | case5 =>
    intro hs
    rcases secrets_know hs with ⟨rfl,rfl⟩ | hs
    · exact .inl .read
    · exact .inr hs
  | case7 =>
    intro hs
    rcases secrets_know hs with ⟨rfl,rfl⟩ | hs
    · exact .inl .created
    · exact .inr hs
  | case9 =>
    intro hs
    rcases secrets_know hs with ⟨rfl,rfl⟩ | hs
    · exact .inl .updated
    · exact .inr hs
  | case11 =>
    intro hs
    cases hs
  | _ => exact .inr

/-- What a job is shown is a state of the Secret. -/
theorem Shows.stored {w w' : World} {e : Call} {r : calls.Answer e} {ref : NamespacedName}
    {data : GoMap String} (hs : Shows ⟨.inr e,r⟩ ref data) (ha : w.answers site e r w') :
    ∃ s, some s ∈ w'.secrets ref ∧ s.data = data := by
  cases hs with
  | @read ref s =>
    obtain ⟨rfl,hmem⟩ := ha
    exact ⟨s,hmem s rfl,rfl⟩
  | @created s =>
    obtain ⟨-,v,rfl⟩ := ha
    exact ⟨⟨v,s.data⟩,by rw [World.secrets_put]; exact List.mem_cons_self,rfl⟩
  | @updated s =>
    obtain ⟨-,v,rfl⟩ := ha
    exact ⟨⟨v,s.data⟩,by rw [World.secrets_put]; exact List.mem_cons_self,rfl⟩

/-- What a step does to the credentials. -/
theorem secrets_step (hr : Ran c) (hs : (system lib site).Step c d) (hu : Steady site c d) :
    (∀ ref, ref.name = geaCredentialsSecretName →
      (worldOf d).secrets ref = (worldOf c).secrets ref) ∨ ∃ s, Wrote c d s := by
  cases hs with
  | others ha =>
    refine .inl fun ref href => ?_
    rcases hu.secrets ref href with heq | ⟨h,e,r,next,hc,hd⟩
    · exact heq
    · -- The job has made no call.
      have hlen := congrArg (fun j => (j.map fun p => p.1.length).getD 0) (hc.symm.trans hd)
      simp at hlen
  | @outside s w w' past h e next r ha =>
    have hperm := (hr.obeys rfl).1
    cases World.changed ha with
    | kept | asked => exact .inl fun _ _ => rfl
    | @created s v habs =>
      exact .inr ⟨s,rfl,rfl,⟨v,rfl⟩,h,_,_,_,_,rfl,rfl,rfl,hperm.2.imp_right fun hp => ⟨hp,habs⟩⟩
    | @updated s v => exact .inr ⟨s,rfl,rfl,⟨v,rfl⟩,h,_,_,_,_,rfl,rfl,rfl,.inl hperm.2⟩
  | user | start | own | finish | crash => exact .inl fun _ _ => rfl

/-- A bootstrapped status was bootstrapped before, for the device that was recorded or the one that
was found, or the job has seen to the credentials. -/
theorem StatusWrite.booted_cases {h : Past} {b : LosantSync} {t : LosantSyncStatus}
    (hw : StatusWrite h b t) (ht : HasStatus t.conditions .geaBootstrapped .true) :
    Booted b ∧ (t.clusterDeviceID = b.status.clusterDeviceID ∨
      (view h).cluster = some t.clusterDeviceID) ∨ Provisioned h b t.clusterDeviceID := by
  have hkept : Kept h b t → Booted b ∧ (t.clusterDeviceID = b.status.clusterDeviceID ∨
      (view h).cluster = some t.clusterDeviceID) ∨ Provisioned h b t.clusterDeviceID := by
    intro hk
    refine (hk.booted ht).imp_left fun hb => ⟨hb,?_⟩
    rw [hk.cluster]
    cases (view h).cluster with
    | none => exact .inl rfl
    | some id => exact .inr rfl
  cases hw with
  | suspended | first => exact .inl ⟨ht,.inl rfl⟩
  | degraded _ hk => exact hkept hk
  | active _ hk => exact hkept hk

/-! ## The invariant -/

/-- How the Secrets, the running job and the stored status relate. -/
structure Matched (c : Config (system lib site)) : Prop where
  full : ∀ ref, ref.name = geaCredentialsSecretName → none ∉ (worldOf c).secrets ref
  stored : ∀ ref s id, ref.name = geaCredentialsSecretName → some s ∈ (worldOf c).secrets ref →
    Holds s.data id → Placed c .cluster id ∧
      (id ∈ (worldOf c).devices.removed ∨ HasCredentials (worldOf c) ref id)
  persisted : ∀ o, c.server.current = some o → Booted o →
    HasCredentials (worldOf c) (credentialsRef o) o.status.clusterDeviceID
  agrees : ∀ h p o id, c.job = some (h,p) → c.server.current = some o → Booted o →
    (view h).cluster = some id →
      o.status.clusterDeviceID = id ∨ c.server.Retired o.metadata.uid
  settled : ∀ h p b id, c.job = some (h,p) → lastCopy h = some b →
    b.metadata.deletionTimestamp = none → (view h).cluster = some id →
      (worldOf c).devices.Settled id (site.place .cluster)
  current : ∀ h p id ref s, c.job = some (h,p) → (view h).cluster = some id →
    ref.name = geaCredentialsSecretName → some s ∈ (worldOf c).secrets ref → Holds s.data id →
      HasCredentials (worldOf c) ref id
  known : ∀ h p ref data, c.job = some (h,p) → ref.name = geaCredentialsSecretName →
    (view h).secrets ref = some data → ∃ s, some s ∈ (worldOf c).secrets ref ∧ s.data = data

/-- What is known besides. -/
structure Foundation (c : Config (system lib site)) : Prop extends Background c where
  reachable : (system lib site).Reachable c
  tracked : Tracked c

theorem foundation (hc : (system lib site).ReachableBy (Undisturbed site) c) : Foundation c := by
  have hc' := hc.mono (fun _ _ h => h.sameSite)
  exact { background hc' with reachable := hc.reachable, tracked := tracked hc' }

namespace Matched

theorem booted_ne_initial {o : LosantSync} (ho : Booted o) : o.status ≠ losantSync.initial := by
  intro hi
  rw [Booted,hi] at ho
  obtain ⟨x,hx,-⟩ := ho
  cases hx

/-- A bootstrapped object records a device of the site. -/
theorem recorded_of_booted (hf : Foundation c) (hm : Matched c) {o : LosantSync}
    (ho : c.server.current = some o) (hboot : Booted o) :
    recorded o.status .cluster = some o.status.clusterDeviceID := by
  obtain ⟨s,hcur,hh⟩ := hm.persisted o ho hboot
  have hmem : some s ∈ (worldOf c).secrets (credentialsRef o) := by
    unfold World.secret at hcur
    cases hl : (worldOf c).secrets (credentialsRef o) with
    | nil => simp [hl] at hcur
    | cons x l =>
      obtain rfl : x = some s := by simpa [hl] using hcur
      exact List.mem_cons_self
  obtain ⟨hplaced,-⟩ := hm.stored (credentialsRef o) s _ rfl hmem hh
  have hne : o.status.clusterDeviceID ≠ "" := by
    intro he
    rw [he] at hplaced
    exact hf.orderly.named _ (site.own_place .cluster) hplaced
  exact if_neg hne

/-- The Secret that does not exist has never existed. -/
theorem secrets_of_absent (hm : Matched c) {ref : NamespacedName}
    (href : ref.name = geaCredentialsSecretName) (habs : (worldOf c).secret ref = none) :
    (worldOf c).secrets ref = [] := by
  have hfull := hm.full ref href
  unfold World.secret at habs
  cases hl : (worldOf c).secrets ref with
  | nil => rfl
  | cons x l =>
    rw [hl] at habs hfull
    obtain rfl : x = none := by simpa using habs
    exact absurd List.mem_cons_self hfull

/-- The object that is stored and bootstrapped is not retired under a job that works on a live
copy. -/
theorem not_retired (hf : Foundation c) {h p b o} (hj : c.job = some (h,p)) (hheld : Held h b)
    (ho : c.server.current = some o) (hboot : Booted o) : ¬c.server.Retired o.metadata.uid := by
  have hbegun := hf.ran.server.touched (Server.mem_of_current ho) (booted_ne_initial hboot)
  rw [← hf.ran.copy_uid hj hheld.1 ho hbegun]
  exact hf.ran.not_retired hf.traced hj hheld.1 hheld.2.1

theorem full_step (hf : Foundation c) (hm : Matched c) (hs : (system lib site).Step c d)
    (hu : Steady site c d) :
    ∀ ref, ref.name = geaCredentialsSecretName → none ∉ (worldOf d).secrets ref := by
  intro ref href
  rcases secrets_step hf.ran hs hu with hsame | ⟨s,hw⟩
  · rw [hsame ref href]
    exact hm.full ref href
  · obtain ⟨v,hv⟩ := hw.secrets
    rw [hv]
    by_cases he : ref = s.namespacedName
    · subst he
      rw [World.secrets_put]
      simpa using hm.full _ href
    · rw [World.secrets_put_of_ne _ _ he]
      exact hm.full ref href

/-- What the job writes are credentials for the device it has found, or nothing was there and the
data are empty. -/
theorem written_data (hf : Foundation c) {h p} {s : Secret} {id : String} (hj : c.job = some (h,p))
    (hh : Holds s.data id)
    (ha : Stores h s ∨ s.data = placeholderData ∧ (worldOf c).secret s.namespacedName = none) :
    (view h).cluster = some id ∧ ∃ b, Held h b := by
  rcases ha with ⟨b,hheld,-,id',hc,hk⟩ | ⟨hp,-⟩
  · have heq := (hk.holds hf.reachable hj).unique hh
    exact ⟨heq ▸ hc,b,hheld⟩
  · rw [hp] at hh
    exact absurd hh (not_holds_placeholder id)

theorem stored_step (hf : Foundation c) (hm : Matched c) (hs : (system lib site).Step c d)
    (hu : Steady site c d) : ∀ ref s id, ref.name = geaCredentialsSecretName →
      some s ∈ (worldOf d).secrets ref → Holds s.data id → Placed d .cluster id ∧
        (id ∈ (worldOf d).devices.removed ∨ HasCredentials (worldOf d) ref id) := by
  have hgrows := (hf.orderly.devices_step hf.ran hs).1
  intro ref s id href hmem hh
  have hold : (worldOf d).secrets ref = (worldOf c).secrets ref → Placed d .cluster id ∧
      (id ∈ (worldOf d).devices.removed ∨ HasCredentials (worldOf d) ref id) := by
    intro heq
    rw [heq] at hmem
    obtain ⟨hplaced,hcases⟩ := hm.stored ref s id href hmem hh
    exact ⟨hgrows.entries hplaced,hcases.imp hgrows.removed (fun hc => hc.congr heq)⟩
  rcases secrets_step hf.ran hs hu with hsame | ⟨s',hw⟩
  · exact hold (hsame ref href)
  obtain ⟨v,hv⟩ := hw.secrets
  by_cases he : ref = s'.namespacedName
  swap
  · exact hold (by rw [hv,World.secrets_put_of_ne _ _ he])
  subst he
  obtain ⟨h,p,e,r,q,hj,-,-,hallowed⟩ := hw.job
  have hnew : ∀ id, Holds s'.data id → HasCredentials (worldOf d) s'.namespacedName id := by
    intro id hid
    refine ⟨⟨v,s'.data⟩,?_,hid⟩
    rw [World.secret,hv]
    exact World.secret_put _ _ _
  rw [hv,World.secrets_put] at hmem
  rcases List.mem_cons.mp hmem with heq | hmem
  · cases heq
    obtain ⟨hc,-⟩ := written_data hf hj hh hallowed
    obtain ⟨ev',hev',hg⟩ := found_given (k := .cluster) hc
    have hgiven := hf.tracked.given h (Config.mem_histories hj) ev' hev' _ _ hg
    exact ⟨hgrows.entries hgiven,.inr (hnew id hh)⟩
  · -- An older state: it is for the same device, or for one that was gone when this one was found.
    obtain ⟨hplaced,-⟩ := hm.stored _ s id href hmem hh
    refine ⟨hgrows.entries hplaced,?_⟩
    rcases hallowed with ⟨b,hheld,-,id',hc,hk⟩ | ⟨-,habs⟩
    · have hid' := hk.holds hf.reachable hj
      by_cases heq : id = id'
      · exact .inr (hnew id (heq ▸ hid'))
      · have hset := hm.settled h p b id' hj hheld.1 hheld.2.1 hc
        exact .inl (hgrows.removed (hset.rivals hplaced heq))
    · rw [hm.secrets_of_absent href habs] at hmem
      cases hmem

/-- What the Secret of a bootstrapped object holds is not overwritten for another device. -/
theorem credentials_kept (hf : Foundation c) (hm : Matched c) (hs : (system lib site).Step c d)
    (hu : Steady site c d) {o : LosantSync} (ho : c.server.current = some o) (hboot : Booted o) :
    HasCredentials (worldOf d) (credentialsRef o) o.status.clusterDeviceID := by
  have hcred := hm.persisted o ho hboot
  rcases secrets_step hf.ran hs hu with hsame | ⟨s,hw⟩
  · exact hcred.congr (hsame _ rfl)
  obtain ⟨v,hv⟩ := hw.secrets
  by_cases he : credentialsRef o = s.namespacedName
  swap
  · exact hcred.congr (by rw [hv,World.secrets_put_of_ne _ _ he])
  obtain ⟨h,p,e,r,q,hj,-,-,hallowed⟩ := hw.job
  rcases hallowed with ⟨b,hheld,-,id,hc,hk⟩ | ⟨-,habs⟩
  · have hid : o.status.clusterDeviceID = id := by
      rcases hm.agrees h p o id hj ho hboot hc with heq | hret
      · exact heq
      · exact absurd hret (not_retired hf hj hheld ho hboot)
    refine ⟨⟨v,s.data⟩,?_,hid ▸ hk.holds hf.reachable hj⟩
    rw [World.secret,hv,he]
    exact World.secret_put _ _ _
  · obtain ⟨x,hx,-⟩ := hcred
    rw [he,habs] at hx
    cases hx

theorem persisted_step (hf : Foundation c) (hm : Matched c) (hs : (system lib site).Step c d)
    (hu : Steady site c d) : ∀ o, d.server.current = some o → Booted o →
      HasCredentials (worldOf d) (credentialsRef o) o.status.clusterDeviceID := by
  intro o ho hboot
  cases hf.ran.successor Permits.disciplined hs ho with
  | created hi => exact absurd hi (booted_ne_initial hboot)
  | @kept b hlat huid hst =>
    have hbb : Booted b := by
      rw [Booted,← hst]
      exact hboot
    rw [hu.namespaces b o hlat ho huid hbb,hst]
    exact hm.credentials_kept hf hs hu hlat hbb
  | @written h a next b v hj hcopy hlat hmeta hspec hst hafter =>
    subst hst
    have href : credentialsRef (a.stored v) = credentialsRef b := by
      simp [credentialsRef,Object.stored,hspec]
    have hsecrets : ∀ ref, ref.name = geaCredentialsSecretName →
        (worldOf d).secrets ref = (worldOf c).secrets ref := by
      rcases secrets_step hf.ran hs hu with hsame | ⟨s,hw⟩
      · exact hsame
      · -- The call is one on the object, not on a Secret.
        obtain ⟨h',p,e,r,q,-,hd,-⟩ := hw.job
        cases Option.some.inj (hafter.symm.trans hd)
    obtain ⟨-,b',hheld,-,-,hw⟩ := (hf.ran.obeys hj).1
    obtain rfl : b = b' := Option.some.inj (hcopy.symm.trans hheld.1)
    have hid : (a.stored v).status.clusterDeviceID = a.status.clusterDeviceID := rfl
    rw [href,hid]
    refine HasCredentials.congr ?_ (hsecrets _ rfl)
    rcases hw.booted_cases ((encode_conditions _).mp hboot) with
      ⟨hbb,heq | hc⟩ | ⟨hc,data,hdata,hcases⟩
    · rw [heq]
      exact hm.persisted b hlat hbb
    · rcases hm.agrees h _ b _ hj hlat hbb hc with heq | hret
      · rw [← heq]
        exact hm.persisted b hlat hbb
      · exact absurd hret (not_retired hf hj hheld hlat hbb)
    · have hh : Holds data a.status.clusterDeviceID := by
        rcases hcases with hcomp | hk
        · exact (complete_iff.mp hcomp).2
        · exact hk.holds hf.reachable hj
      obtain ⟨s,hs,rfl⟩ := hm.known h _ _ data hj rfl hdata
      exact hm.current h _ _ _ s hj hc rfl hs hh

theorem agrees_step (hf : Foundation c) (hm : Matched c) (hs : (system lib site).Step c d)
    (hu : Undisturbed site c d) : ∀ h p o id, d.job = some (h,p) → d.server.current = some o →
      Booted o → (view h).cluster = some id →
        o.status.clusterDeviceID = id ∨ d.server.Retired o.metadata.uid := by
  have hlater : ∀ {uid}, c.server.Retired uid → d.server.Retired uid :=
    fun h => h.step Permits.disciplined hf.ran hs
  have hkept := hf.tracked.kept_step hf.toBackground hs
  intro h p o id hj ho hboot hc
  cases hf.ran.successor Permits.disciplined hs ho with
  | created hi => exact absurd hi (booted_ne_initial hboot)
  | @written k a next b v hj' hcopy hlat hmeta hspec hst hafter =>
    subst hst
    cases Option.some.inj (hj.symm.trans hafter)
    have hc : (view k).cluster = some id := hc
    obtain ⟨-,b',hheld,-,-,hw⟩ := (hf.ran.obeys hj').1
    obtain rfl : b = b' := Option.some.inj (hcopy.symm.trans hheld.1)
    have hid : (a.stored v).status.clusterDeviceID = a.status.clusterDeviceID := rfl
    rw [hid]
    rcases hw.booted_cases ((encode_conditions _).mp hboot) with ⟨hbb,heq | hc'⟩ | ⟨hc',-⟩
    · rw [heq]
      rcases hm.agrees k _ b id hj' hlat hbb hc with heq | hret
      · exact .inl heq
      · exact absurd hret (not_retired hf hj' hheld hlat hbb)
    · exact .inl (Option.some.inj (hc'.symm.trans hc))
    · exact .inl (Option.some.inj (hc'.symm.trans hc))
  | @kept b hlat huid hst =>
    have hbb : Booted b := by
      rw [Booted,← hst]
      exact hboot
    have hold : ∀ {h p}, c.job = some (h,p) → (view h).cluster = some id →
        b.status.clusterDeviceID = id ∨ d.server.Retired b.metadata.uid :=
      fun hj hc => (hm.agrees _ _ b id hj hlat hbb hc).imp_right hlater
    rw [huid,hst]
    cases hs with
    | user | others => exact hold hj hc
    | start =>
      cases hj
      cases hc
    | @own s s' w past k e next r ha =>
      cases hj
      rcases found_cons (k := .cluster) hc with hg | hc
      · cases hg
      · exact hold rfl hc
    | @outside s w w' past k e next r ha =>
      cases hj
      rcases found_cons (k := .cluster) hc with hg | hc
      · by_cases heq : b.status.clusterDeviceID = id
        · exact .inl heq
        · -- The recorded device is gone, and it was not taken by others.
          have hrec := hm.recorded_of_booted hf hlat hbb
          have hplaced := hf.tracked.placed b (Server.mem_of_current hlat) _ _ hrec
          have hset := Tracked.settled hf.toBackground rfl ha hg
          have hgrows := (hf.orderly.devices_step hf.ran (.outside ha)).1
          have hrem := hset.rivals (hgrows.entries hplaced) heq
          rcases hkept b hlat _ _ hrec hrem with htaken | hret
          · cases hg
            exact absurd htaken (hu.device k _ _ _ b ⟨next,rfl,rfl⟩ hlat hbb)
          · exact .inr hret
      · exact hold rfl hc
    | finish | crash => cases hj

/-- While a job that has found the cluster device works on a live copy, no other is made or
deleted. -/
theorem devices_quiet (hf : Foundation c) (hs : (system lib site).Step c d) {h p b id}
    (hj : c.job = some (h,p)) (hcopy : lastCopy h = some b)
    (hlive : b.metadata.deletionTimestamp = none) (hc : (view h).cluster = some id) :
    (worldOf c).devices.Grows site.Own (· ≠ site.place .cluster) (fun _ => False)
      (worldOf d).devices := by
  have hclean : ∀ id', ¬Cleans c id' := fun _ => Tracked.not_cleans hj hcopy hlive
  cases hs with
  | others ha =>
    cases ha with
    | devices hm => exact hm.grows
    | secret ref s => exact .refl _
  | @outside s w w' past k e next r ha =>
    cases hj
    rcases World.answers_devices ha with heq | ⟨lc,m,r',hev,hserve⟩
    · change w.devices.Grows _ _ _ w'.devices
      rw [heq]
      exact .refl _
    · cases hev
      have hasks : Asks h m := (hf.ran.obeys rfl).1.2
      have hgrows := (hserve.grows hf.orderly.sound (hf.orderly.makes hf.ran rfl hasks)).1
      refine hgrows.mono ?_ ?_
      · intro k hk heq
        cases m with
        | ensureClusterDevice spec =>
          obtain ⟨-,-,-,hnone⟩ := hasks
          rw [hnone] at hc
          cases hc
        | ensureNodeDevice spec n g =>
          have hname := congrArg Prod.snd (heq.symm.trans hk)
          exact clusterDeviceName_ne_nodeDeviceName _ _ _ hname
        | ping | createDeviceAccessKey | deleteDevice | releaseWorkflow | getEdgeDeployments =>
          exact hk
      · intro id' hid'
        obtain ⟨b',hdel,hrec⟩ := hasks.deletes hid'
        exact hclean id' ⟨h,_,b',rfl,hdel,hrec⟩
  | user | start | own | finish | crash => exact .refl _

theorem settled_step (hf : Foundation c) (hm : Matched c) (hs : (system lib site).Step c d) :
    ∀ h p b id, d.job = some (h,p) → lastCopy h = some b → b.metadata.deletionTimestamp = none →
      (view h).cluster = some id → (worldOf d).devices.Settled id (site.place .cluster) := by
  have hold : ∀ {h p b id}, c.job = some (h,p) → lastCopy h = some b →
      b.metadata.deletionTimestamp = none → (view h).cluster = some id →
      (worldOf d).devices.Settled id (site.place .cluster) := by
    intro h p b id hj hcopy hlive hc
    have hset := hm.settled h p b id hj hcopy hlive hc
    exact hset.grows (devices_quiet hf hs hj hcopy hlive hc) (site.own_place _) (by simp) (by simp)
  cases hs with
  | user | others => exact fun h p b id hj hcopy hlive hc => hold hj hcopy hlive hc
  | start =>
    intro h p b id hj hcopy
    cases hj
    cases hcopy
  | @own s s' w past h e next r ha =>
    intro h' p b id hj hcopy hlive hc
    cases hj
    rcases found_cons (k := .cluster) hc with hg | hc
    · cases hg
    · obtain ⟨b₀,hcopy₀,hlive₀⟩ := Tracked.live_before hf.toBackground rfl hcopy hlive
        (k := .cluster) hc
      exact hold rfl hcopy₀ hlive₀ hc
  | @outside s w w' past h e next r ha =>
    intro h' p b id hj hcopy hlive hc
    cases hj
    rcases found_cons (k := .cluster) hc with hg | hc
    · exact Tracked.settled hf.toBackground rfl ha hg
    · exact hold rfl hcopy hlive hc
  | finish | crash =>
    intro h p b id hj
    cases hj

/-- The device that a job is given was not removed before. -/
theorem given_there (hf : Foundation c) {h e next r w'} {id : String}
    (hj : c.job = some (h,.call (.inr e) next)) (ha : (worldOf c).answers site e r w')
    (hg : Gives ⟨.inr e,r⟩ .cluster id) : id ∉ (worldOf c).devices.removed := by
  have hasks := (hf.ran.obeys hj).1
  cases hg
  obtain ⟨t,hserve,rfl⟩ := ha
  have hmakes := hf.orderly.makes hf.ran hj hasks.2
  exact (hserve.ensured_cluster hf.orderly.sound (hmakes _ rfl)).there rfl

/-- The credentials that are there for the device of the running job stay the latest ones, as long
as the Secrets do not change. -/
theorem current_same (hf : Foundation c) (hm : Matched c) (hs : (system lib site).Step c d)
    {h p id ref s} (hsame : (worldOf d).secrets ref = (worldOf c).secrets ref)
    (hj : d.job = some (h,p)) (hc : (view h).cluster = some id)
    (href : ref.name = geaCredentialsSecretName) (hmem : some s ∈ (worldOf d).secrets ref)
    (hh : Holds s.data id) : HasCredentials (worldOf d) ref id := by
  rw [hsame] at hmem
  refine HasCredentials.congr ?_ hsame
  have hold : ∀ {h p}, c.job = some (h,p) → (view h).cluster = some id →
      HasCredentials (worldOf c) ref id :=
    fun hj hc => hm.current _ _ id ref s hj hc href hmem hh
  cases hs with
  | user | others => exact hold hj hc
  | start =>
    cases hj
    cases hc
  | own =>
    cases hj
    rcases found_cons (k := .cluster) hc with hg | hc
    · cases hg
    · exact hold rfl hc
  | outside ha =>
    cases hj
    rcases found_cons (k := .cluster) hc with hg | hc
    · obtain ⟨-,hrem | hcred⟩ := hm.stored ref s id href hmem hh
      · exact absurd hrem (given_there hf rfl ha hg)
      · exact hcred
    · exact hold rfl hc
  | finish | crash => cases hj

theorem current_step (hf : Foundation c) (hm : Matched c) (hs : (system lib site).Step c d)
    (hu : Steady site c d) : ∀ h p id ref s, d.job = some (h,p) →
      (view h).cluster = some id → ref.name = geaCredentialsSecretName →
      some s ∈ (worldOf d).secrets ref → Holds s.data id → HasCredentials (worldOf d) ref id := by
  intro h p id ref s hj hc href hmem hh
  rcases secrets_step hf.ran hs hu with hsame | ⟨s',hw⟩
  · exact hm.current_same hf hs (hsame ref href) hj hc href hmem hh
  obtain ⟨v,hv⟩ := hw.secrets
  by_cases he : ref = s'.namespacedName
  swap
  · exact hm.current_same hf hs (by rw [hv,World.secrets_put_of_ne _ _ he]) hj hc href hmem hh
  subst he
  obtain ⟨k,q,e,r,q',hj',hd,hview,hallowed⟩ := hw.job
  cases Option.some.inj (hj.symm.trans hd)
  rw [hview] at hc
  have hnew : ∀ id, Holds s'.data id → HasCredentials (worldOf d) s'.namespacedName id := by
    intro id hid
    refine ⟨⟨v,s'.data⟩,?_,hid⟩
    rw [World.secret,hv]
    exact World.secret_put _ _ _
  rcases hallowed with ⟨b,hheld,-,id',hc',hk⟩ | ⟨-,habs⟩
  · obtain rfl : id = id' := Option.some.inj (hc.symm.trans hc')
    exact hnew id (hk.holds hf.reachable hj')
  · rw [hv,World.secrets_put,hm.secrets_of_absent href habs] at hmem
    obtain rfl : s = ⟨v,s'.data⟩ := by simpa using hmem
    exact hnew id hh

theorem known_step (hf : Foundation c) (hm : Matched c) (hs : (system lib site).Step c d)
    (hu : Steady site c d) : ∀ h p ref data, d.job = some (h,p) →
      ref.name = geaCredentialsSecretName → (view h).secrets ref = some data →
        ∃ s, some s ∈ (worldOf d).secrets ref ∧ s.data = data := by
  intro h p ref data hj href hv
  -- The states of a Secret are never forgotten.
  have hlater : ∀ s, some s ∈ (worldOf c).secrets ref → some s ∈ (worldOf d).secrets ref := by
    intro s hmem
    rcases secrets_step hf.ran hs hu with hsame | ⟨s',hw⟩
    · rw [hsame ref href]
      exact hmem
    · obtain ⟨v,hv⟩ := hw.secrets
      rw [hv]
      by_cases he : ref = s'.namespacedName
      · subst he
        rw [World.secrets_put]
        exact List.mem_cons_of_mem _ hmem
      · rw [World.secrets_put_of_ne _ _ he]
        exact hmem
  have hold : ∀ {h p}, c.job = some (h,p) → (view h).secrets ref = some data →
      ∃ s, some s ∈ (worldOf d).secrets ref ∧ s.data = data := by
    intro h p hj hv
    obtain ⟨s,hmem,hdata⟩ := hm.known h p ref data hj href hv
    exact ⟨s,hlater s hmem,hdata⟩
  cases hs with
  | user | others => exact hold hj hv
  | start =>
    cases hj
    cases hv
  | own =>
    cases hj
    rcases secrets_cons hv with hshown | hv
    · cases hshown
    · exact hold rfl hv
  | outside ha =>
    cases hj
    rcases secrets_cons hv with hshown | hv
    · exact hshown.stored ha
    · exact hold rfl hv
  | finish | crash => cases hj

end Matched

theorem matched (hc : (system lib site).ReachableBy (Undisturbed site) c) : Matched c := by
  refine System.ReachableBy.invariant (fun c hc => foundation hc) ?_ ?_ hc
  · intro w hw
    have hempty : ∀ ref, w.secrets ref = [] := hw.secrets
    refine ⟨?_,?_,?_,?_,?_,?_,?_⟩
    · intro ref _
      simp [worldOf,hempty]
    · intro ref s id _ hmem
      simp [worldOf,hempty] at hmem
    · intro o ho
      cases ho
    · intro h p o id hj
      cases hj
    · intro h p b id hj
      cases hj
    · intro h p id ref s hj
      cases hj
    · intro h p ref data hj
      cases hj
  · intro c d hf hm hs hu
    exact ⟨hm.full_step hf hs hu.toSteady,hm.stored_step hf hs hu.toSteady,
      hm.persisted_step hf hs hu.toSteady,hm.agrees_step hf hs hu,hm.settled_step hf hs,
      hm.current_step hf hs hu.toSteady,hm.known_step hf hs hu.toSteady⟩

/-- As long as no sync meets a bootstrapped object whose device others have deleted, an active
status names the device that the credentials are for. -/
theorem credentials_follow_device (lib : Externals) (site : Site) (c : Config (system lib site))
    (hc : (system lib site).ReachableBy (Undisturbed site) c) (o : LosantSync)
    (ho : c.server.current = some o) (ha : o.status.phase = .active) :
    HasCredentials (worldOf c) (credentialsRef o) o.status.clusterDeviceID := by
  have hhonest := honestStatus (traced_telling rfl hc.reachable) (Server.mem_of_current ho)
  exact (matched hc).persisted o ho (hhonest.active ha).1

/-! ## Runs -/

def tokenRef : NamespacedName := ⟨"default","losant"⟩

/-- The step is no act of others, unless it writes the token or takes a device, and no object
leaves the site or its namespace. -/
def steady (c d : Config (system .plain edgeSite)) : Bool :=
  sameSite c d &&
  (decide (c.job.map (·.1.length) ≠ d.job.map (·.1.length)) ||
    decide (c.server.log.length ≠ d.server.log.length) ||
    decide ((worldOf c).devices.taken.length ≠ (worldOf d).devices.taken.length) ||
    decide (((worldOf c).secrets tokenRef).length ≠ ((worldOf d).secrets tokenRef).length)) &&
  c.server.current.all fun o => d.server.current.all fun o' =>
    o'.spec.provisioningSecretRef.namespace_ = o.spec.provisioningSecretRef.namespace_

theorem steady_of_test (c d : Config (system .plain edgeSite))
    (hs : (system .plain edgeSite).Step c d) (h : steady c d = true) : Steady edgeSite c d := by
  simp only [steady,Bool.and_eq_true,Bool.or_eq_true,decide_eq_true_eq] at h
  obtain ⟨⟨hsite,hact⟩,hns⟩ := h
  refine ⟨sameSite_of_test c d hsite,?_,?_⟩
  · intro ref href
    cases hs with
    | others ha =>
      cases ha with
      | devices => exact .inl rfl
      | secret ref' s =>
        have htoken : ref' = tokenRef := by
          by_contra hne
          simp [worldOf,World.put,Ne.symm hne] at hact
        subst htoken
        refine .inl (World.secrets_put_of_ne _ _ ?_)
        rintro rfl
        exact absurd href (by decide)
    | @outside s w w' past h e next r ha => exact .inr ⟨h,e,r,next,rfl,rfl⟩
    | user | start | own | finish | crash => exact .inl rfl
  · intro o o' ho ho' _ _
    rw [ho,ho'] at hns
    simp only [credentialsRef,of_decide_eq_true hns]

/-- The same, with no device taken. -/
def undisturbed (c d : Config (system .plain edgeSite)) : Bool :=
  steady c d && decide ((worldOf d).devices.taken = [])

theorem undisturbed_of_test (c d : Config (system .plain edgeSite))
    (hs : (system .plain edgeSite).Step c d) (h : undisturbed c d = true) :
    Undisturbed edgeSite c d := by
  obtain ⟨hsteady,htaken⟩ := (Bool.and_eq_true _ _).mp h
  refine ⟨steady_of_test c d hs hsteady,?_⟩
  intro h lc spec r o _ _ _
  rw [of_decide_eq_true htaken]
  exact List.not_mem_nil

/-- The three jobs of `activate` store credentials for the device that the status names. -/
theorem credentials_follow_device_active : ∃ c : Config (system .plain edgeSite),
    (system .plain edgeSite).ReachableBy (Undisturbed edgeSite) c ∧
    ∃ o, c.server.current = some o ∧ o.status.phase = .active ∧
      HasCredentials (worldOf c) (credentialsRef o) o.status.clusterDeviceID := by
  obtain ⟨c,hc,hp⟩ := System.exists_tested undisturbed start_emptyWorld (activate .plain)
    (fun c => c.server.current.any fun o => o.status.phase = .active) (by decide +kernel)
  obtain ⟨o,ho,hp⟩ := (Option.any_eq_true _ _).mp hp
  have hphase := of_decide_eq_true hp
  have hc := hc.mono_step undisturbed_of_test
  exact ⟨c,hc,o,ho,hphase,credentials_follow_device .plain edgeSite c hc o ho hphase⟩

/-- Others delete a device. -/
def takeDevice (lib : Externals) (site : Site) (id : String) (k : Losant.Place) :
    (system lib site).Act :=
  .others (fun w : World =>
      if (id,k) ∈ w.devices.entries ∧ id ∉ w.devices.removed then
        some { w with devices := w.devices.take id }
      else none) (by
    intro w w' h
    split at h
    · rename_i hp
      cases h
      exact .devices (.take hp)
    · cases h)

/-- After the cluster device was deleted in Losant the next sync makes a new one and is active, and
the Secret still names the old one. -/
theorem stale_credentials : ∃ c : Config (system .plain edgeSite),
    (system .plain edgeSite).ReachableBy (Steady edgeSite) c ∧
    ∃ o, c.server.current = some o ∧ o.status.phase = .active ∧
      ¬HasCredentials (worldOf c) (credentialsRef o) o.status.clusterDeviceID := by
  obtain ⟨c,hc,hp⟩ := System.exists_tested steady start_emptyWorld
    (activate .plain ++ [takeDevice .plain edgeSite "device-0" (edgeSite.place .cluster),
      job .plain edgeSite (400*second)])
    (fun c => c.server.current.any fun o => o.status.phase = .active ∧
      ((worldOf c).secret (credentialsRef o)).all fun s =>
        ¬Holds s.data o.status.clusterDeviceID) (by decide +kernel)
  obtain ⟨o,ho,hp⟩ := (Option.any_eq_true _ _).mp hp
  obtain ⟨hphase,hall⟩ := of_decide_eq_true hp
  refine ⟨c,hc.mono_step steady_of_test,o,ho,hphase,?_⟩
  rintro ⟨s,hs,hh⟩
  rw [hs] at hall
  exact of_decide_eq_true hall hh

end LosantDevice.Sync

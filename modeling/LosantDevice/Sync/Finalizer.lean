import LosantDevice.Sync.Honesty

/-!
# The finalizer

An object for which something was asked of Losant is held by the finalizer, and the finalizer is
removed only by a job that was told, for every device the object records, that it is gone. A job
that fails on the way has written nothing, and the next one starts over.
-/
namespace LosantDevice.Sync
open Effect Kube Go Program

variable {lib : Externals} {σ : System losantSync calls (Except String Result)} {c : Config σ}

/-! ## How an object leaves -/

/-- The calls that make something in Losant. -/
inductive Provisions : interface.Call → Prop
  | cluster {lc spec} : Provisions (.inr (.losant lc (.ensureClusterDevice spec)))
  | node {lc spec n id} : Provisions (.inr (.losant lc (.ensureNodeDevice spec n id)))
  | key {lc app id name} : Provisions (.inr (.losant lc (.createDeviceAccessKey app id name)))

theorem Permits.held {h : Past} {e : interface.Call} (hp : Permits h e) (he : Provisions e) :
    ∃ b, Held h b := by
  cases he with
  | cluster | node | key =>
    obtain ⟨-,b,hb,-⟩ := hp
    exact ⟨b,hb⟩

/-- Nobody else adds finalizers. -/
theorem finalizers_cases (hc : c.Traced Permits) {o : LosantSync} {l : List (Option LosantSync)}
    (hl : some o::l <:+ c.server.log) :
    o.metadata.finalizers = [] ∨ o.metadata.finalizers = [finalizer] := by
  induction l generalizing o with
  | nil =>
    cases hc.origin hl with
    | created _ hb => exact .inl hb.1
  | cons x l ih =>
    have hbefore := (List.suffix_cons _ _).trans hl
    cases hc.origin hl with
    | created _ hb => exact .inl hb.1
    | user _ _ hf _ =>
      rw [hf]
      exact ih hbefore
    | status _ _ _ hmeta _ _ =>
      have hf := congrArg Metadata.finalizers hmeta
      change _ = _ ∨ _ = _
      simp only [Object.stored]
      rw [hf]
      exact ih hbefore
    | @object a b _ h k v _ hm he hcopy hg hk =>
      have hfin : o.metadata.finalizers = a.metadata.finalizers := by rw [hk o rfl]
      rw [hfin]
      obtain ⟨-,b',hb',⟨-,hnot,rfl⟩ | ⟨-,-,rfl⟩⟩ := hc.allowed hm he
      · obtain rfl := Option.some.inj (hcopy.symm.trans hb')
        rcases ih hbefore with hb | hb
        · exact .inr (by simp [hb])
        · exact absurd (by simp [hb]) hnot
      · obtain rfl := Option.some.inj (hcopy.symm.trans hb')
        rcases ih hbefore with hb | hb
        · exact .inl (by simp [hb])
        · exact .inl (by simp [hb])

/-- The finalizer stays as long as the object does. -/
theorem finalizer_step (hc : c.Traced Permits) {o b : LosantSync} {l : List (Option LosantSync)}
    (hl : some o::some b::l <:+ c.server.log) (hu : o.metadata.uid = b.metadata.uid)
    (hb : finalizer ∈ b.metadata.finalizers) : finalizer ∈ o.metadata.finalizers := by
  cases hc.origin hl with
  | created hf _ => exact absurd hu.symm (hf b List.mem_cons_self)
  | user _ _ hf _ => rw [hf]; exact hb
  | @status a _ _ _ _ _ _ _ _ hmeta _ _ =>
    change finalizer ∈ a.metadata.finalizers
    rw [hmeta]
    exact hb
  | @object a _ _ h k v _ hm he hcopy hg hk =>
    obtain ⟨-,b',hb',⟨-,hnot,-⟩ | ⟨hdel,-,rfl⟩⟩ := hc.allowed hm he
    · obtain rfl := Option.some.inj (hcopy.symm.trans hb')
      exact absurd hb hnot
    · -- Without the finalizer nothing holds an object that is being deleted.
      obtain rfl := Option.some.inj (hcopy.symm.trans hb')
      have hnone : o.metadata.finalizers = [] := by
        rw [hk o rfl]
        rcases finalizers_cases hc ((List.suffix_cons _ _).trans hl) with hf | hf <;> simp [hf]
      have hsome : o.metadata.deletionTimestamp.isSome := by
        rw [hk o rfl]
        exact hdel.2.1
      exact absurd hnone (hc.server.held (hl.subset List.mem_cons_self) hsome)

/-- The job that took the finalizer off `x` had every device of `x` deleted. -/
def ReleasedBy (h : Past) (x : LosantSync) : Prop :=
  ∃ o v k, ⟨.inl (.update o),.ok v⟩::k <:+ h ∧ lastCopy k = some x ∧
    ∀ id, Recorded x.status id → Deleted k x.spec.applicationID id

theorem released_of_gone (hc : c.Traced Permits) {x : LosantSync} {l : List (Option LosantSync)}
    (hl : none::some x::l <:+ c.server.log) (hx : finalizer ∈ x.metadata.finalizers) :
    ∃ h ∈ c.histories, ReleasedBy h x := by
  cases hc.origin hl with
  | removed hf =>
    rw [hf] at hx
    cases hx
  | @object o _ _ h k v _ hm he hcopy hg hk =>
    obtain ⟨hdel,-⟩ := hg rfl
    obtain ⟨-,b',hb',⟨hlive,-,-⟩ | ⟨-,hall,-⟩⟩ := hc.allowed hm he
    · obtain rfl := Option.some.inj (hcopy.symm.trans hb')
      rw [hlive] at hdel
      cases hdel
    · obtain rfl := Option.some.inj (hcopy.symm.trans hb')
      exact ⟨h,hm,o,v,k,he,hcopy,hall⟩

theorem released_of_provisioned (hc : c.Traced Permits) {h k : Past} {ev : Event interface}
    {b x : LosantSync}
    {l : List (Option LosantSync)} (hh : h ∈ c.histories) (hev : ev::k <:+ h)
    (hprov : Provisions ev.call) (hb : lastCopy k = some b)
    (hl : none::some x::l <:+ c.server.log) (hu : b.metadata.uid = x.metadata.uid) :
    ∃ h ∈ c.histories, ReleasedBy h x := by
  refine released_of_gone hc hl ?_
  obtain ⟨b',hheld⟩ := (hc.allowed hh hev).held hprov
  obtain rfl := Option.some.inj (hb.symm.trans hheld.1)
  obtain ⟨m,hm⟩ := hc.copies hh ((List.suffix_cons _ _).trans hev) hb
  rcases List.suffix_cons_iff.mp (hc.server.before_gone hl hm hu) with heq | hsuf
  · obtain rfl := Option.some.inj (List.cons.inj heq).1
    exact hheld.2.2
  · exact hc.inherits (P := fun o => finalizer ∈ o.metadata.finalizers)
      (fun hl hu hf => finalizer_step hc hl hu hf) ((List.suffix_cons _ _).trans hl)
      (hsuf.subset List.mem_cons_self) hu hheld.2.2

/-! ## A job that fails on the way -/

/-- A call that returned an error. -/
inductive Failed : Event interface → Prop
  | get {err} : Failed ⟨.inl .get,.error err⟩
  | update {o err} : Failed ⟨.inl (.update o),.error err⟩
  | updateStatus {o err} : Failed ⟨.inl (.updateStatus o),.error err⟩
  | secret {ref err} : Failed ⟨.inr (.getSecret ref),.error err⟩
  | delete {lc app id err} : Failed ⟨.inr (.losant lc (.deleteDevice app id)),.error err⟩

/-- A write of the object that was accepted. -/
inductive Accepted : Event interface → Prop
  | update {o v} : Accepted ⟨.inl (.update o),.ok v⟩
  | updateStatus {o v} : Accepted ⟨.inl (.updateStatus o),.ok v⟩

/-- The job works on `b`, nothing has failed so far and nothing was written. -/
def Clean (b : LosantSync) (h : Past) : Prop :=
  lastCopy h = some b ∧ ∀ e ∈ h, ¬Failed e ∧ ¬Accepted e

theorem Clean.outside {b : LosantSync} {h : Past} {e : Call} {r : calls.Answer e}
    (hh : Clean b h) (hf : ¬Failed ⟨.inr e,r⟩) : Clean b (⟨.inr e,r⟩::h) := by
  refine ⟨hh.1,fun e' he' => ?_⟩
  rcases List.mem_cons.mp he' with rfl | he'
  · exact ⟨hf,by rintro ⟨⟩⟩
  · exact hh.2 e' he'

/-- A job on an object that is being deleted either ends with an error and has written nothing,
or ends with the removal of the finalizer, and then nothing has failed. -/
def Ends (b : LosantSync) (h : Past) (r : Except String Result) : Prop :=
  (∃ err, r = .error err) ∧ (∀ e ∈ h, ¬Accepted e) ∨
    r = .ok {} ∧ (∀ e ∈ h, ¬Failed e) ∧
      ∃ o v k, h = ⟨.inl (.update o),.ok v⟩::k ∧ lastCopy k = some b

abbrev Finishes (b : LosantSync) (h : Past) (p : M (Except String Result)) : Prop :=
  Obeys (fun _ _ => True) (Ends b) h p

theorem ends_error {b : LosantSync} {h : Past} (hh : ∀ e ∈ h, ¬Accepted e) (err : String) :
    Ends b h (.error err) := .inl ⟨⟨err,rfl⟩,hh⟩

theorem Clean.not_accepted {b : LosantSync} {h : Past} {e : Event interface} (hh : Clean b h)
    (he : ¬Accepted e) : ∀ e' ∈ e::h, ¬Accepted e' := by
  intro e' he'
  rcases List.mem_cons.mp he' with rfl | he'
  · exact he
  · exact (hh.2 e' he').2

theorem removeFinalizer_finishes {b : LosantSync} {h : Past} (hh : Clean b h) :
    Finishes b h (removeFinalizer b) := by
  refine ⟨trivial,?_⟩
  rintro (err | v)
  · exact ends_error (hh.not_accepted (by rintro ⟨⟩)) _
  · refine .inr ⟨rfl,fun e he => ?_,_,v,h,rfl,hh.1⟩
    rcases List.mem_cons.mp he with rfl | he
    · nofun
    · exact (hh.2 e he).1

theorem deleteDevices_finishes (lc : Losant.HTTPClient) (app : String) {b : LosantSync} {h : Past}
    (hh : Clean b h) (l : List (Sigma fun _ : String => String)) :
    Obeys (fun _ _ => True) (fun h' r => (∀ e ∈ h', ¬Accepted e) ∧ (r = .ok () → Clean b h')) h
      (deleteDevices lc app l) := by
  induction l generalizing h with
  | nil => exact ⟨fun e he => (hh.2 e he).2,fun _ => hh⟩
  | cons p rest ih =>
    refine ⟨trivial,?_⟩
    rintro (err | ⟨⟩)
    · exact ⟨hh.not_accepted (by rintro ⟨⟩),nofun⟩
    · exact ih (hh.outside (by rintro ⟨⟩))

theorem deleteClusterDevice_finishes (lc : Losant.HTTPClient) {b : LosantSync} {h : Past}
    (hh : Clean b h) : Finishes b h (deleteClusterDevice lc b) := by
  unfold deleteClusterDevice
  split
  · refine ⟨trivial,?_⟩
    rintro (err | ⟨⟩)
    · exact ends_error (hh.not_accepted (by rintro ⟨⟩)) _
    · exact removeFinalizer_finishes (hh.outside (by rintro ⟨⟩))
  · exact removeFinalizer_finishes hh

theorem handleDeletion_finishes {b : LosantSync} {h : Past} (hh : Clean b h)
    (hf : finalizer ∈ b.metadata.finalizers) : Finishes b h (handleDeletion b) := by
  unfold handleDeletion
  rw [if_neg (not_not.mpr hf)]
  have hread : ∀ s,
      Clean b (⟨.inr (.getSecret b.spec.provisioningSecretRef.namespacedName),.ok s⟩::h) :=
    fun s => hh.outside (by rintro ⟨⟩)
  refine obeys_client trivial (fun err => ?_) (fun s err _ => ?_) (fun s lc _ => ?_)
  · exact ends_error (hh.not_accepted (by rintro ⟨⟩)) _
  · exact ends_error (fun e he => ((hread s).2 e he).2) _
  · refine ⟨trivial,fun (order : b.status.nodeDevices.Order) => ?_⟩
    refine (deleteDevices_finishes lc _ ((hread s).outside (by rintro ⟨⟩)) order.val).bind ?_
    rintro h' (err | ⟨⟩) ⟨hacc,hclean⟩
    · exact ends_error hacc _
    · exact deleteClusterDevice_finishes lc (hclean rfl)

/-- The two ways in which a job on an object that is being deleted can end. -/
theorem deletion_ends (lib : Externals) (s : Strategy interface) {b : LosantSync}
    (hread : s [] (.inl .get) = .ok b) (hdel : b.metadata.deletionTimestamp.isSome)
    (hf : finalizer ∈ b.metadata.finalizers) :
    (∃ err, (run s [] (reconcile lib)).2 = .error err) ∧
        (∀ e ∈ (run s [] (reconcile lib)).1, ¬Accepted e) ∨
      (run s [] (reconcile lib)).2 = .ok {} ∧ (∀ e ∈ (run s [] (reconcile lib)).1, ¬Failed e) ∧
        ReleasedBy (run s [] (reconcile lib)).1 b := by
  rw [run_reconcile lib s hread]
  have hclean : Clean b [⟨.inl .get,.ok b⟩] := by
    refine ⟨rfl,fun e he => ?_⟩
    rw [List.mem_singleton.mp he]
    exact ⟨by rintro ⟨⟩,by rintro ⟨⟩⟩
  have hends : Finishes b [⟨.inl .get,.ok b⟩] (reconcileObject lib b) := by
    unfold reconcileObject
    rw [if_pos hdel]
    exact handleDeletion_finishes hclean hf
  rcases hends.ends s with herr | ⟨hok,hnone,o,v,k,hh,hcopy⟩
  · exact .inl herr
  · have hlen : 1 ≤ k.length := by
      cases k with
      | nil => cases hcopy
      | cons e k => simp
    have hsuf : ⟨.inl (.update o),.ok v⟩::k <:+
        (run s [⟨.inl .get,.ok b⟩] (reconcileObject lib b)).1 := hh ▸ List.suffix_refl _
    have hpermit : Permits k (.inl (.update o)) := (reconcileObject_good lib b).calls s hsuf hlen
    obtain ⟨-,b',hb',⟨hlive,-,-⟩ | ⟨-,hall,-⟩⟩ := hpermit
    · obtain rfl := Option.some.inj (hcopy.symm.trans hb')
      rw [hlive] at hdel
      cases hdel
    · obtain rfl := Option.some.inj (hcopy.symm.trans hb')
      exact .inr ⟨hok,hnone,o,v,k,hsuf,hcopy,hall⟩

/-! ## A job in which everything succeeds -/

/-- No call is refused, the Secret has a token, and Losant answers a deletion with success or
says that there is no such device. -/
structure Cooperates (env : Env losantSync calls) : Prop where
  refuse : ∀ h, env.refuse h = none
  secret : ∀ h ref, ∃ (s : StoredSecret) (token : String),
    env.answer h (.getSecret ref) = .ok s ∧ s.data.lookup "api-token" = some token
  delete : ∀ h (lc : Losant.HTTPClient) app id,
    ∃ (s : Strategy Losant.http) (status : ℕ) (body : String) (decoded : Except String Unit),
      s [] (lc.token,.deleteDevice app id) = .response status body decoded ∧
      (status < 400 ∨ status = 404) ∧
      env.answer h (.losant lc (.deleteDevice app id)) = (run s [] (lc.deleteDevice app id)).2

/-- The run of `p` goes on as the run of `q`, with no call on the object in between. -/
def LeadsTo (s : Strategy interface) (h : Past) (p q : M (Except String Result)) : Prop :=
  ∃ k, (∀ e ∈ k, e.call.isRight = true) ∧ run s h p = run s (k ++ h) q

theorem LeadsTo.refl {s : Strategy interface} {h : Past} {p : M (Except String Result)} :
    LeadsTo s h p p := ⟨[],by simp,rfl⟩

/-- One more call to the outside in front. -/
theorem LeadsTo.call {s : Strategy interface} {h : Past} {e : Call}
    {next : interface.Answer (.inr e) → M (Except String Result)} {q : M (Except String Result)}
    (hn : LeadsTo s (⟨.inr e,s h (.inr e)⟩::h) (next (s h (.inr e))) q) :
    LeadsTo s h (Program.call (I := interface) (.inr e) next) q := by
  obtain ⟨k,hk,hrun⟩ := hn
  refine ⟨k ++ [⟨.inr e,s h (.inr e)⟩],?_,?_⟩
  · intro e' he'
    rcases List.mem_append.mp he' with he' | he'
    · exact hk e' he'
    · rw [List.mem_singleton.mp he']
      rfl
  · rw [List.append_assoc]
    exact hrun

theorem deleteDevices_leadsTo {s : Strategy interface} {lc : Losant.HTTPClient} {app : String}
    (hs : ∀ h id, s h (.inr (.losant lc (.deleteDevice app id))) = .ok ())
    {f : Except Losant.Error Unit → M (Except String Result)} {q : M (Except String Result)}
    (hq : ∀ h, LeadsTo s h (f (.ok ())) q) (l : List (Sigma fun _ : String => String)) (h : Past) :
    LeadsTo s h (deleteDevices lc app l >>= f) q := by
  induction l generalizing h with
  | nil => exact hq h
  | cons p rest ih =>
    obtain ⟨n,id⟩ := p
    refine LeadsTo.call (e := .losant lc (.deleteDevice app id)) ?_
    rw [hs]
    exact ih _

theorem handleDeletion_leadsTo {s : Strategy interface} {b : LosantSync} {h : Past}
    (hf : finalizer ∈ b.metadata.finalizers) {secret : StoredSecret} {token : String}
    (hsecret : s h (.inr (.getSecret b.spec.provisioningSecretRef.namespacedName)) = .ok secret)
    (htoken : secret.data.lookup "api-token" = some token)
    (hs : ∀ h lc app id, s h (.inr (.losant lc (.deleteDevice app id))) = .ok ()) :
    LeadsTo s h (handleDeletion b) (removeFinalizer b) := by
  unfold handleDeletion
  rw [if_neg (not_not.mpr hf)]
  refine LeadsTo.call (e := .getSecret b.spec.provisioningSecretRef.namespacedName) ?_
  rw [hsecret]
  have hclient : Losant.newHTTPClient
      { toStoredSecret := secret
        namespace_ := b.spec.provisioningSecretRef.namespacedName.namespace_
        name := b.spec.provisioningSecretRef.namespacedName.name } b.spec.applicationID =
      .ok ⟨token,b.spec.applicationID⟩ := by
    simp only [Losant.newHTTPClient,htoken]
  simp only [Program.bind,Pure.pure,hclient]
  refine LeadsTo.call (e := .rangeDevices b.status.nodeDevices) ?_
  refine deleteDevices_leadsTo (hs · _ _) (fun h' => ?_) _ _
  change LeadsTo s h' (deleteClusterDevice _ b) _
  unfold deleteClusterDevice
  split
  · refine LeadsTo.call (e := .losant ⟨token,b.spec.applicationID⟩
      (.deleteDevice b.spec.applicationID b.status.clusterDeviceID)) ?_
    rw [hs]
    exact LeadsTo.refl
  · exact LeadsTo.refl

/-- The object without the finalizer. -/
def withoutFinalizer (b : LosantSync) : LosantSync :=
  { b with metadata := { b.metadata with
    finalizers := b.metadata.finalizers.filter (· ≠ finalizer) } }

theorem run_removeFinalizer {s : Strategy interface} {h : Past} {b : LosantSync} {v : ℕ}
    (hs : s h (.inl (.update (withoutFinalizer b))) = .ok v) :
    run s h (removeFinalizer b) = (⟨.inl (.update (withoutFinalizer b)),.ok v⟩::h,.ok {}) := by
  unfold removeFinalizer update
  exact run_answer (I := interface) hs

theorem completes (lib : Externals) {env : Env losantSync calls} (henv : Cooperates env)
    {s : Server losantSync} {b : LosantSync} (hb : s.current = some b)
    (hdel : b.metadata.deletionTimestamp.isSome) (hfin : b.metadata.finalizers = [finalizer]) :
    (run (env.strategy s) [] (reconcile lib)).2 = .ok {} ∧
      (env.server s (run (env.strategy s) [] (reconcile lib)).1).current = none := by
  have hread : env.strategy s [] (.inl .get) = .ok b := by
    change (s.reply (X := calls) (env.refuse []) .get).1 = _
    rw [henv.refuse]
    change s.read.1 = _
    rw [Server.read,hb]
  have hdelete : ∀ h lc app id,
      env.strategy s h (.inr (.losant lc (.deleteDevice app id))) = .ok () := by
    intro h lc app id
    obtain ⟨s',status,body,decoded,hreply,hstatus,hans⟩ := henv.delete h lc app id
    exact hans.trans (Losant.deleteDevice_gone lc app id s' [] hreply hstatus)
  obtain ⟨secret,token,hsecret,htoken⟩ :=
    henv.secret [⟨.inl .get,.ok b⟩] b.spec.provisioningSecretRef.namespacedName
  obtain ⟨k,hk,hrun⟩ := handleDeletion_leadsTo (s := env.strategy s) (h := [⟨.inl .get,.ok b⟩])
    (b := b) (by simp [hfin]) hsecret htoken hdelete
  have hall : run (env.strategy s) [] (reconcile lib) =
      run (env.strategy s) (k ++ [⟨.inl .get,.ok b⟩]) (removeFinalizer b) := by
    rw [run_reconcile lib _ hread,reconcileObject,if_pos hdel]
    exact hrun
  -- The only write meets the object as it was read.
  have hserver : env.server s (k ++ [⟨.inl .get,.ok b⟩]) = s.read.2 := by
    rw [env.server_append s hk]
    change (s.reply (X := calls) (env.refuse []) .get).2 = _
    rw [henv.refuse]
    rfl
  have hupdate :
    s.read.2.update (withoutFinalizer b) = some (s.read.2.push none,s.read.2.log.length+1) :=
    Server.update_release (s.current_read.trans hb) hdel (by simp [hfin]) rfl
      (by simp [withoutFinalizer,hfin])
  have hreply : (env.server s (k ++ [⟨.inl .get,.ok b⟩])).reply (X := calls)
      (env.refuse (k ++ [⟨.inl .get,.ok b⟩])) (.update (withoutFinalizer b)) =
      (.ok (s.read.2.log.length+1),s.read.2.push none) := by
    rw [hserver,henv.refuse]
    change s.read.2.wrote (s.read.2.update _) = _
    rw [hupdate]
    rfl
  rw [hall,run_removeFinalizer (congrArg Prod.fst hreply)]
  refine ⟨rfl,?_⟩
  change (Server.reply (X := calls) _ _ _).2.current = none
  rw [hreply]
  rfl

/-- Whoever interferes and whatever fails: an object for which something was asked of Losant
leaves only after its devices; a job that fails on the way has written nothing; and a later job in
which all calls succeed gets to the end. -/
theorem finalizer_protocol (lib : Externals) :
    (∀ (σ : System losantSync calls (Except String Result)) (c : Config σ),
      σ.main = reconcile lib → σ.Reachable c → ∀ h ∈ c.histories, ∀ ev k b x l,
        ev::k <:+ h → Provisions ev.call → lastCopy k = some b →
        none::some x::l <:+ c.server.log → b.metadata.uid = x.metadata.uid →
        ∃ h' ∈ c.histories, ReleasedBy h' x) ∧
    (∀ (s : Strategy interface) (b : LosantSync), s [] (.inl .get) = .ok b →
      b.metadata.deletionTimestamp.isSome → finalizer ∈ b.metadata.finalizers →
        (∃ err, (run s [] (reconcile lib)).2 = .error err) ∧
            (∀ e ∈ (run s [] (reconcile lib)).1, ¬Accepted e) ∨
          (run s [] (reconcile lib)).2 = .ok {} ∧
            (∀ e ∈ (run s [] (reconcile lib)).1, ¬Failed e) ∧
            ReleasedBy (run s [] (reconcile lib)).1 b) ∧
    (∀ (σ : System losantSync calls (Except String Result)) (c : Config σ),
      σ.main = reconcile lib → σ.Reachable c → ∀ b, c.server.current = some b →
        b.metadata.deletionTimestamp.isSome → ∀ env, Cooperates env →
        (run (env.strategy c.server) [] (reconcile lib)).2 = .ok {} ∧
          (env.server c.server (run (env.strategy c.server) [] (reconcile lib)).1).current =
            none) := by
  refine ⟨?_,fun s b hread hdel hf => deletion_ends lib s hread hdel hf,?_⟩
  · intro σ c hmain hc h hh ev k b x l hev hprov hb hl hu
    exact released_of_provisioned (traced hmain hc) hh hev hprov hb hl hu
  · intro σ c hmain hc b hb hdel env henv
    have ht := traced hmain hc
    obtain ⟨l,hl⟩ := Server.current_eq_some.mp hb
    -- What holds an object that is being deleted can only be the finalizer.
    have hsuf : some b::l <:+ c.server.log := by rw [hl]
    have hfin : b.metadata.finalizers = [finalizer] :=
      (finalizers_cases ht hsuf).resolve_left
        (ht.server.held (Server.mem_of_current hb) hdel)
    exact completes lib henv hb hdel hfin

/-! ## A run that ends with the deletion -/

/-- The object is gone, and a job on it had asked for its cluster device. -/
def provisionedAndGone (c : Config (anyAnswers .plain)) : Bool :=
  match c.server.log with
  | none::some x::_ => c.histories.any fun h => h.tails.any fun
    | ⟨.inr (.losant _ (.ensureClusterDevice _)),_⟩::k =>
      (lastCopy k).any (·.metadata.uid = x.metadata.uid)
    | _ => false
  | _ => false

/-- Losant knows none of the devices any more. -/
noncomputable def allGone : Env losantSync calls where
  refuse _ := none
  answer _
    | .getSecret _ => .ok { data := (∅ : GoMap String).insert "api-token" "token" }
    | .losant _ (.deleteDevice _ _) => .ok ()
    | e => Classical.choice (nonempty_answer (.inr e))

theorem allGone_cooperates : Cooperates allGone where
  refuse _ := rfl
  secret _ _ := ⟨_,"token",rfl,rfl⟩
  delete _ lc app id := by
    refine ⟨fun _ _ => .response 404 "" (.error ""),404,"",.error "",rfl,.inr rfl,?_⟩
    exact (Losant.deleteDevice_gone lc app id _ [] rfl (.inr rfl)).symm

/-- A synced object that is deleted by a user leaves with its devices, and would have left had
Losant already lost them. -/
theorem finalizer_protocol_deleted :
    (∃ c, (anyAnswers .plain).Reachable c ∧ ∃ x l, none::some x::l <:+ c.server.log ∧
      ∃ h ∈ c.histories, ReleasedBy h x) ∧
    ∃ c b, (anyAnswers .plain).Reachable c ∧ c.server.current = some b ∧
      b.metadata.deletionTimestamp.isSome ∧
      (allGone.server c.server (run (allGone.strategy c.server) [] (reconcile .plain)).1).current =
        none := by
  constructor
  · obtain ⟨c,hc,hp⟩ := System.exists_config (σ := anyAnswers .plain) (w := ()) trivial
      [.create newSync,smoothJob .plain,smoothJob .plain,smoothJob .plain,.markDeleted 0,
        smoothJob .plain]
      provisionedAndGone rfl
    unfold provisionedAndGone at hp
    split at hp
    · rename_i x l hlog
      obtain ⟨h,hh,hp⟩ := List.any_eq_true.mp hp
      obtain ⟨t,ht,hp⟩ := List.any_eq_true.mp hp
      split at hp
      · rename_i lc spec r k
        cases hb : lastCopy k with
        | none =>
          rw [hb] at hp
          cases hp
        | some b =>
          rw [hb] at hp
          have hl : none::some x::l <:+ c.server.log := by rw [hlog]
          exact ⟨c,hc,x,l,hl,(finalizer_protocol .plain).1 _ c rfl hc h hh _ k b x l
            ((List.mem_tails _ _).mp ht) .cluster hb hl (of_decide_eq_true hp)⟩
      · cases hp
    · cases hp
  · obtain ⟨c,b,hc,hb,hp⟩ := System.exists_reachable (σ := anyAnswers .plain) (w := ()) trivial
      [.create newSync,smoothJob .plain,smoothJob .plain,smoothJob .plain,.markDeleted 0]
      (fun _ b => b.metadata.deletionTimestamp.isSome) rfl
    exact ⟨c,b,hc,hb,hp,
      ((finalizer_protocol .plain).2.2 _ c rfl hc b hb hp allGone allGone_cooperates).2⟩

end LosantDevice.Sync

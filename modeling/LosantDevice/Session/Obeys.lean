import LosantDevice.Session.Trace

/-!
# `Reconcile` makes only permitted calls

The proof follows the handlers of the source from the last step of each to its first.
-/
namespace LosantDevice.Session
open Effect Kube Go Program

variable {lib : Externals} {c : Rancher.HTTPClient} {h : Past} {b rs : RancherSession} {α : Type}
  {Ψ : Past → α → Prop}

abbrev Good (lib : Externals) (h : Past) (p : M (Except String Result)) : Prop :=
  Obeys (Permits lib) Returns h p

/-! ## Events that say nothing -/

/-- The event changes neither the copy nor the view. -/
structure Quiet (ev : Event interface) (h : Past) : Prop where
  copy : lastCopy (ev::h) = lastCopy h
  owned : owned (ev::h) = owned h
  view : view (ev::h) = view h

variable {x : Event interface}

theorem Reading.quiet (hr : Reading h b) (hq : Quiet x h) : Reading (x::h) b :=
  ⟨hq.copy.trans hr.copy,hq.owned.trans hr.fresh,hq.view.trans hr.view⟩

/-- While a job connects it may find a cluster. -/
theorem Connecting.later (hc : Connecting h b) (hcopy : lastCopy (x::h) = lastCopy h)
    (howned : Kube.owned (x::h) = Kube.owned h) (hwiped : (view (x::h)).wiped = (view h).wiped)
    (hfailed : (view (x::h)).failed = (view h).failed) : Connecting (x::h) b where
  copy := hcopy.trans hc.copy
  owned := howned.trans hc.owned
  live := hc.live
  phase := hc.phase
  start := by
    obtain ⟨k,b₀,hk,hb₀⟩ := hc.start
    exact ⟨k,b₀,hk.trans (List.suffix_cons _ _),hb₀⟩
  clean := ⟨hwiped.trans hc.clean.1,hfailed.trans hc.clean.2⟩

theorem Connecting.quiet (hc : Connecting h b) (hq : Quiet x h) : Connecting (x::h) b :=
  hc.later hq.copy hq.owned (by rw [hq.view]) (by rw [hq.view])

/-- While a job cleans up, deletions work or fail. -/
theorem Cleaning.later (hc : Cleaning h b) (hcopy : lastCopy (x::h) = lastCopy h)
    (howned : Kube.owned (x::h) = Kube.owned h)
    (hadopted : (view (x::h)).adopted = (view h).adopted)
    (hunsaved : (view (x::h)).unsaved = (view h).unsaved) : Cleaning (x::h) b :=
  ⟨hcopy.trans hc.copy,howned.trans hc.owned,hc.held,hc.phase,hadopted.trans hc.adopted.1,
    hunsaved.trans hc.adopted.2⟩

theorem Cleaning.quiet (hc : Cleaning h b) (hq : Quiet x h) : Cleaning (x::h) b :=
  hc.later hq.copy hq.owned (by rw [hq.view]) (by rw [hq.view])

theorem Trouble.cons (ht : Trouble h) : Trouble (x::h) := by
  obtain ⟨x',k,hk,hs⟩ := ht
  exact ⟨x',k,hk.trans (List.suffix_cons _ _),hs⟩

theorem Cause.quiet (hc : Cause lib h b) (hq : Quiet x h) : Cause lib (x::h) b := by
  cases hc with
  | unusable hr hl hs => exact .unusable (hr.quiet hq) hl (hs.later (List.suffix_cons _ _))
  | timedOut hr hl hp he ht hlate =>
    exact .timedOut (hr.quiet hq) hl hp he (List.mem_cons_of_mem _ ht) hlate
  | spoiled hc ha ht => exact .spoiled (hc.quiet hq) (by rw [hq.view]; exact ha) ht.cons

/-! ## Status writes -/

/-- Whatever becomes of a status write, nothing is left unsaved without a trace. -/
theorem returns_updateStatus (o : RancherSession) (r : Except ApiError ℕ)
    (x : Except String Result) : Returns (⟨.inl (.updateStatus o),r⟩::h) x := by
  cases r with
  | ok v => exact .inl rfl
  | error err =>
    change (view h).unsaved = none ∨ ((view h).lost || (view h).unsaved.isSome) = true
    cases (view h).unsaved with
    | none => exact .inl rfl
    | some id => exact .inr (by simp)

/-- The object in memory differs from the copy only in its status. -/
structure Mem (b rs : RancherSession) : Prop where
  metadata : rs.metadata = b.metadata
  spec : rs.spec = b.spec

theorem Kept.quiet {t : RancherSessionStatus} (hk : Kept h b t) (hq : Quiet x h) :
    Kept (x::h) b t := by
  refine ⟨?_,hk.applied,hk.connectedAt,hk.expiresAt⟩
  rw [hq.view]
  exact hk.id

theorem setFailed_good (hm : Mem b rs) (hcopy : lastCopy h = some b) (hcause : Cause lib h b)
    (hk : Kept h b rs.status) (reason message : String) :
    Good lib h (setFailed lib rs reason message) := by
  refine ⟨trivial,fun t => ?_⟩
  have hq : Quiet ⟨.inr (.now .transition),t⟩ h := ⟨rfl,rfl,rfl⟩
  have hk' := hk.quiet hq
  refine ⟨⟨b,hcopy,hm.metadata,hm.spec,.failed (hcause.quiet hq) rfl
    ⟨hk'.id,hk'.applied,hk'.connectedAt,hk'.expiresAt⟩⟩,?_⟩
  rintro (err | v)
  · exact returns_updateStatus _ _ _
  · exact returns_updateStatus _ _ _

/-- Where `setAPIUnreachable` is called. -/
def Interruptible (h : Past) (b : RancherSession) : Prop :=
  Connecting h b ∨ Cleaning h b ∨ Reading h b ∧ Live b ∧ b.status.phase = .connected

theorem Interruptible.quiet (hi : Interruptible h b) (hq : Quiet x h) :
    Interruptible (x::h) b := by
  rcases hi with hc | hc | ⟨hr,hl⟩
  · exact .inl (hc.quiet hq)
  · exact .inr (.inl (hc.quiet hq))
  · exact .inr (.inr ⟨hr.quiet hq,hl⟩)

theorem Interruptible.copy (hi : Interruptible h b) : lastCopy h = some b := by
  rcases hi with hc | hc | ⟨hr,-⟩
  · exact hc.copy
  · exact hc.copy
  · exact hr.copy

theorem setAPIUnreachable_good (hm : Mem b rs) (hi : Interruptible h b)
    (hphase : rs.status.phase = b.status.phase) (hk : Kept h b rs.status)
    (reason message : String) : Good lib h (setAPIUnreachable lib rs reason message) := by
  refine ⟨trivial,fun t => ?_⟩
  have hq : Quiet ⟨.inr (.now .transition),t⟩ h := ⟨rfl,rfl,rfl⟩
  have hk' := hk.quiet hq
  refine ⟨⟨b,hi.copy,hm.metadata,hm.spec,.unreachable (hi.quiet hq) hphase
    ⟨hk'.id,hk'.applied,hk'.connectedAt,hk'.expiresAt⟩⟩,?_⟩
  rintro (err | v)
  · exact returns_updateStatus _ _ _
  · exact returns_updateStatus _ _ _

/-- The copy itself, when nothing was found yet. -/
theorem kept_self (hv : (view h).adopted = none) : Kept h b b.status :=
  ⟨by rw [hv]; rfl,rfl,rfl,rfl⟩

/-! ## Connecting -/

/-- The cluster is known and the job goes on. -/
structure Adopting (h : Past) (b : RancherSession) (id : String) : Prop where
  connecting : Connecting h b
  adopted : (view h).adopted = some id

theorem Adopting.quiet {id : String} (ha : Adopting h b id) (hq : Quiet x h) :
    Adopting (x::h) b id :=
  ⟨ha.connecting.quiet hq,by rw [hq.view]; exact ha.adopted⟩

theorem Adopting.isSome {id : String} (ha : Adopting h b id) : (view h).adopted.isSome := by
  rw [ha.adopted]
  rfl

/-- An answer that spoils the manifest. -/
theorem Adopting.trouble {id : String} (ha : Adopting h b id) (hs : Spoils x) : Trouble (x::h) :=
  ⟨x,h,List.suffix_refl _,ha.isSome,hs⟩

theorem Got.cons {id : String} {m : Manifest} (hg : Got h id m) : Got (x::h) id m := by
  obtain ⟨c,url,ca,status,htoken,hfetch,hlt⟩ := hg
  exact ⟨c,url,ca,status,List.mem_cons_of_mem _ htoken,List.mem_cons_of_mem _ hfetch,hlt⟩

theorem Complete.cons {id : String} (hc : Complete h id) (hx : applies (x::h) = applies h) :
    Complete (x::h) id := by
  obtain ⟨m,hg,hrest,ha⟩ := hc
  exact ⟨m,hg.cons,hrest,hx.trans ha⟩

/-- The job still knows the cluster; an error has left its trace, and without one all of the
manifest is applied. -/
structure Applied (b : RancherSession) (id : String) (h : Past) (r : Except String Unit) :
    Prop where
  adopting : Adopting h b id
  trouble : ∀ err, r = .error err → Trouble h
  complete : r = .ok () → Complete h id

/-- The manifest is given up. -/
theorem Adopting.gaveUp {id err : String} (ha : Adopting h b id) (ht : Trouble h) :
    Applied b id h (.error err) := ⟨ha,fun _ _ => ht,nofun⟩

/-- The loop. What has been applied and what is left are the objects of the manifest. -/
theorem applyDocuments_obeys {id : String} {m : Manifest} (ds done : List Document)
    (ha : Adopting h b id) (hg : Got h id m) (hdone : applies h = done.map (·,.ok ()))
    (hsplit : m.objects = done ++ ds.filter (·.kind ≠ "")) (hrest : m.rest ≠ none → Trouble h) :
    Obeys (Permits lib) (Applied b id) h (applyDocuments m.rest ds) := by
  induction ds generalizing h done with
  | nil =>
    unfold applyDocuments
    have hall : m.objects = done := by simpa using hsplit
    cases hr : m.rest with
    | none => exact ⟨ha,nofun,fun _ => ⟨m,hg,hr,by rw [hall,hdone]⟩⟩
    | some err => exact ha.gaveUp (hrest (by simp [hr]))
  | cons d ds ih =>
    unfold applyDocuments
    by_cases hkind : d.kind = ""
    · rw [if_pos hkind]
      refine ih done ha hg hdone ?_ hrest
      rw [hsplit]
      simp [hkind]
    · rw [if_neg hkind]
      have hobjects : m.objects = (done ++ [d]) ++ ds.filter (·.kind ≠ "") := by
        rw [hsplit]
        simp [hkind]
      refine ⟨⟨⟨b,ha.connecting,ha.isSome⟩,id,m,done,hg,hdone,?_⟩,?_⟩
      · rw [hobjects]
        exact List.prefix_append _ _
      · rintro (err | ⟨⟩)
        · exact (ha.quiet ⟨rfl,rfl,rfl⟩).gaveUp (ha.trouble ⟨err,rfl⟩)
        · refine ih (done ++ [d]) (ha.quiet ⟨rfl,rfl,rfl⟩) hg.cons ?_ hobjects
            (fun hne => (hrest hne).cons)
          change applies h ++ [(d,.ok ())] = _
          rw [hdone]
          simp

theorem applyManifest_obeys {id url : String} (ha : Adopting h b id) (hnone : applies h = [])
    (htoken : (⟨.inr (.rancher c (.getRegistrationToken id)),.ok url⟩ : Event interface) ∈ h) :
    Obeys (Permits lib) (Applied b id) h (applyManifest rs url) := by
  refine ⟨trivial,?_⟩
  rintro (err | s)
  · exact (ha.quiet ⟨rfl,rfl,rfl⟩).gaveUp (ha.trouble ⟨err,rfl⟩)
  · have ha₁ :=
      ha.quiet (x := ⟨.inr (.getSecret rs.spec.credentialsSecretRef.namespacedName),.ok s⟩)
      ⟨rfl,rfl,rfl⟩
    refine ⟨trivial,fun (r : Fetched) => ?_⟩
    have ha₂ := ha₁.quiet (x := ⟨.inr (.fetchManifest (valueOf s.data "RANCHER_CA") url),r⟩)
      ⟨rfl,rfl,rfl⟩
    cases r with
    | unbuilt err => exact ha₂.gaveUp (ha₁.trouble (fun _ _ => nofun))
    | failed err => exact ha₂.gaveUp (ha₁.trouble (fun _ _ => nofun))
    | response status body =>
      change Obeys _ _ _ (if 400 ≤ status then _ else _)
      split
      · rename_i hstatus
        refine ha₂.gaveUp (ha₁.trouble ?_)
        rintro _ m ⟨⟩
        exact .inl hstatus
      · rename_i hstatus
        cases body with
        | error err => exact ha₂.gaveUp (ha₁.trouble (fun _ _ => nofun))
        | ok m =>
          refine applyDocuments_obeys m.documents [] ha₂ ?_ hnone rfl (fun hne => ha₁.trouble ?_)
          · exact ⟨c,url,_,status,List.mem_cons_of_mem _ (List.mem_cons_of_mem _ htoken),
              List.mem_cons_self,not_le.mp hstatus⟩
          · rintro _ m' ⟨⟩
            exact .inr hne

theorem recordManifest_good {id : String} (ha : Adopting h b id) (hc : Complete h id)
    (hm : Mem b rs) (hphase : rs.status.phase = .connecting)
    (hid : rs.status.rancherClusterID = id) : Good lib h (recordManifest lib rs) := by
  refine ⟨trivial,fun t => ⟨trivial,fun t' => ?_⟩⟩
  have ha₁ := ha.quiet (x := ⟨.inr (.now .manifestApplied),t⟩) ⟨rfl,rfl,rfl⟩
  have ha₂ := ha₁.quiet (x := ⟨.inr (.now .transition),t'⟩) ⟨rfl,rfl,rfl⟩
  refine ⟨⟨b,ha.connecting.copy,hm.metadata,hm.spec,
    .manifest t ha₂.connecting hphase ?_ rfl rfl rfl ?_⟩,?_⟩
  · subst hid
    exact ha₂.adopted
  · subst hid
    exact (hc.cons rfl).cons rfl
  · rintro (err | v)
    · exact returns_updateStatus _ _ _
    · exact returns_updateStatus _ _ _

theorem registerCluster_good {id : String} (ha : Adopting h b id) (hnone : applies h = [])
    (hm : Mem b rs) (hst : rs.status = b.status) : Good lib h (registerCluster lib c rs id) := by
  have hphase : rs.status.phase = .connecting := by
    rw [hst]
    exact ha.connecting.phase
  -- The status with the id of the cluster, after any calls that keep it known.
  have hkept : ∀ {h'}, Adopting h' b id → Kept h' b { rs.status with rancherClusterID := id } := by
    intro h' ha'
    refine ⟨?_,?_,?_,?_⟩
    · rw [ha'.adopted]
      rfl
    · rw [hst]
    · rw [hst]
    · rw [hst]
  have hm' : Mem b { rs with status := { rs.status with rancherClusterID := id } } :=
    ⟨hm.metadata,hm.spec⟩
  refine ⟨⟨b,ha.connecting,ha.adopted⟩,?_⟩
  rintro (err | url)
  · have ha' := ha.quiet (x := ⟨.inr (.rancher c (.getRegistrationToken id)),.error err⟩)
      ⟨rfl,rfl,rfl⟩
    exact setAPIUnreachable_good hm' (.inl ha'.connecting)
      (hphase.trans ha.connecting.phase.symm) (hkept ha') _ _
  · have ha' := ha.quiet (x := ⟨.inr (.rancher c (.getRegistrationToken id)),.ok url⟩) ⟨rfl,rfl,rfl⟩
    refine (applyManifest_obeys ha' hnone List.mem_cons_self).bind ?_
    rintro h' (err | ⟨⟩) ⟨hadopting,herr,hcomplete⟩
    · exact setFailed_good hm' hadopting.connecting.copy
        (.spoiled hadopting.connecting hadopting.isSome (herr err rfl)) (hkept hadopting) _ _
    · exact recordManifest_good hadopting (hcomplete rfl) ⟨hm.metadata,hm.spec⟩ hphase rfl

theorem findOrCreateCluster_good (hc : Connecting h b) (hv : (view h).adopted = none)
    (hnone : applies h = []) : Good lib h (findOrCreateCluster lib c b) := by
  refine ⟨⟨b,hc,rfl,hv⟩,?_⟩
  rintro (err | _ | id)
  · have hq : Quiet ⟨.inr (.rancher c (.findCluster (displayName b))),.error err⟩ h := ⟨rfl,rfl,rfl⟩
    exact setAPIUnreachable_good ⟨rfl,rfl⟩ (.inl (hc.quiet hq)) rfl (kept_self hv) _ _
  · have hq : Quiet ⟨.inr (.rancher c (.findCluster (displayName b))),.ok none⟩ h := ⟨rfl,rfl,rfl⟩
    refine ⟨⟨b,hc.quiet hq,rfl,hv,c,h,rfl⟩,?_⟩
    rintro (err | id)
    · have hc' := (hc.quiet hq).quiet
        (x := ⟨.inr (.rancher c (.createCluster (displayName b))),.error err⟩) ⟨rfl,rfl,rfl⟩
      exact setAPIUnreachable_good ⟨rfl,rfl⟩ (.inl hc') rfl (kept_self hv) _ _
    · exact registerCluster_good ⟨(hc.quiet hq).later rfl rfl rfl rfl,rfl⟩ hnone ⟨rfl,rfl⟩ rfl
  · exact registerCluster_good ⟨hc.later rfl rfl rfl rfl,rfl⟩ hnone ⟨rfl,rfl⟩ rfl

theorem handleConnect_good (hr : Reading h b) (hl : Live b) (hs : Starts b.status)
    (hnone : applies h = []) : Good lib h (handleConnect lib c b) := by
  refine ⟨⟨b,hr.copy,rfl,rfl,.connecting hr hl hs⟩,?_⟩
  rintro (err | v)
  · exact returns_updateStatus _ _ _
  · have hview := hr.view
    refine findOrCreateCluster_good ⟨rfl,rfl,⟨hl.live,hl.held,hl.running⟩,rfl,
      ⟨h,b,List.suffix_cons _ _,hr.copy,hs,rfl⟩,?_⟩ ?_ hnone
    · change (view h).wiped = false ∧ (view h).failed = false
      rw [hview]
      exact ⟨rfl,rfl⟩
    · change (view h).adopted = none
      rw [hview]

theorem becomeConnected_good {n : ℤ} (hr : Reading h b) (hl : Live b)
    (hp : b.status.phase = .connecting ∧ b.status.manifestApplied = true)
    (hn : polled h = some n) (hne : n ≠ 0) : Good lib h (becomeConnected lib b) := by
  refine ⟨trivial,fun t => ⟨trivial,fun t' => ?_⟩⟩
  have hr' : Reading (⟨.inr (.now .transition),t'⟩::⟨.inr (.now .connected),t⟩::h) b :=
    (hr.quiet ⟨rfl,rfl,rfl⟩).quiet ⟨rfl,rfl,rfl⟩
  refine ⟨⟨b,hr.copy,rfl,rfl,.connected t hr' hl hp rfl rfl hp.2 rfl rfl ⟨n,hn,hne⟩⟩,?_⟩
  rintro (err | v)
  · exact returns_updateStatus _ _ _
  · exact returns_updateStatus _ _ _

/-- A job that has only read may end at any time. -/
theorem Reading.returns (hr : Reading h b) (x : Except String Result) : Returns h x := by
  refine .inl ?_
  rw [hr.view]

theorem checkAgent_good (hr : Reading h b) (hl : Live b)
    (hp : b.status.phase = .connecting ∧ b.status.manifestApplied = true) :
    Good lib h (checkAgent lib b) := by
  refine ⟨trivial,?_⟩
  rintro (err | replicas)
  · have hr' := hr.quiet
      (x := ⟨.inr (.getDeployment ⟨cattleSystemNamespace,cattleAgentDeployment⟩),.error err⟩)
      ⟨rfl,rfl,rfl⟩
    exact .ite (hr'.returns _) (hr'.returns _)
  · have hr' := hr.quiet
      (x := ⟨.inr (.getDeployment ⟨cattleSystemNamespace,cattleAgentDeployment⟩),.ok replicas⟩)
      ⟨rfl,rfl,rfl⟩
    change Good lib _ (if replicas = (0 : ℤ) then _ else _)
    split
    · exact hr'.returns _
    · rename_i hne
      exact becomeConnected_good hr' hl hp rfl hne

theorem pollAgentReady_good (hr : Reading h b) (hl : Live b)
    (hp : b.status.phase = .connecting ∧ b.status.manifestApplied = true) :
    Good lib h (pollAgentReady lib b) := by
  unfold pollAgentReady
  split
  · exact checkAgent_good hr hl hp
  · rename_i expires hexp
    refine ⟨trivial,fun (t : Time) => ?_⟩
    have hr' := hr.quiet (x := ⟨.inr (.now .agentTimeout),t⟩) ⟨rfl,rfl,rfl⟩
    change Obeys _ _ _ (if expires < (t : ℤ) then _ else _)
    split
    · rename_i hlate
      refine setFailed_good ⟨rfl,rfl⟩ hr'.copy
        (.timedOut hr' hl hp.1 hexp List.mem_cons_self hlate) (kept_self ?_) _ _
      rw [hr'.view]
    · exact checkAgent_good hr' hl hp

/-! ## Disconnecting -/

theorem observe_gone {n : String} {r : Except ApiError Unit} {v : View}
    (hr : World.namespaceGone r = true) :
    observe ⟨.inr (.deleteNamespace n),r⟩ v = { v with wiped := true } := if_pos hr

theorem observe_stays {n : String} {r : Except ApiError Unit} {v : View}
    (hr : World.namespaceGone r = false) :
    observe ⟨.inr (.deleteNamespace n),r⟩ v = { v with failed := true } :=
  if_neg (by rw [hr]; decide)

/-- An attempt to delete the namespace says nothing about clusters. -/
theorem adopted_deleteNamespace {n : String} {r : Except ApiError Unit} :
    (view (⟨.inr (.deleteNamespace n),r⟩::h)).adopted = (view h).adopted ∧
      (view (⟨.inr (.deleteNamespace n),r⟩::h)).unsaved = (view h).unsaved := by
  change (observe _ _).adopted = _ ∧ (observe _ _).unsaved = _
  cases hr : World.namespaceGone r with
  | true =>
    rw [observe_gone hr]
    exact ⟨rfl,rfl⟩
  | false =>
    rw [observe_stays hr]
    exact ⟨rfl,rfl⟩

theorem removeFinalizer_good (hcopy : lastCopy h = some b)
    (hrel : Releases lib h b { b with metadata := { b.metadata with
      finalizers := b.metadata.finalizers.filter (· ≠ rancherFinalizer) } })
    (hunsaved : (view h).unsaved = none) : Good lib h (removeFinalizer b) := by
  refine ⟨⟨b,hcopy,.inr hrel⟩,?_⟩
  rintro (err | v)
  · exact .inl hunsaved
  · exact .inl hunsaved

theorem cleanNamespace_good (hc : Cleaning h b) (hcl : Cleared h b) (hf : (view h).failed = false) :
    Good lib h (cleanNamespace b) := by
  refine obeys_deleteNamespace ⟨rfl,hf,b,.inl ⟨hc,hcl⟩⟩ (fun r hr => ?_) (fun r err hr => ?_)
  · have hv := adopted_deleteNamespace (h := h) (n := cattleSystemNamespace) (r := r)
    have hc' := hc.later (x := ⟨.inr (.deleteNamespace cattleSystemNamespace),r⟩) rfl rfl hv.1 hv.2
    have hgone : (view (⟨.inr (.deleteNamespace cattleSystemNamespace),r⟩::h)).wiped = true ∧
        (view (⟨.inr (.deleteNamespace cattleSystemNamespace),r⟩::h)).failed = false := by
      change (observe _ _).wiped = true ∧ (observe _ _).failed = false
      rw [observe_gone hr]
      exact ⟨rfl,hf⟩
    refine ⟨⟨b,hc'.copy,rfl,rfl,.disconnected hc' hgone ⟨r,h,List.suffix_refl _,hr,hcl⟩⟩,?_⟩
    rintro (err | v)
    · exact returns_updateStatus _ _ _
    · change Obeys _ _ _ (if b.metadata.deletionTimestamp.isSome then _ else _)
      split
      · rename_i hdel
        have hclosing : Closing b := by
          rcases hc.held with hl | hcl
          · rw [hl.live] at hdel
            cases hdel
          · exact hcl
        refine removeFinalizer_good rfl ⟨⟨hclosing.deleting,hclosing.held⟩,hgone,
          .inl ⟨rfl,rfl,r,h,List.suffix_cons _ _,hr,hcl⟩,rfl⟩ rfl
      · exact returns_updateStatus _ _ _
  · have hv := adopted_deleteNamespace (h := h) (n := cattleSystemNamespace) (r := r)
    exact .inl (hv.2.trans hc.adopted.2)

theorem cleanCluster_good {rc : Option Rancher.HTTPClient} (hc : Cleaning h b)
    (hf : (view h).failed = false) : Good lib h (cleanCluster lib rc b) := by
  unfold cleanCluster
  split
  · rename_i hid
    cases rc with
    | none => exact .inl hc.adopted.2
    | some c =>
      refine ⟨⟨b,hc,hf,rfl,hid⟩,?_⟩
      rintro (err | ⟨⟩)
      · have hc' := hc.later
          (x := ⟨.inr (.rancher c (.deleteCluster b.status.rancherClusterID)),.error err⟩)
          rfl rfl rfl rfl
        exact setAPIUnreachable_good ⟨rfl,rfl⟩ (.inr (.inl hc')) rfl (kept_self hc'.adopted.1) _ _
      · have hc' := hc.later
          (x := ⟨.inr (.rancher c (.deleteCluster b.status.rancherClusterID)),.ok ()⟩)
          rfl rfl rfl rfl
        exact cleanNamespace_good hc' (fun _ => ⟨c,List.mem_cons_self⟩) hf
  · rename_i hid
    exact cleanNamespace_good hc (fun hne => absurd hne hid) hf

theorem runCleanup_good {rc : Option Rancher.HTTPClient} (hr : Reading h b)
    (hfrom : Live b ∧ b.status.phase = .connected ∨ Closing b) :
    Good lib h (runCleanup lib rc b) := by
  refine ⟨⟨b,hr.copy,rfl,rfl,.disconnecting hr hfrom⟩,?_⟩
  rintro (err | v)
  · exact returns_updateStatus _ _ _
  · have hview := hr.view
    refine cleanCluster_good ⟨rfl,rfl,?_,rfl,?_⟩ ?_
    · rcases hfrom with ⟨hl,-⟩ | hcl
      · exact .inl ⟨hl.live,hl.held,hl.running⟩
      · exact .inr ⟨hcl.deleting,hcl.held⟩
    · refine ⟨?_,rfl⟩
      change (view h).adopted = none
      rw [hview]
    · change (view h).failed = false
      rw [hview]

theorem awaitExpiry_good (hr : Reading h b) : Good lib h (awaitExpiry b) := by
  unfold awaitExpiry
  split
  · exact hr.returns _
  · refine ⟨trivial,fun (t : Time) => ?_⟩
    have hr' := hr.quiet (x := ⟨.inr (.now .ttlLeft),t⟩) ⟨rfl,rfl,rfl⟩
    exact .ite (hr'.returns _) (hr'.returns _)

theorem checkCluster_good (hr : Reading h b) (hl : Live b) (hp : b.status.phase = .connected) :
    Good lib h (checkCluster lib c b) := by
  unfold checkCluster
  split
  · refine ⟨⟨b,hr,hl,hp,rfl⟩,?_⟩
    rintro (err | ⟨⟩)
    · have hr' := hr.quiet
        (x := ⟨.inr (.rancher c (.getCluster b.status.rancherClusterID)),.error err⟩) ⟨rfl,rfl,rfl⟩
      refine .ite (runCleanup_good hr' (.inl ⟨hl,hp⟩)) ?_
      refine setAPIUnreachable_good ⟨rfl,rfl⟩ (.inr (.inr ⟨hr',hl,hp⟩)) rfl (kept_self ?_) _ _
      rw [hr'.view]
    · exact awaitExpiry_good (hr.quiet ⟨rfl,rfl,rfl⟩)
  · exact awaitExpiry_good hr

theorem handleConnected_good (hr : Reading h b) (hl : Live b) (hp : b.status.phase = .connected) :
    Good lib h (handleConnected lib c b) := by
  unfold handleConnected
  split
  · exact checkCluster_good hr hl hp
  · refine ⟨trivial,fun (t : Time) => ?_⟩
    have hr' := hr.quiet (x := ⟨.inr (.now .ttlCheck),t⟩) ⟨rfl,rfl,rfl⟩
    exact .ite (runCleanup_good hr' (.inl ⟨hl,hp⟩)) (checkCluster_good hr' hl hp)

/-! ## `Reconcile` -/

theorem cleanupOnDeletion_good {rc : Option Rancher.HTTPClient} (hr : Reading h b)
    (hcl : Closing b) : Good lib h (cleanupOnDeletion lib rc b) := by
  refine (runCleanup_good hr (.inr hcl)).bind ?_
  rintro h' (err | res) hret
  · exact hret
  · exact hret

theorem cleanupWithoutClient_good {e : NoClient} (hr : Reading h b) (hcl : Closing b)
    (hu : Unusable lib h b e) (hnil : e.nilPointer = false) :
    Good lib h (cleanupWithoutClient b) := by
  have hview := hr.view
  have hf : (view h).failed = false := by rw [hview]
  refine obeys_deleteNamespace ⟨rfl,hf,b,.inr ⟨hr,hcl,e,hu⟩⟩ (fun r hg => ?_) (fun r err hg => ?_)
  · have hgone :
      view (⟨.inr (.deleteNamespace cattleSystemNamespace),r⟩::h) = { wiped := true } := by
      change observe _ _ = _
      rw [observe_gone hg,hview]
    have hu := hu.later (List.suffix_cons ⟨.inr (.deleteNamespace cattleSystemNamespace),r⟩ h)
    refine removeFinalizer_good hr.copy ⟨hcl,?_,.inr ⟨hr.fresh,e,hu,hnil⟩,rfl⟩ ?_
    · rw [hgone]
      exact ⟨rfl,rfl⟩
    · rw [hgone]
  · refine .inl ((adopted_deleteNamespace (h := h)).2.trans ?_)
    rw [hview]

theorem handleDisconnect_good (hr : Reading h b) (hdel : b.metadata.deletionTimestamp.isSome) :
    Good lib h (handleDisconnect lib b) := by
  unfold handleDisconnect
  split
  · exact hr.returns _
  · rename_i hheld
    have hcl : Closing b := ⟨hdel,not_not.mp hheld⟩
    refine obeys_rancherClient trivial (fun r => ?_)
    have hr' := hr.quiet
      (x := ⟨.inr (.getSecret b.spec.credentialsSecretRef.namespacedName),r⟩) ⟨rfl,rfl,rfl⟩
    cases hc : clientFrom lib (named b.spec.credentialsSecretRef r) with
    | ok c => exact cleanupOnDeletion_good hr' hcl
    | error e =>
      change Good lib _ (if e.nilPointer then _ else _)
      by_cases hnil : e.nilPointer = true
      · rw [if_pos hnil]
        exact cleanupOnDeletion_good hr' hcl
      · rw [if_neg hnil]
        exact cleanupWithoutClient_good hr' hcl ⟨r,List.mem_cons_self,hc⟩ (by simpa using hnil)

theorem handlePhase_good (hr : Reading h b) (hl : Live b) (hnone : applies h = []) :
    Good lib h (handlePhase lib c b) := by
  unfold handlePhase
  split
  · rename_i hp
    exact handleConnect_good hr hl (.inl hp) hnone
  · rename_i hp
    by_cases hm : b.status.manifestApplied = true
    · rw [if_pos hm]
      exact pollAgentReady_good hr hl ⟨hp,hm⟩
    · rw [if_neg hm]
      exact handleConnect_good hr hl (.inr ⟨hp,by simpa using hm⟩) hnone
  · rename_i hp
    exact handleConnected_good hr hl hp
  · exact hr.returns _
  · exact hr.returns _
  · exact hr.returns _

theorem reconcileObject_good (hr : Reading h b) (hnone : applies h = []) :
    Good lib h (reconcileObject lib b) := by
  have hret := hr.returns (.ok {})
  unfold reconcileObject
  split
  · rename_i hdel
    exact handleDisconnect_good hr hdel
  rename_i hdel
  have hlive : b.metadata.deletionTimestamp = none := by simpa using hdel
  split
  · rename_i hfin
    refine ⟨⟨b,hr.copy,.inl ⟨hr,hlive,hfin,rfl⟩⟩,?_⟩
    rintro (err | v)
    · exact hret
    · exact hret
  rename_i hfin
  split
  · exact hret
  rename_i hsus
  have hl : Live b := ⟨hlive,not_not.mp hfin,by simpa using hsus⟩
  refine obeys_rancherClient trivial (fun r => ?_)
  have hr' := hr.quiet
    (x := ⟨.inr (.getSecret b.spec.credentialsSecretRef.namespacedName),r⟩) ⟨rfl,rfl,rfl⟩
  cases hc : clientFrom lib (named b.spec.credentialsSecretRef r) with
  | error e =>
    refine setFailed_good ⟨rfl,rfl⟩ hr'.copy (.unusable hr' hl ⟨r,List.mem_cons_self,hc⟩)
      (kept_self ?_) _ _
    rw [hr'.view]
  | ok c => exact handlePhase_good hr' hl hnone

theorem reconcile_obeys (lib : Externals) : Obeys (Permits lib) Returns [] (reconcile lib) := by
  refine ⟨rfl,?_⟩
  rintro (err | b)
  · exact .ite (.inl rfl) (.inl rfl)
  · exact reconcileObject_good ⟨rfl,rfl,rfl⟩ rfl

end LosantDevice.Session

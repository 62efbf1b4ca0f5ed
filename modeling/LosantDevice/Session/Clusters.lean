import LosantDevice.Session.Halted
import LosantDevice.Session.Retry

/-!
# The clusters of a session

A session finds its cluster by name before it creates one, so it never has two. The id of a new
cluster is stored only after the registration token was asked for; until then a cluster belongs to
the session by its name alone, and the cleanup goes by the id. A session that is deleted while its
cluster is at large leaves it behind.
-/
namespace LosantDevice.Session
open Effect Kube Go Program

variable {lib : Externals}

/-! ## One cluster of a name -/

/-- The records with the name `n`. -/
def World.withName (w : World) (n : String) : List Rancher.Cluster :=
  w.clusters.filter fun r => r.name = n

theorem World.mem_withName {w : World} {n : String} {r : Rancher.Cluster} :
    r ∈ w.withName n ↔ r ∈ w.clusters ∧ r.name = n := by simp [withName]

/-- A search by name finds a record of that name, if there is one. -/
def World.Exact (w : World) : (e : Call) → calls.Answer e → Prop
  | .rancher _ (.findCluster n),r =>
    match (r : Except Rancher.Error (Option String)) with
    | .ok (some id) => ⟨id,n⟩ ∈ w.clusters
    | .ok none => w.withName n = []
    | .error _ => True
  | _,_ => True

/-- Rancher has at most one record with the name `n`, and nobody else touches it. -/
def exclusive (lib : Externals) (n : String) :
    System rancherSession calls (Except String Result) where
  World := World
  start w := (w.withName n).length ≤ 1
  answers w e r w' := w.answers e r w' ∧ w.Exact e r
  others w w' := World.Others w w' ∧ w'.withName n = w.withName n
  main := reconcile lib

section exclusive
variable {n : String} {c d : Config (exclusive lib n)}

def recordsOf (c : Config (exclusive lib n)) : World := c.world

/-- The effective display name of the stored session is `n`. -/
def Titled (n : String) (_ d : Config (exclusive lib n)) : Prop :=
  ∀ o, d.server.current = some o → displayName o = n

theorem titled_log (hc : (exclusive lib n).ReachableBy (Titled n) c) {o : RancherSession}
    (ho : some o ∈ c.server.log) : displayName o = n := by
  revert o
  refine System.ReachableBy.invariant
    (I := fun c => ∀ {o : RancherSession}, some o ∈ c.server.log → displayName o = n)
    (J := fun c => c.Sound (Permits lib) Returns) (fun c hc => sound rfl hc.reachable) ?_ ?_ hc
  · intro w hw o ho
    cases ho
  · intro c d hs hi hm hP o ho
    rcases (hs.written Permits.disciplined hm).mem_or_current ho with hold | hcur
    · exact hi hold
    · exact hP o hcur

/-- What the running job knows of the records with its name. -/
structure Sole (c : Config (exclusive lib n)) : Prop where
  one : ((recordsOf c).withName n).length ≤ 1
  missing : ∀ rc k p, c.job = some (⟨.inr (.rancher rc (.findCluster n)),.ok none⟩::k,p) →
    (recordsOf c).withName n = []
  adopted : ∀ h p id, c.job = some (h,p) → (view h).adopted = some id →
    (recordsOf c).withName n = [⟨id,n⟩]

/-- What a job adopts it has created, or found under the name it asked for. -/
theorem adopts_cases {e : Call} {r : calls.Answer e} {id : String}
    (ha : adopts ⟨.inr e,r⟩ = some id) : (∃ rc m, e = .rancher rc (.createCluster m)) ∨
      ∃ rc m, (⟨.inr e,r⟩ : Event interface) =
        ⟨.inr (.rancher rc (.findCluster m)),.ok (some id)⟩ := by
  generalize hev : (⟨.inr e,r⟩ : Event interface) = ev at ha ⊢
  revert ha
  fun_cases adopts ev with
  | case1 rc m id' =>
    intro ha
    cases ha
    exact .inr ⟨rc,m,rfl⟩
  | case3 rc m id' =>
    cases hev
    exact fun _ => .inl ⟨rc,m,rfl⟩
  | case2 | case4 | case5 =>
    intro ha
    cases ha

theorem adopted_cons {ev : Event interface} {h : Past} {id : String}
    (ha : (view (ev::h)).adopted = some id) :
    adopts ev = some id ∨ (view h).adopted = some id := by
  have ha : (observe ev (view h)).adopted = some id := ha
  rw [observe_adopted] at ha
  exact (Option.or_eq_some_iff.mp ha).imp_right And.right

theorem World.withName_eq_singleton {w : World} {id : String} (hone : (w.withName n).length ≤ 1)
    (hm : ⟨id,n⟩ ∈ w.clusters) : w.withName n = [⟨id,n⟩] := by
  have hm : (⟨id,n⟩ : Rancher.Cluster) ∈ w.withName n := mem_withName.mpr ⟨hm,rfl⟩
  cases hl : w.withName n with
  | nil =>
    rw [hl] at hm
    cases hm
  | cons r l =>
    rw [hl] at hm hone
    obtain rfl : l = [] := by
      simp only [List.length_cons] at hone
      exact List.eq_nil_of_length_eq_zero (by omega)
    rw [List.mem_singleton.mp hm]

theorem Sole.outside {s : Server rancherSession} {w w' : World} {past h e next r}
    (hs : Config.Sound (σ := exclusive lib n) (Permits lib) Returns
      ⟨s,w,past,some (h,.call (.inr e) next)⟩)
    (htitle : ∀ {o : RancherSession}, some o ∈ s.log → displayName o = n)
    (hi : Sole (⟨s,w,past,some (h,.call (.inr e) next)⟩ : Config (exclusive lib n)))
    (ha : (exclusive lib n).answers w e r w') :
    Sole (⟨s,w',past,some (⟨.inr e,r⟩::h,next r)⟩ : Config (exclusive lib n)) := by
  obtain ⟨hans,hexact⟩ := ha
  have hperm := (hs.obeys rfl).1
  have hname : ∀ b, Connecting h b → displayName b = n := by
    intro b hc
    obtain ⟨-,l,hl,-⟩ := hs.copy rfl hc.copy
    exact htitle (hl.subset List.mem_cons_self)
  have hone : (w.withName n).length ≤ 1 := hi.one
  cases World.recorded hans with
  | kept hcl _ _ _ hquiet =>
    have hsame : w'.withName n = w.withName n := by
      unfold World.withName
      rw [hcl]
    refine ⟨hsame ▸ hone,?_,?_⟩
    · intro rc k p hj
      cases hj
      exact hsame.trans hexact
    · intro h' p id hj hid
      cases hj
      refine hsame.trans ?_
      rcases adopted_cons hid with hnew | hold
      · rcases adopts_cases hnew with ⟨rc,m,rfl⟩ | ⟨rc,m,he⟩
        · cases (hquiet rc m rfl).symm.trans hnew
        · cases he
          obtain ⟨b,hc,hb,-⟩ := hperm
          have hmem : ⟨id,m⟩ ∈ w.clusters := hexact
          rw [hb,hname b hc] at hmem
          exact World.withName_eq_singleton hone hmem
      · exact hi.adopted h _ id rfl hold
  | @created rc m r id hf hid' =>
    obtain ⟨b,hc,hb,hnone,rc',k,hh⟩ := hperm
    rw [hname b hc] at hb
    subst hb hh
    have hempty : w.withName m = [] := hi.missing rc' k _ rfl
    have hsingle : (w.create ⟨id,m⟩).withName m = [⟨id,m⟩] := by
      unfold World.withName at hempty ⊢
      simp [World.create,World.insert,hempty]
    refine ⟨?_,?_,?_⟩
    · exact (congrArg List.length hsingle).le
    · intro rc k p hj
      cases hj
    · intro h' p id₁ hj hid
      cases hj
      rcases adopted_cons hid with hnew | hold
      · rw [hid' _ hnew]
        exact hsingle
      · cases hnone.symm.trans hold
  | erased =>
    obtain ⟨b,hc,-⟩ := hperm
    refine ⟨?_,?_,?_⟩
    · refine le_trans (List.Sublist.length_le ?_) hone
      exact List.filter_sublist.filter _
    · intro rc k p hj
      cases hj
    · intro h' p id hj hid
      cases hj
      rcases adopted_cons hid with hnew | hold
      · cases hnew
      · cases hc.adopted.1.symm.trans hold

theorem Sole.step (hs : c.Sound (Permits lib) Returns)
    (htitle : ∀ {o : RancherSession}, some o ∈ c.server.log → displayName o = n) (hi : Sole c)
    (hm : (exclusive lib n).Step c d) : Sole d := by
  cases hm with
  | user => exact ⟨hi.one,hi.missing,hi.adopted⟩
  | others ho =>
    refine ⟨?_,?_,?_⟩
    · exact (congrArg List.length ho.2).trans_le hi.one
    · exact fun rc k p hj => ho.2.trans (hi.missing rc k p hj)
    · exact fun h p id hj ha => ho.2.trans (hi.adopted h p id hj ha)
  | start =>
    refine ⟨hi.one,?_,?_⟩
    · intro rc k p hj
      cases hj
    · intro h p id hj ha
      cases hj
      cases ha
  | @own s s' w past h e next r ha =>
    refine ⟨hi.one,?_,?_⟩
    · intro rc k p hj
      cases hj
    · intro h' p id hj hid
      cases hj
      rcases adopted_cons hid with hnew | hold
      · cases e <;> cases hnew
      · exact hi.adopted h _ id rfl hold
  | outside ha => exact hi.outside hs htitle ha
  | finish | crash =>
    refine ⟨hi.one,?_,?_⟩
    · intro rc k p hj
      cases hj
    · intro h p id hj
      cases hj

end exclusive

/-- Through crashes, refused writes and lost answers there is at most one cluster of the session's
name, and it is the one whose registration token is asked for. -/
theorem one_cluster_per_session (lib : Externals) (n : String) (c : Config (exclusive lib n))
    (hc : (exclusive lib n).ReachableBy (Titled n) c) :
    ((recordsOf c).withName n).length ≤ 1 ∧
      ∀ h rc id next, c.job = some (h,.call (.inr (.rancher rc (.getRegistrationToken id))) next) →
        (recordsOf c).withName n = [⟨id,n⟩] := by
  have hi : Sole c := by
    refine System.ReachableBy.invariant (I := Sole)
      (J := fun c => (exclusive lib n).ReachableBy (Titled n) c) (fun c hc => hc) ?_ ?_ hc
    · intro w hw
      refine ⟨hw,?_,?_⟩
      · intro rc k p hj
        cases hj
      · intro h p id hj
        cases hj
    · exact fun c d hJ hi hm _ => hi.step (sound rfl hJ.reachable) (titled_log hJ) hm
  refine ⟨hi.one,?_⟩
  intro h rc id next hj
  obtain ⟨b,-,ha⟩ := ((sound rfl hc.reachable : c.Sound (Permits lib) Returns).obeys hj).1
  exact hi.adopted h _ id hj ha

theorem exact_of_serve {t : Time} {w w' : World} {e : Call} {r : calls.Answer e}
    (h : w.serve t e = some (r,w')) : w.Exact e r := by
  fun_cases World.Exact w e r with
  | case1 rc n id =>
    simp only [World.serve] at h
    split at h
    · rename_i x hx
      cases h
      have hname := List.find?_some hx
      obtain rfl : x.name = n := of_decide_eq_true hname
      exact List.mem_of_find?_eq_some hx
    · cases h
  | case2 rc n =>
    simp only [World.serve] at h
    split at h
    · cases h
    · rename_i hx
      cases h
      exact List.filter_eq_nil_iff.mpr (List.find?_eq_none.mp hx)
  | case3 | case4 => trivial

/-- A cluster is created and the answer is lost. -/
def World.createUnheard (w : World) : (e : Call) → Option (calls.Answer e × World)
  | .rancher _ (.createCluster m) =>
    if w.Fresh "c-0" then some (.error { text := "EOF" },w.create ⟨"c-0",m⟩) else none
  | _ => none

theorem answers_of_createUnheard {w w' : World} {e : Call} {r : calls.Answer e}
    (h : w.createUnheard e = some (r,w')) : w.answers e r w' ∧ w.Exact e r := by
  unfold World.createUnheard at h
  split at h
  · split at h
    · rename_i hf
      cases h
      exact ⟨.inr ⟨"c-0",hf,rfl⟩,trivial⟩
    · cases h
  · cases h

/-- A job in which everything works, except that the answer to `CreateCluster` may be lost. -/
def exclusiveJob (n : String) (lost : Bool) : (exclusive .plain n).Act := .job
  { refuse := fun _ => none
    serve := fun _ (w : World) e =>
      if lost then (w.createUnheard e).or (w.serve 0 e) else w.serve 0 e
    sound := by
      intro h w e r w' hs
      cases lost with
      | false => exact ⟨answers_of_serve hs,exact_of_serve hs⟩
      | true =>
        rcases Option.or_eq_some_iff.mp hs with hs | ⟨-,hs⟩
        · exact answers_of_createUnheard hs
        · exact ⟨answers_of_serve hs,exact_of_serve hs⟩ }

/-- The stored session has the name `edge`. -/
def titledTest (_ d : Config (exclusive .plain "edge")) : Bool :=
  d.server.current.all fun o => displayName o = "edge"

/-- The answer to the first `CreateCluster` is lost; the next job finds the cluster and registers
it. -/
theorem one_cluster_per_session_lost : ∃ c : Config (exclusive .plain "edge"),
    (exclusive .plain "edge").ReachableBy (Titled "edge") c ∧
    (∃ o, c.server.current = some o ∧ o.status.manifestApplied = true ∧
      o.status.rancherClusterID = "c-0") ∧ ((recordsOf c).withName "edge").length ≤ 1 := by
  obtain ⟨c,hc,hp⟩ := System.exists_tested titledTest
    (show (exclusive .plain "edge").start emptyWorld from Nat.zero_le 1)
    [.create newSession,exclusiveJob "edge" false,exclusiveJob "edge" true,
      exclusiveJob "edge" false]
    (fun c => c.server.current.any fun o : RancherSession =>
      decide (o.status.manifestApplied = true ∧
      o.status.rancherClusterID = "c-0")) (by decide +kernel)
  obtain ⟨o,ho,hp⟩ := (Option.any_eq_true _ _).mp hp
  have hc : (exclusive .plain "edge").ReachableBy (Titled "edge") c := by
    refine hc.mono fun c d ht o ho => ?_
    unfold titledTest at ht
    rw [ho] at ht
    exact of_decide_eq_true ht
  exact ⟨c,hc,⟨o,ho,of_decide_eq_true hp⟩,(one_cluster_per_session .plain "edge" c hc).1⟩

/-! ## No cluster is left -/

/-- Of the records that the controller created none is left. -/
def World.NoneLeft (w : World) : Prop := ∀ id ∈ w.created, ¬w.Exists id

/-- Of the records that the controller created at most the one with this id is left. -/
def World.OnlyLeft (w : World) (x : String) : Prop := ∀ id ∈ w.created, w.Exists id → id = x

/-- The controller creates nothing, and no record that it created comes back. -/
structure World.Shrinks (w w' : World) : Prop where
  created : w'.created = w.created
  used : ∀ id ∈ w.used, id ∈ w'.used
  exists_ : ∀ id ∈ w.used, w'.Exists id → w.Exists id

theorem World.erase_shrinks (w : World) (id : String) : w.Shrinks (w.erase id) := by
  refine ⟨rfl,fun _ h => h,?_⟩
  rintro x - ⟨r,hr,hid⟩
  exact ⟨r,List.mem_of_mem_filter hr,hid⟩

theorem World.Others.shrinks {w w' : World} (ho : World.Others w w') : w.Shrinks w' := by
  cases ho with
  | delete id => exact w.erase_shrinks id
  | create r hf =>
    refine ⟨rfl,fun _ h => List.mem_cons_of_mem _ h,?_⟩
    rintro x hx ⟨r',hr',hid⟩
    rcases List.mem_cons.mp hr' with rfl | hr'
    · rw [← hid] at hx
      exact absurd hx hf.2
    · exact ⟨r',hr',hid⟩

theorem World.Shrinks.noneLeft {w w' : World} (hs : w.Shrinks w')
    (hused : ∀ id ∈ w.created, id ∈ w.used) (h : w.NoneLeft) : w'.NoneLeft := by
  intro id hid hex
  rw [hs.created] at hid
  exact h id hid (hs.exists_ id (hused id hid) hex)

theorem World.Shrinks.onlyLeft {w w' : World} {x : String} (hs : w.Shrinks w')
    (hused : ∀ id ∈ w.created, id ∈ w.used) (h : w.OnlyLeft x) : w'.OnlyLeft x := by
  intro id hid hex
  rw [hs.created] at hid
  exact h id hid (hs.exists_ id (hused id hid) hex)

/-- A call creates a record or makes the controller's records fewer. -/
theorem World.Recorded.shrinks {w w' : World} {e : Call} {r : calls.Answer e}
    (hr : w.Recorded e r w') :
    w.Shrinks w' ∧ (∀ rc m, e = .rancher rc (.createCluster m) → adopts ⟨.inr e,r⟩ = none) ∨
      ∃ rc m id, e = .rancher rc (.createCluster m) ∧ w.Fresh id ∧
        (∀ id', adopts ⟨.inr e,r⟩ = some id' → id' = id) ∧ w' = w.create ⟨id,m⟩ := by
  cases hr with
  | kept hcl hu hcr _ hquiet =>
    refine .inl ⟨⟨hcr,fun id h => hu ▸ h,?_⟩,hquiet⟩
    rintro id - ⟨x,hx,hid⟩
    exact ⟨x,hcl ▸ hx,hid⟩
  | @created rc m r id hf hid => exact .inr ⟨rc,m,id,rfl,hf,hid,rfl⟩
  | erased => exact .inl ⟨w.erase_shrinks _,fun _ _ he => by cases he⟩

/-- A search misses no record that the controller created: it finds none only if none is left, and
one only if no other is left. -/
def World.Finds (w : World) : Except Rancher.Error (Option String) → Prop
  | .ok none => w.NoneLeft
  | .ok (some id) => w.OnlyLeft id
  | .error _ => True

/-- Whether a cluster is at large: `CreateCluster` was called, whatever it answered, and no status
was accepted since from a job that Rancher had told the id of a cluster. This goes by the calls of
the jobs and their answers, not by what the statuses say. -/
def atLarge : Past → Bool → Bool
  | [],before => before
  | ⟨.inr (.rancher _ (.createCluster _)),_⟩::_,_ => true
  | ⟨.inl (.updateStatus _),r⟩::h,before =>
    match (r : Except ApiError ℕ) with
    | .ok _ => atLarge h before && (view h).adopted.isNone
    | .error _ => atLarge h before
  | _::h,before => atLarge h before

section leak
variable {c d : Config (system lib)} {h k : Past} {b : RancherSession}

/-- The same over all jobs, the first one first. -/
def AtLarge (c : Config (system lib)) : Bool := c.histories.foldr atLarge false

/-- The user does not delete the session while a cluster is at large, no cluster is created for a
session that is being deleted, a search finds what was created, a deletion that is answered without
an error has worked, and the credentials are valid. -/
structure Settled (lib : Externals) (c d : Config (system lib)) : Prop where
  marked : ∀ o o', c.server.current = some o → d.server.current = some o' →
    o.metadata.deletionTimestamp = none → o'.metadata.deletionTimestamp.isSome → AtLarge c = false
  created : ∀ h rc m r o, (system lib).Answered c d h (.rancher rc (.createCluster m)) r →
    c.server.current = some o → o.metadata.deletionTimestamp = none
  found : ∀ h rc n (r : Except Rancher.Error (Option String)),
    (system lib).Answered c d h (.rancher rc (.findCluster n)) r → (worldOf c).Finds r
  deleted : ∀ h rc id, (system lib).Answered c d h (.rancher rc (.deleteCluster id)) (.ok ()) →
    ¬(worldOf d).Exists id
  client : GetsClient lib (fun _ => True) c d

/-- What is known of the records that the controller created. -/
structure Ledger (c : Config (system lib)) : Prop where
  used : ∀ id ∈ (worldOf c).created, id ∈ (worldOf c).used ∧ id ≠ ""
  missing : ∀ rc n k p, c.job = some (⟨.inr (.rancher rc (.findCluster n)),.ok none⟩::k,p) →
    (worldOf c).NoneLeft
  adopted : ∀ h p id, c.job = some (h,p) → (view h).adopted = some id → (worldOf c).OnlyLeft id
  saved : AtLarge c = false → ∀ o, c.server.current = some o →
    (worldOf c).OnlyLeft o.status.rancherClusterID
  removed : Removed c.server → (worldOf c).NoneLeft
  deleting : ∀ o, c.server.current = some o → o.metadata.deletionTimestamp.isSome →
    (worldOf c).OnlyLeft o.status.rancherClusterID
  cleared : ∀ h p b (rc : Rancher.HTTPClient), c.job = some (h,p) → lastCopy h = some b →
    owned h = true → Closing b →
    (⟨.inr (.rancher rc (.deleteCluster b.status.rancherClusterID)),.ok ()⟩ : Event interface) ∈ h →
    (worldOf c).NoneLeft

/-- A status has the id that Rancher has told the job, and without one keeps its own. -/
theorem StatusWrite.id_eq {t : RancherSessionStatus} (hw : StatusWrite lib k b t) :
    t.rancherClusterID = (view k).adopted.getD b.status.rancherClusterID := by
  cases hw with
  | connecting hr | disconnecting hr => rw [hr.view]; rfl
  | manifest _ _ _ hid => rw [hid]; rfl
  | connected _ hr _ _ _ hid => rw [hr.view]; exact hid
  | disconnected hc => rw [hc.adopted.1]; rfl
  | unreachable _ _ hk => exact hk.id
  | failed _ _ hk => exact hk.id

/-- A status written for a session that is being deleted keeps the cluster. -/
theorem StatusWrite.id_of_deleting {t : RancherSessionStatus} (hw : StatusWrite lib k b t)
    (hd : b.metadata.deletionTimestamp.isSome) :
    t.rancherClusterID = b.status.rancherClusterID := by
  have hlive : ¬Live b := by
    intro hl
    rw [hl.live] at hd
    cases hd
  cases hw with
  | connecting _ hl => exact absurd hl hlive
  | manifest _ hc => exact absurd hc.live hlive
  | connected _ _ hl => exact absurd hl hlive
  | disconnecting | disconnected => rfl
  | unreachable hs _ hk =>
    rcases hs with hc | hc | ⟨-,hl,-⟩
    · exact absurd hc.live hlive
    · rw [hk.id,hc.adopted.1]
      rfl
    · exact absurd hl hlive
  | failed hc =>
    cases hc with
    | unusable _ hl => exact absurd hl hlive
    | timedOut _ hl => exact absurd hl hlive
    | spoiled hc => exact absurd hc.live hlive

theorem World.NoneLeft.onlyLeft {w : World} (h : w.NoneLeft) (x : String) : w.OnlyLeft x :=
  fun id hid hex => absurd hex (h id hid)

theorem World.OnlyLeft.noneLeft {w : World} (h : w.OnlyLeft "") (hne : ∀ id ∈ w.created, id ≠ "") :
    w.NoneLeft := fun id hid hex => hne id hid (h id hid hex)

/-- When the finalizer is removed, every cluster is gone. -/
theorem Ledger.release (hl : Ledger c) {p : M (Except String Result)} {o : RancherSession}
    (hj : c.job = some (h,p)) (hb : lastCopy h = some b) (hcur : c.server.current = some b)
    (hno : ∀ e, owned h = false → ¬Unusable lib h b e) (hrel : Releases lib h b o) :
    (worldOf c).NoneLeft := by
  rcases hrel.cleaned with ⟨hown,-,r,k,hk,-,hcleared⟩ | ⟨hown,e,hu,-⟩
  · by_cases hid : b.status.rancherClusterID = ""
    · have honly := hl.deleting b hcur hrel.closing.deleting
      rw [hid] at honly
      exact honly.noneLeft fun id h => (hl.used id h).2
    · obtain ⟨rc,hev⟩ := hcleared hid
      exact hl.cleared h p b rc hj hb hown hrel.closing (hk.subset (List.mem_cons_of_mem _ hev))
  · exact absurd hu (hno e hown)

/-- A user cannot do more than delete the session. -/
theorem Ledger.user {s s' : Server rancherSession} {w : World} {past job} (hs : s.Sound)
    (hl : Ledger (⟨s,w,past,job⟩ : Config (system lib))) (he : Server.Edited s s')
    (hP : Settled lib ⟨s,w,past,job⟩ ⟨s',w,past,job⟩) :
    Ledger (⟨s',w,past,job⟩ : Config (system lib)) := by
  refine ⟨hl.used,hl.missing,hl.adopted,?_,fun hrem => hl.removed ?_,?_,hl.cleared⟩
  · intro hat o ho
    cases he.current_cases with
    | created ha => exact (hl.removed fun o ho => by cases ho.symm.trans ha).onlyLeft _
    | changed hlat hcur ha =>
      obtain rfl := Option.some.inj (ho.symm.trans hcur)
      rw [ha.status]
      exact hl.saved hat _ hlat
    | removed _ _ hg => cases ho.symm.trans hg
  · intro o ho
    cases he.current_cases with
    | created ha => cases ho.symm.trans ha
    | changed hlat hcur ha =>
      obtain rfl := Option.some.inj (ho.symm.trans hlat)
      rw [← ha.finalizers]
      exact hrem _ hcur
    | removed hlat hfree =>
      obtain rfl := Option.some.inj (ho.symm.trans hlat)
      rw [hfree]
      exact List.not_mem_nil
  · intro o ho hdel
    cases he.current_cases with
    | created _ hcur _ hfree =>
      obtain rfl := Option.some.inj (ho.symm.trans hcur)
      exact absurd hfree ((hs.edited he).held (Server.mem_of_current ho) hdel)
    | @changed b _ hlat hcur ha =>
      obtain rfl := Option.some.inj (ho.symm.trans hcur)
      rw [ha.status]
      cases hd : b.metadata.deletionTimestamp with
      | none => exact hl.saved (hP.marked b o hlat ho hd hdel) b hlat
      | some t => exact hl.deleting b hlat (by simp [hd])
    | removed _ _ hg => cases ho.symm.trans hg

/-- The controller's records only become fewer. -/
theorem Ledger.shrink {s : Server rancherSession} {w w' : World} {past job}
    (hl : Ledger (⟨s,w,past,job⟩ : Config (system lib))) (hsh : w.Shrinks w') :
    Ledger (⟨s,w',past,job⟩ : Config (system lib)) := by
  have hused : ∀ id ∈ w.created, id ∈ w.used := fun id h => (hl.used id h).1
  refine ⟨?_,?_,?_,?_,?_,?_,?_⟩
  · intro id hid
    have hid : id ∈ w.created := hsh.created ▸ hid
    exact ⟨hsh.used id (hused id hid),(hl.used id hid).2⟩
  · exact fun rc n k p hj => hsh.noneLeft hused (hl.missing rc n k p hj)
  · exact fun h p id hj ha => hsh.onlyLeft hused (hl.adopted h p id hj ha)
  · exact fun hat o ho => hsh.onlyLeft hused (hl.saved hat o ho)
  · exact fun hrem => hsh.noneLeft hused (hl.removed hrem)
  · exact fun o ho hdel => hsh.onlyLeft hused (hl.deleting o ho hdel)
  · exact fun h p b rc hj hb hown hcl hev =>
      hsh.noneLeft hused (hl.cleared h p b rc hj hb hown hcl hev)

/-- The cluster is deleted by a job that owns the session. -/
theorem owned_of_deleted (ha : Allowed lib h) {rc : Rancher.HTTPClient} {id : String}
    {r : Except Rancher.Error Unit}
    (hev : (⟨.inr (.rancher rc (.deleteCluster id)),r⟩ : Event interface) ∈ h)
    (hb : lastCopy h = some b) : owned h = true := by
  obtain ⟨l₁,k,rfl⟩ := List.append_of_mem hev
  have hk : ⟨.inr (.rancher rc (.deleteCluster id)),r⟩::k <:+ l₁ ++ _::k := List.suffix_append l₁ _
  obtain ⟨b',hc,-⟩ := ha _ k hk
  rcases owned_later ha.read_first ((List.suffix_cons _ _).trans hk) hc.owned with ho | hn
  · exact ho
  · cases hb.symm.trans hn

section own
variable {s s' : Server rancherSession} {w : World} {past : List Past}
  {e : OwnCall rancherSession} {o : RancherSession} {v : ℕ} {r : interface.Answer (.inl e)}

/-- A call to the server tells the job of no cluster. -/
theorem Ledger.adopted_own {next p} {id : String} {h' : Past}
    (hl : Ledger (⟨s,w,past,some (h,.call (.inl e) next)⟩ : Config (system lib)))
    (hj : some (⟨.inl e,r⟩::h,next r) = some (h',p)) (hid : (view h').adopted = some id) :
    w.OnlyLeft id := by
  cases hj
  rcases adopted_cons hid with hnew | hold
  · cases hnew
  · exact hl.adopted h _ id rfl hold

/-- A call that writes nothing. -/
theorem Ledger.unwritten {next}
    (hl : Ledger (⟨s,w,past,some (h,.call (.inl e) next)⟩ : Config (system lib)))
    (hlog : s'.log = s.log) (hat : ∀ u, atLarge (⟨.inl e,r⟩::h) u = atLarge h u)
    (hcopy : ∀ b, lastCopy (⟨.inl e,r⟩::h : Past) = some b →
      owned (⟨.inl e,r⟩::h : Past) = true → lastCopy h = some b ∧ owned h = true) :
    Ledger (⟨s',w,past,some (⟨.inl e,r⟩::h,next r)⟩ : Config (system lib)) := by
  have hcur : s'.current = s.current := by rw [Server.current,hlog]; rfl
  refine ⟨hl.used,?_,fun h' p id hj => hl.adopted_own hj,?_,fun hrem => hl.removed ?_,
    fun o ho => hl.deleting o (hcur.symm.trans ho),?_⟩
  · intro rc n k p hj
    cases hj
  · exact fun h₀ o ho => hl.saved ((hat _).symm.trans h₀) o (hcur.symm.trans ho)
  · exact fun o ho => hrem o (hcur.trans ho)
  · intro h' p b rc hj hb hown hcl hev
    cases hj
    obtain ⟨hb',hown'⟩ := hcopy b hb hown
    rcases List.mem_cons.mp hev with heq | hev
    · cases heq
    · exact hl.cleared h _ b rc rfl hb' hown' hcl hev

/-- An update that is accepted: the finalizer is added, or removed once every cluster is gone. -/
theorem Ledger.updated {next}
    (hs : Config.Sound (σ := system lib) (Permits lib) Returns
      ⟨s,w,past,some (h,.call (.inl (.update o)) next)⟩)
    (hl : Ledger (⟨s,w,past,some (h,.call (.inl (.update o)) next)⟩ : Config (system lib)))
    (hno : ∀ b e, lastCopy h = some b → owned h = false → ¬Unusable lib h b e)
    (ha : s.Answers (X := calls) (.update o) (.ok v) s') :
    Ledger (⟨s',w,past,some (⟨.inl (.update o),.ok v⟩::h,next (.ok v))⟩ : Config (system lib)) := by
  obtain ⟨b,l,hb,hlog,hcases⟩ := hs.update Permits.disciplined rfl ha
  have hcur : s.current = some b := Server.current_eq_some.mpr ⟨l,hlog⟩
  obtain ⟨b',hb',hperm⟩ := (hs.obeys rfl).1
  obtain rfl := Option.some.inj (hb.symm.trans hb')
  refine ⟨hl.used,?_,fun h' p id hj => hl.adopted_own hj,fun hat x hx => ?_,fun hrem => ?_,
    fun x hx hdel => ?_,?_⟩
  · intro rc n k p hj
    cases hj
  · rcases hcases with rfl | ⟨-,⟨-,-,rfl⟩ | rfl⟩
    · exact hl.saved hat x hx
    · cases hx
    · cases hx
      exact hl.saved hat b hcur
  · rcases hperm with ⟨-,hlive,-,rfl⟩ | hrel
    · rcases hcases with rfl | ⟨-,⟨hdel,-⟩ | rfl⟩
      · exact hl.removed hrem
      · rw [hlive] at hdel
        cases hdel
      · exact absurd (by simp) (hrem _ rfl)
    · exact hl.release rfl hb hcur (fun e => hno b e hb) hrel
  · rcases hcases with rfl | ⟨-,⟨-,-,rfl⟩ | rfl⟩
    · exact hl.deleting x hx hdel
    · cases hx
    · cases hx
      exact hl.deleting b hcur hdel
  · intro h' p b' rc hj hb'
    cases hj
    cases hb'

/-- A status that is accepted has the id that Rancher has told the job. -/
theorem Ledger.statusWritten {next}
    (hs : Config.Sound (σ := system lib) (Permits lib) Returns
      ⟨s,w,past,some (h,.call (.inl (.updateStatus o)) next)⟩)
    (hall : Allowed lib h)
    (hl : Ledger (⟨s,w,past,some (h,.call (.inl (.updateStatus o)) next)⟩ : Config (system lib)))
    (ha : s.Answers (X := calls) (.updateStatus o) (.ok v) s') :
    Ledger (⟨s',w,past,some (⟨.inl (.updateStatus o),.ok v⟩::h,next (.ok v))⟩ :
      Config (system lib)) := by
  obtain ⟨b,l,hb,hlog,hmeta,-,hcases⟩ := hs.updateStatus Permits.disciplined rfl ha
  have hcur : s.current = some b := Server.current_eq_some.mpr ⟨l,hlog⟩
  have hcur' : s'.current = some (o.stored v) := by
    rcases hcases with ⟨rfl,heq⟩ | ⟨rfl,-⟩
    · rw [heq]
      exact hcur
    · rfl
  obtain ⟨b',hb',-,-,hw⟩ := (hs.obeys rfl).1
  obtain rfl := Option.some.inj (hb.symm.trans hb')
  refine ⟨hl.used,?_,fun h' p id hj => hl.adopted_own hj,fun hat x hx => ?_,
    fun hrem => hl.removed ?_,fun x hx hdel => ?_,?_⟩
  · intro rc n k p hj
    cases hj
  · -- The id the job was told is in the status, or nothing has been at large before.
    obtain rfl := Option.some.inj (hcur'.symm.trans hx)
    change w.OnlyLeft o.status.rancherClusterID
    rw [hw.id_eq]
    cases had : (view h).adopted with
    | some id => exact hl.adopted h _ id rfl had
    | none =>
      have hat : (atLarge h (past.foldr atLarge false) && (view h).adopted.isNone) = false := hat
      have hbefore : atLarge h (past.foldr atLarge false) = false := by simpa [had] using hat
      exact hl.saved hbefore b hcur
  · intro x hx
    obtain rfl := Option.some.inj (hcur.symm.trans hx)
    rw [← hmeta]
    exact hrem (o.stored v) hcur'
  · obtain rfl := Option.some.inj (hcur'.symm.trans hx)
    have hdel : b.metadata.deletionTimestamp.isSome := by
      rw [← hmeta]
      exact hdel
    have honly := hl.deleting b hcur hdel
    rw [← hw.id_of_deleting hdel] at honly
    exact honly
  · intro h' p x rc hj hx hown hcl hev
    cases hj
    cases hx
    have hcl : Closing b := by
      obtain ⟨hdel,hheld⟩ := hcl
      refine ⟨?_,?_⟩
      · rw [← hmeta]
        exact hdel
      · rw [← hmeta]
        exact hheld
    rcases List.mem_cons.mp hev with heq | hev
    · cases heq
    · have hev : (⟨.inr (.rancher rc (.deleteCluster o.status.rancherClusterID)),.ok ()⟩ :
          Event interface) ∈ h := hev
      rw [hw.id_of_deleting hcl.deleting] at hev
      exact hl.cleared h _ b rc rfl hb (owned_of_deleted hall hev hb) hcl hev

theorem Ledger.own {next}
    (hs : Config.Sound (σ := system lib) (Permits lib) Returns
      ⟨s,w,past,some (h,.call (.inl e) next)⟩)
    (hall : Allowed lib h)
    (hl : Ledger (⟨s,w,past,some (h,.call (.inl e) next)⟩ : Config (system lib)))
    (hno : ∀ b e, lastCopy h = some b → owned h = false → ¬Unusable lib h b e)
    (ha : s.Answers (X := calls) e r s') :
    Ledger (⟨s',w,past,some (⟨.inl e,r⟩::h,next r)⟩ : Config (system lib)) := by
  cases e with
  | get =>
    cases r with
    | ok x =>
      obtain ⟨l,-,rfl⟩ := ha
      exact hl.unwritten rfl (fun _ => rfl) fun b _ hown => by cases hown
    | error err =>
      obtain ⟨n,-,-,rfl⟩ := Server.answers_get_error hs.server.seen_le ha
      exact hl.unwritten rfl (fun _ => rfl) fun b hb => by cases hb
  | update o =>
    cases r with
    | error err =>
      cases (show s' = s from ha)
      exact hl.unwritten rfl (fun _ => rfl) fun b hb hown => ⟨hb,hown⟩
    | ok v => exact hl.updated hs hno ha
  | updateStatus o =>
    cases r with
    | error err =>
      cases (show s' = s from ha)
      exact hl.unwritten rfl (fun _ => rfl) fun b hb hown => ⟨hb,hown⟩
    | ok v => exact hl.statusWritten hs hall ha

end own

/-- A call to others leaves nothing at large only if nothing was. -/
theorem atLarge_outside {e : Call} {r : calls.Answer e} {u : Bool}
    (hat : atLarge (⟨.inr e,r⟩::h) u = false) : atLarge h u = false := by
  cases e with
  | rancher rc m =>
    cases m with
    | createCluster => cases hat
    | findCluster | getRegistrationToken | getCluster | deleteCluster => exact hat
  | now | getSecret | fetchManifest | apply | getDeployment | deleteNamespace => exact hat

/-- The first record after none was left. -/
theorem World.NoneLeft.onlyLeft_create {w : World} {id m : String} (hn : w.NoneLeft)
    (hf : w.Fresh id) (hused : ∀ x ∈ w.created, x ∈ w.used) :
    (w.create ⟨id,m⟩).OnlyLeft id := by
  intro x hx ⟨r,hr,hrx⟩
  rcases List.mem_cons.mp hx with rfl | hx
  · rfl
  · rcases List.mem_cons.mp hr with rfl | hr
    · rw [← hrx] at hx
      exact absurd (hused _ hx) hf.2
    · exact absurd ⟨r,hr,hrx⟩ (hn x hx)

section outside
variable {s : Server rancherSession} {w w' : World} {past : List Past} {e : Call}
  {r : calls.Answer e}

/-- A call that creates nothing. What a search or a deletion has answered is true. -/
theorem Ledger.uncreated {next}
    (hs : Config.Sound (σ := system lib) (Permits lib) Returns
      ⟨s,w,past,some (h,.call (.inr e) next)⟩)
    (ht : Config.Traced (σ := system lib) (Permits lib) ⟨s,w,past,some (h,.call (.inr e) next)⟩)
    (howns : Config.Owns (⟨s,w,past,some (h,.call (.inr e) next)⟩ : Config (system lib)))
    (hl : Ledger (⟨s,w,past,some (h,.call (.inr e) next)⟩ : Config (system lib)))
    (hP : Settled lib ⟨s,w,past,some (h,.call (.inr e) next)⟩
      ⟨s,w',past,some (⟨.inr e,r⟩::h,next r)⟩)
    (hsh : w.Shrinks w')
    (hquiet : ∀ rc m, e = .rancher rc (.createCluster m) → adopts ⟨.inr e,r⟩ = none) :
    Ledger (⟨s,w',past,some (⟨.inr e,r⟩::h,next r)⟩ : Config (system lib)) := by
  have hl' := hl.shrink hsh
  have hused : ∀ id ∈ w.created, id ∈ w.used := fun id h => (hl.used id h).1
  refine ⟨hl'.used,?_,?_,fun hat => hl'.saved (atLarge_outside hat),hl'.removed,hl'.deleting,?_⟩
  · intro rc n k p hj
    cases hj
    exact hsh.noneLeft hused (hP.found h rc n _ ⟨next,rfl,rfl⟩)
  · intro h' p id hj hid
    cases hj
    rcases adopted_cons hid with hnew | hold
    · rcases adopts_cases hnew with ⟨rc,m,rfl⟩ | ⟨rc,m,he⟩
      · cases (hquiet rc m rfl).symm.trans hnew
      · cases he
        exact hsh.onlyLeft hused (hP.found h rc m _ ⟨next,rfl,rfl⟩)
    · exact hl'.adopted h _ id rfl hold
  · intro h' p b rc hj hb hown hcl hev
    cases hj
    rcases List.mem_cons.mp hev with heq | hev
    · -- The deletion has just worked, and what is left is the stored cluster.
      cases heq
      obtain ⟨o,ho,hu,-,hst⟩ := howns h _ b rfl hown hb (List.ne_nil_of_mem hcl.held)
      obtain ⟨-,l,hlog,-⟩ := hs.copy rfl hb
      have honly := hl'.deleting o ho (ht.current_deleting ho hlog hu.symm hcl.deleting)
      intro id hid hex
      have heq := honly id hid hex
      rw [hst] at heq
      rw [heq] at hex
      exact hP.deleted h rc _ ⟨next,rfl,rfl⟩ hex
    · exact hl'.cleared h _ b rc rfl hb hown hcl hev

/-- A cluster is created, for a session that is not being deleted and after a search that found
none. -/
theorem Ledger.create {rc : Rancher.HTTPClient} {m id : String} {r : Except Rancher.Error String}
    {next : Except Rancher.Error String → M (Except String Result)}
    (hs : Config.Sound (σ := system lib) (Permits lib) Returns
      ⟨s,w,past,some (h,.call (.inr (.rancher rc (.createCluster m))) next)⟩)
    (howns : Config.Owns (⟨s,w,past,some (h,.call (.inr (.rancher rc (.createCluster m))) next)⟩ :
      Config (system lib)))
    (hl : Ledger (⟨s,w,past,some (h,.call (.inr (.rancher rc (.createCluster m))) next)⟩ :
      Config (system lib)))
    (hlive : ∀ o, s.current = some o → o.metadata.deletionTimestamp = none) (hf : w.Fresh id)
    (hid : ∀ id', adopts ⟨.inr (.rancher rc (.createCluster m)),r⟩ = some id' → id' = id) :
    Ledger (⟨s,w.create ⟨id,m⟩,past,some (⟨.inr (.rancher rc (.createCluster m)),r⟩::h,next r)⟩ :
      Config (system lib)) := by
  obtain ⟨b₀,hc,-,hnone,rc₀,k,rfl⟩ := (hs.obeys rfl).1
  obtain ⟨o,ho,-,hfin,-⟩ := howns _ _ b₀ rfl hc.owned hc.copy (List.ne_nil_of_mem hc.live.held)
  refine ⟨?_,?_,?_,?_,?_,?_,?_⟩
  · intro x hx
    rcases List.mem_cons.mp hx with rfl | hx
    · exact ⟨List.mem_cons_self,hf.1⟩
    · exact ⟨List.mem_cons_of_mem _ (hl.used x hx).1,(hl.used x hx).2⟩
  · intro rc' n k' p hj
    cases hj
  · intro h' p x hj hx
    cases hj
    rcases adopted_cons hx with hnew | hold
    · rw [hid x hnew]
      exact (hl.missing rc₀ m k _ rfl).onlyLeft_create hf fun id h => (hl.used id h).1
    · cases hnone.symm.trans hold
  · intro hat
    cases hat
  · intro hrem
    have hfree := hrem o ho
    rw [hfin] at hfree
    exact absurd hc.live.held hfree
  · intro x hx hdel
    rw [hlive x hx] at hdel
    cases hdel
  · intro h' p b rc hj hb hown hcl
    cases hj
    obtain rfl := Option.some.inj (hc.copy.symm.trans hb)
    have hdel := hcl.deleting
    rw [hc.live.live] at hdel
    cases hdel

theorem Ledger.outside {next}
    (hs : Config.Sound (σ := system lib) (Permits lib) Returns
      ⟨s,w,past,some (h,.call (.inr e) next)⟩)
    (ht : Config.Traced (σ := system lib) (Permits lib) ⟨s,w,past,some (h,.call (.inr e) next)⟩)
    (howns : Config.Owns (⟨s,w,past,some (h,.call (.inr e) next)⟩ : Config (system lib)))
    (hl : Ledger (⟨s,w,past,some (h,.call (.inr e) next)⟩ : Config (system lib)))
    (hP : Settled lib ⟨s,w,past,some (h,.call (.inr e) next)⟩
      ⟨s,w',past,some (⟨.inr e,r⟩::h,next r)⟩)
    (ha : w.answers e r w') :
    Ledger (⟨s,w',past,some (⟨.inr e,r⟩::h,next r)⟩ : Config (system lib)) := by
  rcases (World.recorded ha).shrinks with ⟨hsh,hquiet⟩ | ⟨rc,m,id,rfl,hf,hid,rfl⟩
  · exact hl.uncreated hs ht howns hP hsh hquiet
  · exact hl.create hs howns (fun o ho => hP.created _ rc m r o ⟨next,rfl,rfl⟩ ho) hf hid

end outside

theorem Ledger.step (hc : (system lib).ReachableBy (Settled lib) c) (hl : Ledger c)
    (hm : (system lib).Step c d) (hP : Settled lib c d) : Ledger d := by
  have hs : c.Sound (Permits lib) Returns := sound rfl hc.reachable
  have ht : c.Traced (Permits lib) := traced rfl hc.reachable
  have howns : c.Owns := owns rfl hc.reachable
  have hno : ∀ h p b e, c.job = some (h,p) → lastCopy h = some b → owned h = false →
      ¬Unusable lib h b e := fun h p b e hj hb ho =>
    not_unusable (fun _ _ hP => hP.client) hc ht (Config.mem_histories hj)
      (List.suffix_refl _) hb ho
      trivial
  cases hm with
  | user he => exact hl.user hs.server he hP
  | others ho => exact hl.shrink ho.shrinks
  | start =>
    refine ⟨hl.used,?_,?_,hl.saved,hl.removed,hl.deleting,?_⟩
    · intro rc n k p hj
      cases hj
    · intro h p id hj hid
      cases hj
      cases hid
    · intro h p b rc hj hb
      cases hj
      cases hb
  | own ha =>
    have hall := allowed_of_mem ht (Config.mem_histories rfl)
    exact hl.own hs hall (fun b e => hno _ _ b e rfl) ha
  | outside ha => exact hl.outside hs ht howns hP ha
  | finish | crash =>
    refine ⟨hl.used,?_,?_,hl.saved,hl.removed,hl.deleting,?_⟩
    · intro rc n k p hj
      cases hj
    · intro h p id hj
      cases hj
    · intro h p b rc hj
      cases hj

end leak

/-- While no cluster is at large, the session has stored the id of the one that was created for it,
and when the session is gone, so is every such cluster. -/
theorem no_cluster_left (lib : Externals) (c : Config (system lib))
    (hc : (system lib).ReachableBy (Settled lib) c) :
    (AtLarge c = false → ∀ o, c.server.current = some o →
      ∀ id ∈ (worldOf c).created, (worldOf c).Exists id → id = o.status.rancherClusterID) ∧
    (c.server.current = none → ∀ id ∈ (worldOf c).created, ¬(worldOf c).Exists id) := by
  have hl : Ledger c := by
    refine System.ReachableBy.invariant (I := Ledger)
      (J := fun c => (system lib).ReachableBy (Settled lib) c) (fun c hc => hc) ?_ ?_ hc
    · intro w hw
      have hnone : ∀ id, id ∉ w.created := by
        rw [show w.created = [] from hw.1]
        exact fun id => List.not_mem_nil
      refine ⟨?_,?_,?_,?_,?_,?_,?_⟩
      · exact fun id hid => absurd hid (hnone id)
      · intro rc n k p hj
        cases hj
      · intro h p id hj
        cases hj
      · intro _ o ho
        cases ho
      · exact fun _ id hid => absurd hid (hnone id)
      · intro o ho
        cases ho
      · intro h p b rc hj
        cases hj
    · exact fun c d hJ hl hm hP => hl.step hJ hm hP
  refine ⟨hl.saved,fun hgone => hl.removed ?_⟩
  intro o ho
  cases hgone.symm.trans ho

instance (w : World) (x : String) : Decidable (w.OnlyLeft x) := by
  unfold World.OnlyLeft
  infer_instance

instance (w : World) : DecidablePred w.Finds
  | .ok none => by unfold World.Finds World.NoneLeft; infer_instance
  | .ok (some _) => by unfold World.Finds; infer_instance
  | .error _ => isTrue trivial

def foundTest (w : World) (r : Except Rancher.Error (Option String)) : Bool := decide (w.Finds r)

/-- The step is not a deletion of the session in the wrong moment. -/
def settledTest (c d : Config (system .plain)) : Bool :=
  clientTest c d && c.server.current.all (fun o : RancherSession =>
    o.metadata.deletionTimestamp.isSome || !AtLarge c ||
      d.server.current.all fun o' : RancherSession => o'.metadata.deletionTimestamp.isNone) &&
  d.job.all fun j => j.1.head?.all fun ev =>
    match ev with
    | ⟨.inr (.rancher _ (.createCluster _)),_⟩ =>
      c.server.current.all fun o : RancherSession => o.metadata.deletionTimestamp = none
    | ⟨.inr (.rancher _ (.findCluster _)),r⟩ => foundTest (worldOf c) r
    | ⟨.inr (.rancher _ (.deleteCluster id)),_⟩ => !decide ((worldOf d).Exists id)
    | _ => true

theorem settled_of_test (c d : Config (system .plain)) (ht : settledTest c d = true) :
    Settled .plain c d := by
  unfold settledTest at ht
  obtain ⟨hfirst,hcall⟩ := (Bool.and_eq_true _ _).mp ht
  obtain ⟨hclient,hmark⟩ := (Bool.and_eq_true _ _).mp hfirst
  refine ⟨?_,?_,?_,?_,getsClient_of_test c d hclient⟩
  · intro o o' ho ho' hlive hdel
    rw [ho,ho'] at hmark
    have hcases : AtLarge c = false ∨ o'.metadata.deletionTimestamp = none := by
      simpa [hlive] using hmark
    rcases hcases with hat | hlive'
    · exact hat
    · rw [hlive'] at hdel
      cases hdel
  · rintro h rc m r o ⟨next,-,hd⟩ ho
    rw [hd,ho] at hcall
    exact of_decide_eq_true hcall
  · rintro h rc n r ⟨next,-,hd⟩
    rw [hd] at hcall
    have hfound : foundTest (worldOf c) r = true := hcall
    exact of_decide_eq_true hfound
  · rintro h rc id ⟨next,-,hd⟩ hex
    rw [hd] at hcall
    have hno : (!decide ((worldOf d).Exists id)) = true := hcall
    simp [hex] at hno

/-- A connected session is deleted. -/
theorem no_cluster_left_deleted : ∃ c : Config (system .plain),
    (system .plain).ReachableBy (Settled .plain) c ∧ c.server.current = none ∧
    (worldOf c).created = ["c-0"] ∧ ∀ id ∈ (worldOf c).created, ¬(worldOf c).Exists id := by
  obtain ⟨c,hc,hp⟩ := System.exists_tested settledTest (start_emptyWorld .plain)
    (deleted ++ [job .plain (20*second : ℤ) noFault (fun _ => none)])
    (fun c => c.server.current.isNone && decide ((worldOf c).created = ["c-0"])) (by decide +kernel)
  obtain ⟨hgone,hcreated⟩ := (Bool.and_eq_true _ _).mp hp
  have hc := hc.mono settled_of_test
  have hgone := Option.isNone_iff_eq_none.mp hgone
  exact ⟨c,hc,hgone,of_decide_eq_true hcreated,(no_cluster_left .plain c hc).2 hgone⟩

/-- Writes are refused once a cluster was created. -/
def refuseAfterCreate (h : History interface) : Option ApiError :=
  if h.any fun ev => match ev.call with
    | .inr (.rancher _ (.createCluster _)) => true
    | _ => false
  then some ⟨.conflict,"the object has been modified"⟩ else none

/-- The status is refused after `CreateCluster`, and then the session is deleted. -/
theorem cluster_leaked : ∃ c : Config (system .plain),
    (system .plain).ReachableBy (GetsClient .plain fun _ => True) c ∧ c.server.current = none ∧
    ∃ id ∈ (worldOf c).created, (worldOf c).Exists id := by
  obtain ⟨c,hc,hp⟩ := System.exists_tested clientTest (start_emptyWorld .plain)
    [.create newSession,job .plain 0 noFault (fun _ => none),
      job .plain 0 noFault refuseAfterCreate,.markDeleted (10*second : ℤ),
      job .plain (20*second : ℤ) noFault (fun _ => none)]
    (fun c => c.server.current.isNone && decide ("c-0" ∈ (worldOf c).created ∧
      (worldOf c).Exists "c-0")) (by decide +kernel)
  obtain ⟨hgone,hleft⟩ := (Bool.and_eq_true _ _).mp hp
  obtain ⟨hcreated,hexists⟩ := of_decide_eq_true hleft
  exact ⟨c,hc.mono getsClient_of_test,Option.isNone_iff_eq_none.mp hgone,"c-0",hcreated,hexists⟩

end LosantDevice.Session

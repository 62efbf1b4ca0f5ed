import LosantDevice.Session.Cleanup

/-!
# What a stored status says

`ConnectedAt` and `ExpiresAt` have one meaning while the agent is awaited and another once the
session is connected. Each is written together with the phase it belongs to, and the handlers that
only report an error leave both alone. The TTL is multiplied in 64 bits.
-/
namespace LosantDevice.Session
open Effect Kube Go Program

variable {lib : Externals} {σ : System rancherSession calls (Except String Result)} {c : Config σ}
  {o b : RancherSession}

/-- A job stored the phase `Connected`, with the times that `o` has, from its copy `b`. -/
def ConnectedFrom (c : Config σ) (o b : RancherSession) : Prop :=
  b.metadata.uid = o.metadata.uid ∧ b.status.phase = .connecting ∧
    ∃ h ∈ c.histories, ∃ a v k, ⟨.inl (.updateStatus a),.ok v⟩::k <:+ h ∧ lastCopy k = some b ∧
      a.status.phase = .connected ∧ storedTime a.status.connectedAt = o.status.connectedAt ∧
      storedTime a.status.expiresAt = o.status.expiresAt

/-- How the fields of a stored status hang together. -/
structure Consistent (c : Config σ) (o : RancherSession) : Prop where
  applied : o.status.manifestApplied = true → o.status.rancherClusterID ≠ "" ∧
    o.status.connectedAt.isSome ∧ o.status.expiresAt.isSome
  connected : o.status.phase = .connected → o.status.manifestApplied = true ∧
    ∃ b, ConnectedFrom c o b ∧ ∃ t : Time, o.status.connectedAt = some t ∧
      o.status.expiresAt = some ((t : ℤ)+b.spec.ttlSeconds*second : ℤ)
  connecting : o.status.phase = .connecting → o.status.manifestApplied = true →
    ∃ t : Time, o.status.connectedAt = some t ∧
      o.status.expiresAt = some ((t : ℤ)+agentReadyTimeout : ℤ)

structure StatusInvariant (c : Config σ) : Prop where
  consistent : ∀ o, some o ∈ c.server.log → Consistent c o
  monotone : ∀ o l o', some o::l <:+ c.server.log → some o' ∈ l →
    o'.metadata.uid = o.metadata.uid → o'.status.manifestApplied = true →
    o.status.manifestApplied = true

/-- If the session may become connected, a `time.Duration` can hold its TTL. -/
def TTLFits (b : RancherSession) : Prop :=
  b.status.phase = .connecting → b.status.manifestApplied = true →
    minDuration ≤ b.spec.ttlSeconds*second ∧ b.spec.ttlSeconds*second ≤ maxDuration

instance (b : RancherSession) : Decidable (TTLFits b) := by unfold TTLFits; infer_instance

/-- Rancher names its clusters. -/
def Named (c d : Config σ) : Prop :=
  ∀ h e r id, σ.Answered c d h e r → adopts ⟨.inr e,r⟩ = some id → id ≠ ""

/-- And no TTL that is read overflows. -/
structure Bounded (c d : Config σ) : Prop where
  named : Named c d
  ttl : ∀ b, σ.Read c d b → TTLFits b

/-! ## One write -/

theorem Consistent.of_not_applied (ha : o.status.manifestApplied = false)
    (hp : o.status.phase ≠ .connected) : Consistent c o where
  applied h := by
    rw [ha] at h
    cases h
  connected h := absurd h hp
  connecting _ h := by
    rw [ha] at h
    cases h

theorem Consistent.of_initial (hi : o.status = {}) : Consistent c o := by
  refine .of_not_applied ?_ ?_
  · rw [hi]
  · rw [hi]
    exact nofun

/-- A status that keeps the times and, if they mean something, the phase. -/
theorem Consistent.carry (hb : Consistent c b) (huid : o.metadata.uid = b.metadata.uid)
    (happlied : o.status.manifestApplied = b.status.manifestApplied)
    (hfrom : o.status.connectedAt = b.status.connectedAt)
    (huntil : o.status.expiresAt = b.status.expiresAt)
    (hid : b.status.rancherClusterID ≠ "" → o.status.rancherClusterID ≠ "")
    (hphase : o.status.phase = b.status.phase ∨
      o.status.phase ≠ .connected ∧ o.status.phase ≠ .connecting) : Consistent c o where
  applied h := by
    rw [happlied] at h
    obtain ⟨hne,hf,hu⟩ := hb.applied h
    rw [hfrom,huntil]
    exact ⟨hid hne,hf,hu⟩
  connected h := by
    rcases hphase with hp | ⟨hp,-⟩
    · obtain ⟨ha,b₀,⟨hu₀,hp₀,hw⟩,ht⟩ := hb.connected (hp.symm.trans h)
      unfold ConnectedFrom
      rw [happlied,hfrom,huntil,huid]
      exact ⟨ha,b₀,⟨hu₀,hp₀,hw⟩,ht⟩
    · exact absurd h hp
  connecting h ha := by
    rcases hphase with hp | ⟨-,hp⟩
    · rw [hfrom,huntil]
      exact hb.connecting (hp.symm.trans h) (happlied.symm.trans ha)
    · exact absurd h hp

section write
variable {a : RancherSession} {k : Past} {v : ℕ}

theorem Consistent.kept (hb : Consistent c b) (henc : b.status.encode = b.status)
    (hm : a.metadata = b.metadata) (hk : Kept k b a.status)
    (hne : ∀ id, (view k).adopted = some id → id ≠ "")
    (hphase : a.status.phase = b.status.phase ∨
      a.status.phase ≠ .connected ∧ a.status.phase ≠ .connecting) : Consistent c (a.stored v) := by
  have hfrom : storedTime b.status.connectedAt = b.status.connectedAt :=
    congrArg RancherSessionStatus.connectedAt henc
  have huntil : storedTime b.status.expiresAt = b.status.expiresAt :=
    congrArg RancherSessionStatus.expiresAt henc
  have huid : a.metadata.uid = b.metadata.uid := congrArg Metadata.uid hm
  refine hb.carry huid hk.applied ?_ ?_ ?_ hphase
  · exact (congrArg storedTime hk.connectedAt).trans hfrom
  · exact (congrArg storedTime hk.expiresAt).trans huntil
  · intro hid
    change a.status.rancherClusterID ≠ ""
    rw [hk.id]
    cases hv : (view k).adopted with
    | none => exact hid
    | some id => exact hne id hv

/-- The phase changes and nothing else that matters. -/
theorem kept_phase (hv : (view k).adopted = none) {t : RancherSessionStatus}
    (ht : t.rancherClusterID = b.status.rancherClusterID ∧
      t.manifestApplied = b.status.manifestApplied ∧ t.connectedAt = b.status.connectedAt ∧
      t.expiresAt = b.status.expiresAt) : Kept k b t := by
  refine ⟨?_,ht.2.1,ht.2.2.1,ht.2.2.2⟩
  rw [hv]
  exact ht.1

/-- The two times as they are stored. -/
theorem stored_times {now : Time} {n : ℤ} (hadm : a.status.Admitted)
    (hfrom : a.status.connectedAt = some now)
    (huntil : a.status.expiresAt = some ((now : ℤ)+n*second : ℤ)) :
    (a.stored v).status.connectedAt = some (truncateSecond now) ∧
      (a.stored v).status.expiresAt = some ((truncateSecond now : ℤ)+n*second : ℤ) := by
  change storedTime a.status.connectedAt = _ ∧ storedTime a.status.expiresAt = _
  rw [hfrom,huntil,storedTime_some (hadm.1 _ hfrom),storedTime_some (hadm.2.1 _ huntil),
    truncateSecond_add_seconds]
  exact ⟨rfl,rfl⟩

/-- Every status a job writes is consistent if the one in its copy is. -/
theorem StatusWrite.consistent (hw : StatusWrite lib k b a.status) (hb : Consistent c b)
    (hunset : b.status.phase = .unset → b.status.manifestApplied = false)
    (henc : b.status.encode = b.status) (hm : a.metadata = b.metadata) (hadm : a.status.Admitted)
    (hne : ∀ id, (view k).adopted = some id → id ≠ "")
    (hfits : Reading k b → TTLFits b) (hcopy : lastCopy k = some b)
    (hmade : ∃ h ∈ c.histories, ⟨.inl (.updateStatus a),.ok v⟩::k <:+ h) :
    Consistent c (a.stored v) := by
  generalize hst : a.status = t at hw
  cases hw with
  | connecting hr hl hs =>
    have happlied : b.status.manifestApplied = false := by
      rcases hs with hu | ⟨-,hna⟩
      · exact hunset hu
      · exact hna
    refine .of_not_applied ?_ ?_
    · change a.status.manifestApplied = false
      rw [hst]
      exact happlied
    · change a.status.phase ≠ .connected
      rw [hst]
      exact nofun
  | manifest now hc hp hid ha hfrom huntil =>
    subst hst
    have htimes : (a.stored v).status.connectedAt = some (truncateSecond now) ∧
        (a.stored v).status.expiresAt = some ((truncateSecond now : ℤ)+agentReadyTimeout : ℤ) :=
      stored_times hadm hfrom huntil
    refine ⟨fun _ => ⟨hne _ hid,?_,?_⟩,fun h => ?_,fun _ _ => ⟨_,htimes⟩⟩
    · rw [htimes.1]
      rfl
    · rw [htimes.2]
      rfl
    · cases hp.symm.trans h
  | connected now hr hl hbefore hp hid ha hfrom huntil =>
    subst hst
    obtain ⟨hmin,hmax⟩ := hfits hr hbefore.1 hbefore.2
    rw [wrapInt64_eq_self hmin hmax] at huntil
    have htimes : (a.stored v).status.connectedAt = some (truncateSecond now) ∧
        (a.stored v).status.expiresAt =
          some ((truncateSecond now : ℤ)+b.spec.ttlSeconds*second : ℤ) :=
      stored_times hadm hfrom huntil
    have huid : b.metadata.uid = a.metadata.uid := congrArg Metadata.uid hm.symm
    obtain ⟨h,hh,hsuf⟩ := hmade
    refine ⟨fun _ => ⟨?_,?_,?_⟩,fun _ => ⟨ha,b,⟨huid,hbefore.1,h,hh,a,v,k,hsuf,hcopy,hp,rfl,rfl⟩,
      _,htimes⟩,fun h => ?_⟩
    · change a.status.rancherClusterID ≠ ""
      rw [hid]
      exact (hb.applied hbefore.2).1
    · rw [htimes.1]
      rfl
    · rw [htimes.2]
      rfl
    · cases hp.symm.trans h
  | disconnecting hr hbefore =>
    refine hb.kept henc hm (kept_phase (by rw [hr.view]) ?_) hne ?_
    · rw [hst]
      exact ⟨rfl,rfl,rfl,rfl⟩
    · rw [hst]
      exact .inr ⟨nofun,nofun⟩
  | disconnected hc hg hcl =>
    refine hb.kept henc hm (kept_phase hc.adopted.1 ?_) hne ?_
    · rw [hst]
      exact ⟨rfl,rfl,rfl,rfl⟩
    · rw [hst]
      exact .inr ⟨nofun,nofun⟩
  | unreachable hs hp hk =>
    subst hst
    exact hb.kept henc hm hk hne (.inl hp)
  | failed hc hp hk =>
    subst hst
    refine hb.kept henc hm hk hne (.inr ?_)
    rw [hp]
    exact ⟨nofun,nofun⟩

end write

/-! ## The whole log -/

/-- No job stores the phase that a new object has. -/
theorem StatusWrite.phase_ne {h : Past} {t : RancherSessionStatus} (hw : StatusWrite lib h b t) :
    t.phase ≠ .unset := by
  cases hw with
  | connecting | disconnecting | disconnected => exact nofun
  | manifest _ _ hp | connected _ _ _ _ hp | failed _ hp =>
    rw [hp]
    exact nofun
  | unreachable hs hp =>
    rw [hp]
    rcases hs with hc | hc | ⟨-,-,hc⟩
    · rw [hc.phase]
      exact nofun
    · rw [hc.phase]
      exact nofun
    · rw [hc]
      exact nofun

/-- No job takes back that the manifest was applied. -/
theorem StatusWrite.applied {h : Past} {t : RancherSessionStatus} (hw : StatusWrite lib h b t)
    (hunset : b.status.phase = .unset → b.status.manifestApplied = false)
    (hb : b.status.manifestApplied = true) : t.manifestApplied = true := by
  cases hw with
  | connecting _ _ hs =>
    rcases hs with hu | ⟨-,hna⟩
    · exact absurd hb (by simp [hunset hu])
    · exact absurd hb (by simp [hna])
  | manifest _ _ _ _ ha | connected _ _ _ _ _ _ ha => exact ha
  | disconnecting | disconnected => exact hb
  | unreachable _ _ hk | failed _ _ hk => exact hk.applied.trans hb

/-- An object without a phase is as it was created. -/
theorem unset_initial (ht : c.Traced (Permits lib)) (ho : some o ∈ c.server.log)
    (hu : o.status.phase = .unset) : o.status = {} := by
  rcases ht.status_written (List.suffix_refl _) ho with hi | ⟨h,hh,a,v,k,hk,hst⟩
  · exact hi
  · obtain ⟨b,-,-,-,hw⟩ := ht.allowed hh hk
    rw [hst] at hu
    exact absurd hu hw.phase_ne

theorem unset_not_applied (ht : c.Traced (Permits lib)) (ho : some o ∈ c.server.log)
    (hu : o.status.phase = .unset) : o.status.manifestApplied = false := by
  rw [unset_initial ht ho hu]

theorem consistent_log (ht : c.Traced (Permits lib))
    (hnamed : ∀ h ∈ c.histories, ∀ ev ∈ h, ∀ id, adopts ev = some id → id ≠ "")
    (hfits : ∀ h ∈ c.histories, ∀ b, (⟨.inl .get,.ok b⟩ : Event interface) ∈ h → TTLFits b)
    {l : List (Option RancherSession)} (hl : some o::l <:+ c.server.log) : Consistent c o := by
  induction l generalizing o with
  | nil =>
    cases ht.origin hl with
    | created _ hbare => exact .of_initial hbare.2.2
  | cons x l ih =>
    have hrest : x::l <:+ c.server.log := (List.suffix_cons _ _).trans hl
    cases ht.origin hl with
    | created _ hbare => exact .of_initial hbare.2.2
    | user hu hst _ _ =>
      refine (ih hrest).carry hu ?_ ?_ ?_ ?_ (.inl ?_)
      all_goals rw [hst]
      exact id
    | @status a b _ h k v hh hk hcopy hm _ hadm =>
      obtain ⟨b',hb',-,-,hw⟩ := ht.allowed hh hk
      obtain rfl := Option.some.inj (hcopy.symm.trans hb')
      have hmem : some b ∈ c.server.log := hrest.subset List.mem_cons_self
      have hkh : k <:+ h := (List.suffix_cons _ _).trans hk
      refine hw.consistent (ih hrest) (unset_not_applied ht hmem)
        (ht.server.encoded hmem) hm hadm ?_
        ?_ hcopy ⟨h,hh,hk⟩
      · intro id hid
        obtain ⟨ev,hev,ha⟩ := adopts_of_adopted hid
        exact hnamed h hh ev (hkh.subset hev) id ha
      · intro hr
        exact hfits h hh b (hkh.subset (read_of_lastCopy hr.copy hr.fresh))
    | object _ _ _ _ hkept =>
      have heq := hkept o rfl
      refine (ih hrest).carry ?_ ?_ ?_ ?_ ?_ (.inl ?_)
      all_goals rw [heq]
      exact id

theorem applied_monotone (ht : c.Traced (Permits lib)) {l : List (Option RancherSession)}
    {o' : RancherSession} (hl : some o::l <:+ c.server.log) (ho' : some o' ∈ l)
    (hu : o'.metadata.uid = o.metadata.uid) (ha : o'.status.manifestApplied = true) :
    o.status.manifestApplied = true := by
  refine ht.inherits (P := fun o => o.status.manifestApplied = true) ?_ hl ho' hu ha
  intro o b l hl hu hb
  have hmem : some b ∈ c.server.log := ((List.suffix_cons _ _).trans hl).subset List.mem_cons_self
  rcases ht.status_step hl hu with hst | ⟨h,hh,a,v,k,hk,hcopy,rfl⟩
  · rw [hst]
    exact hb
  · obtain ⟨b',hb',-,-,hw⟩ := ht.allowed hh hk
    obtain rfl := Option.some.inj (hcopy.symm.trans hb')
    exact hw.applied (unset_not_applied ht hmem) hb

/-- Every stored status, after any reconciles, edits, deletions and failures. -/
theorem status_invariant (lib : Externals) (σ : System rancherSession calls (Except String Result))
    (hmain : σ.main = reconcile lib) (c : Config σ) (hc : σ.ReachableBy Bounded c) :
    StatusInvariant c := by
  have ht := traced hmain hc.reachable
  have hnamed : ∀ h ∈ c.histories, ∀ ev ∈ h, ∀ id, adopts ev = some id → id ≠ "" := by
    intro h hh ev hev
    obtain ⟨l₁,l,rfl⟩ := List.append_of_mem hev
    refine System.ReachableBy.events (Q := fun _ ev => ∀ id, adopts ev = some id → id ≠ "") ?_ hc hh
      (List.suffix_append l₁ _)
    intro c d h e next r _ _ hp hj hj' id hid
    cases e with
    | inl e => cases e <;> cases hid
    | inr e => exact hp.named h e r id ⟨next,hj,hj'⟩ hid
  refine ⟨fun o ho => ?_,fun o l o' => applied_monotone ht⟩
  obtain ⟨l₁,l,hl⟩ := List.append_of_mem ho
  refine consistent_log ht hnamed (fun h hh b hb => ?_) (hl ▸ List.suffix_append l₁ (some o::l))
  exact System.ReachableBy.reads (fun hp => hp.ttl _) hc hh hb

/-- The cluster that was just found or created has a name. -/
def namedTest (_ d : Config (system .plain)) : Bool :=
  d.job.all fun j => j.1.head?.all fun ev => adopts ev ≠ some ""

theorem named_of_test (c d : Config (system .plain)) (ht : namedTest c d = true) : Named c d := by
  rintro h e r id ⟨next,-,hd⟩ hid rfl
  unfold namedTest at ht
  rw [hd] at ht
  exact of_decide_eq_true ht hid

/-- The TTL that was just read fits. -/
def boundedTest (c d : Config (system .plain)) : Bool :=
  namedTest c d && d.job.all fun j => j.1.head?.all fun ev =>
    match ev with
    | ⟨.inl .get,r⟩ =>
      match (r : Except ApiError RancherSession) with
      | .ok b => TTLFits b
      | .error _ => true
    | _ => true

theorem bounded_of_test (c d : Config (system .plain)) (h : boundedTest c d = true) :
    Bounded c d := by
  obtain ⟨hnamed,httl⟩ := (Bool.and_eq_true _ _).mp h
  refine ⟨named_of_test c d hnamed,?_⟩
  rintro b ⟨h,next,-,hd⟩
  rw [hd] at httl
  exact of_decide_eq_true httl

theorem status_invariant_connected : ∃ c : Config (system .plain),
    (system .plain).ReachableBy Bounded c ∧
    (∃ o, c.server.current = some o ∧ o.status.phase = .connected) ∧ StatusInvariant c := by
  obtain ⟨c,hc,hp⟩ := System.exists_tested boundedTest (start_emptyWorld .plain) connect
    (fun c => c.server.current.any fun o => o.status.phase = .connected) (by decide +kernel)
  obtain ⟨o,ho,hp⟩ := (Option.any_eq_true _ _).mp hp
  have hc := hc.mono bounded_of_test
  exact ⟨c,hc,⟨o,ho,of_decide_eq_true hp⟩,status_invariant .plain (system .plain) rfl c hc⟩

/-- A TTL of 292 years and some months. -/
def longSession : RancherSession :=
  { newSession with spec := { newSession.spec with ttlSeconds := 9223372037 } }

/-- It wraps around: the session has expired before it is connected, and the difference of the
stored times is neither the TTL nor what the multiplication made of it. -/
theorem overflowing_ttl : ∃ c : Config (system .plain), (system .plain).ReachableBy Named c ∧
    ¬StatusInvariant c ∧ ∃ o t u, c.server.current = some o ∧ o.status.phase = .connected ∧
      o.spec.ttlSeconds = 9223372037 ∧ o.status.connectedAt = some t ∧
      o.status.expiresAt = some u ∧ (u : ℤ) < t ∧
      (u : ℤ) ≠ t+wrapInt64 (o.spec.ttlSeconds*second) := by
  obtain ⟨c,hc,hp⟩ := System.exists_tested namedTest (start_emptyWorld .plain)
    (.create longSession::connect.tail)
    (fun c => c.server.current.any (fun o : RancherSession => decide (o.status.phase = .connected ∧
      o.spec.ttlSeconds = 9223372037 ∧ o.status.connectedAt = some (0 : ℤ) ∧
      o.status.expiresAt = some (-9223372037*second : ℤ))) &&
      c.server.log.all fun x => x.all fun b : RancherSession =>
        b.spec.ttlSeconds = 9223372037) (by decide +kernel)
  obtain ⟨hcur,hlog⟩ := (Bool.and_eq_true _ _).mp hp
  obtain ⟨o,ho,hst⟩ := (Option.any_eq_true _ _).mp hcur
  obtain ⟨hphase,httl,hfrom,huntil⟩ := of_decide_eq_true hst
  have hc := hc.mono named_of_test
  refine ⟨c,hc,?_,o,_,_,ho,hphase,httl,hfrom,huntil,by decide,by rw [httl]; decide⟩
  intro hinv
  obtain ⟨-,b,⟨-,-,h,hh,a,v,k,hk,hcopy,-⟩,t,ht,hu⟩ :=
    (hinv.consistent o (Server.mem_of_current ho)).connected hphase
  obtain ⟨m,hm⟩ := (traced (σ := system .plain) rfl hc.reachable).copies hh
    ((List.suffix_cons _ _).trans hk) hcopy
  have hb : b.spec.ttlSeconds = 9223372037 :=
    of_decide_eq_true (List.all_eq_true.mp hlog _ (hm.subset List.mem_cons_self))
  rw [hfrom] at ht
  rw [huntil,hb,← Option.some.inj ht] at hu
  exact absurd (Option.some.inj hu) (by decide)

end LosantDevice.Session

import LosantDevice.Session.Obeys
import LosantDevice.Session.Interrupted

/-!
# The order of a cleanup

The cluster is deleted first and then the namespace; only when both are gone is the phase
`Disconnected` stored or the finalizer removed. When one of the deletions fails the job goes no
further, and unless it had no client the stored phase is `Disconnecting`.
-/
namespace LosantDevice.Session
open Effect Kube Go Program

variable {lib : Externals} {h : Past} {σ : System rancherSession calls (Except String Result)}
  {c : Config σ}

/-! ## Deletions that fail -/

def Failing (h : Past) : Prop := ∃ ev ∈ h, failsDeletion ev = true

theorem failing_iff : Failing h ↔ (view h).failed = true := by
  induction h with
  | nil => simp [Failing,view]
  | cons ev h ih =>
    change _ ↔ (observe ev (view h)).failed = true
    rw [observe_failed,Bool.or_eq_true,← ih]
    simp [Failing]

theorem not_failing (hv : (view h).failed = false) : ¬Failing h := by
  rw [failing_iff,hv]
  decide

/-! ## A job after a failed deletion -/

/-- Every call of the history was permitted when it was made. -/
def Allowed (lib : Externals) (h : Past) : Prop := ∀ ev k, ev::k <:+ h → Permits lib k ev.call

theorem Allowed.tail {ev : Event interface} (ha : Allowed lib (ev::h)) : Allowed lib h :=
  fun ev' k hk => ha ev' k (hk.trans (List.suffix_cons _ _))

theorem Allowed.head {ev : Event interface} (ha : Allowed lib (ev::h)) : Permits lib h ev.call :=
  ha ev h (List.suffix_refl _)

/-- The job has deleted the namespace of the agent, or found that it is gone. -/
def NamespaceDeleted (h : Past) : Prop :=
  ∃ r, (⟨.inr (.deleteNamespace cattleSystemNamespace),r⟩ : Event interface) ∈ h ∧
    World.namespaceGone r = true

theorem namespaceDeleted_of_wiped (ha : Allowed lib h) (hw : (view h).wiped = true) :
    NamespaceDeleted h := by
  induction h with
  | nil => cases hw
  | cons ev h ih =>
    rcases wiped_cons hw with ⟨n,r,rfl,hr⟩ | hw
    · obtain rfl : n = cattleSystemNamespace := ha.head.1
      exact ⟨r,List.mem_cons_self,hr⟩
    · obtain ⟨r,hev,hr⟩ := ih ha.tail hw
      exact ⟨r,List.mem_cons_of_mem _ hev,hr⟩

/-- The job owns a copy that is being cleaned up. -/
def Held (h : Past) (b : RancherSession) : Prop :=
  lastCopy h = some b ∧ owned h = true ∧ b.status.phase = .disconnecting ∧
    rancherFinalizer ∈ b.metadata.finalizers

theorem Cleaning.isHeld {b : RancherSession} (hc : Cleaning h b) : Held h b := by
  refine ⟨hc.copy,hc.owned,hc.phase,?_⟩
  rcases hc.held with hl | hcl
  · exact hl.held
  · exact hcl.held

/-- The only status that is written after a failed deletion keeps the phase. -/
theorem StatusWrite.held {b : RancherSession} {t : RancherSessionStatus}
    (hw : StatusWrite lib h b t) (hf : (view h).failed = true) :
    Held h b ∧ t.phase = .disconnecting := by
  have hread : ¬Reading h b := by
    intro hr
    rw [hr.view] at hf
    cases hf
  have hconn : ¬Connecting h b := by
    intro hc
    rw [hc.clean.2] at hf
    cases hf
  cases hw with
  | connecting hr => exact absurd hr hread
  | manifest _ hc => exact absurd hc hconn
  | connected _ hr => exact absurd hr hread
  | disconnecting hr => exact absurd hr hread
  | disconnected _ hg =>
    rw [hg.2] at hf
    cases hf
  | unreachable hs hp =>
    rcases hs with hc | hc | ⟨hr,-⟩
    · exact absurd hc hconn
    · exact ⟨hc.isHeld,hp.trans hc.phase⟩
    · exact absurd hr hread
  | failed hc =>
    cases hc with
    | unusable hr => exact absurd hr hread
    | timedOut hr => exact absurd hr hread
    | spoiled hc => exact absurd hc hconn

/-- After a failed deletion the job owns a copy with the phase `Disconnecting`, or it had no
client. -/
theorem held_of_failed (ha : Allowed lib h) (hf : (view h).failed = true) :
    ∃ b, Held h b ∨ lastCopy h = some b ∧ owned h = false ∧ ∃ e, Unusable lib h b e := by
  induction h with
  | nil => cases hf
  | cons ev h ih =>
    have hperm := ha.head
    obtain ⟨e,r⟩ := ev
    match e with
    | .inl .get =>
      obtain rfl : h = [] := hperm
      cases hf
    | .inl (.update o) =>
      have hf : (view h).failed = true := hf
      obtain ⟨b,-,⟨hr,-⟩ | hrel⟩ := hperm
      · rw [hr.view] at hf
        cases hf
      · rw [hrel.gone.2] at hf
        cases hf
    | .inl (.updateStatus o) =>
      cases r with
      | error err =>
        obtain ⟨b,hheld | ⟨hb,hown,e,hu⟩⟩ := ih ha.tail hf
        · exact ⟨b,.inl hheld⟩
        · exact ⟨b,.inr ⟨hb,hown,e,(hu.later (List.suffix_cons _ _))⟩⟩
      | ok v =>
        obtain ⟨b,-,hm,-,hw⟩ := hperm
        obtain ⟨⟨-,-,-,hfin⟩,hphase⟩ := hw.held hf
        refine ⟨o.stored v,.inl ⟨rfl,rfl,hphase,?_⟩⟩
        change rancherFinalizer ∈ o.metadata.finalizers
        rw [hm]
        exact hfin
    | .inr e =>
      have hsplit : failsDeletion ⟨.inr e,r⟩ = true ∨ (view h).failed = true := by
        have hf := hf
        change (observe _ _).failed = true at hf
        rwa [observe_failed,Bool.or_eq_true] at hf
      rcases hsplit with hfails | hf
      · rcases exists_of_failsDeletion hfails with ⟨rc,id,r',hev⟩ | ⟨n,r',hev⟩
        · cases hev
          obtain ⟨b,hc,-⟩ := hperm
          exact ⟨b,.inl hc.isHeld⟩
        · cases hev
          obtain ⟨-,-,b,⟨hc,-⟩ | ⟨hr,-,e,hu⟩⟩ := hperm
          · exact ⟨b,.inl hc.isHeld⟩
          · exact ⟨b,.inr ⟨hr.copy,hr.fresh,e,(hu.later (List.suffix_cons _ _))⟩⟩
      · obtain ⟨b,hheld | ⟨hb,hown,e,hu⟩⟩ := ih ha.tail hf
        · exact ⟨b,.inl hheld⟩
        · exact ⟨b,.inr ⟨hb,hown,e,(hu.later (List.suffix_cons _ _))⟩⟩

/-! ## Every run -/

theorem traced (hmain : σ.main = reconcile lib) (hc : σ.Reachable c) : c.Traced (Permits lib) :=
  System.Reachable.traced Permits.disciplined (hmain ▸ reconcile_obeys lib) hc

theorem owns (hmain : σ.main = reconcile lib) (hc : σ.Reachable c) : c.Owns :=
  System.Reachable.owns Permits.disciplined (hmain ▸ reconcile_obeys lib) hc

theorem allowed_of_mem (ht : c.Traced (Permits lib)) (hh : h ∈ c.histories) : Allowed lib h :=
  fun _ _ hk => ht.allowed hh hk

/-- How the cleanups of a run went. -/
structure CleanupOrdered (lib : Externals) (c : Config σ) : Prop where
  disconnected : ∀ h ∈ c.histories, ∀ a r k, ⟨.inl (.updateStatus a),r⟩::k <:+ h →
    a.status.phase = .disconnected → Cleaned k a ∧ ¬Failing k
  released : ∀ h ∈ c.histories, ∀ o r k b, ⟨.inl (.update o),r⟩::k <:+ h → lastCopy k = some b →
    rancherFinalizer ∈ b.metadata.finalizers → rancherFinalizer ∉ o.metadata.finalizers →
    (Cleaned k b ∨ ∃ e, Unusable lib k b e) ∧ ¬Failing k
  stays : ∀ h p, c.job = some (h,p) → Failing h →
    (∃ o, c.server.current = some o ∧ rancherFinalizer ∈ o.metadata.finalizers ∧
      o.status.phase = .disconnecting) ∨ ∃ b e, lastCopy h = some b ∧ Unusable lib h b e
  namespaces : ∀ h ∈ c.histories, ∀ n r,
    (⟨.inr (.deleteNamespace n),r⟩ : Event interface) ∈ h → n = cattleSystemNamespace
  clusters : ∀ h ∈ c.histories, ∀ rc id r k, ⟨.inr (.rancher rc (.deleteCluster id)),r⟩::k <:+ h →
    ∃ b, lastCopy k = some b ∧ some b ∈ c.server.log ∧ id = b.status.rancherClusterID

theorem StatusWrite.of_disconnected {b : RancherSession} {t : RancherSessionStatus}
    (hw : StatusWrite lib h b t) (hp : t.phase = .disconnected) :
    t.rancherClusterID = b.status.rancherClusterID ∧ Cleaned h b ∧ (view h).failed = false := by
  cases hw with
  | connecting => cases hp
  | manifest _ _ hc => rw [hc] at hp; cases hp
  | connected _ _ _ _ hc => rw [hc] at hp; cases hp
  | disconnecting => cases hp
  | disconnected _ hg hc => exact ⟨rfl,hc,hg.2⟩
  | unreachable hs hk =>
    rw [hk] at hp
    rcases hs with hc | hc | ⟨-,-,hc⟩
    · rw [hc.phase] at hp; cases hp
    · rw [hc.phase] at hp; cases hp
    · rw [hc] at hp; cases hp
  | failed _ hf => rw [hf] at hp; cases hp

/-- Whatever fails, and whatever users do. -/
theorem cleanup_ordered (lib : Externals) (σ : System rancherSession calls (Except String Result))
    (hmain : σ.main = reconcile lib) (c : Config σ) (hc : σ.Reachable c) :
    CleanupOrdered lib c := by
  have ht := traced hmain hc
  refine ⟨?_,?_,?_,?_,?_⟩
  · intro h hh a r k hk hp
    obtain ⟨b,-,-,-,hw⟩ := ht.allowed hh hk
    obtain ⟨hid,⟨r',k',hk',hg,hcl⟩,hf⟩ := hw.of_disconnected hp
    refine ⟨⟨r',k',hk',hg,?_⟩,not_failing hf⟩
    unfold Cleared
    rw [hid]
    exact hcl
  · intro h hh o r k b hk hb hin hout
    obtain ⟨b',hb',⟨-,-,hnot,-⟩ | hrel⟩ := ht.allowed hh hk
    · obtain rfl := Option.some.inj (hb.symm.trans hb')
      exact absurd hin hnot
    · obtain rfl := Option.some.inj (hb.symm.trans hb')
      refine ⟨?_,not_failing hrel.gone.2⟩
      rcases hrel.cleaned with ⟨-,-,hcl⟩ | ⟨-,e,hu,-⟩
      · exact .inl hcl
      · exact .inr ⟨e,hu⟩
  · intro h p hj hf
    have hall := allowed_of_mem ht (Config.mem_histories hj)
    obtain ⟨b,⟨hb,hown,hphase,hfin⟩ | ⟨hb,-,e,hu⟩⟩ := held_of_failed hall (failing_iff.mp hf)
    · obtain ⟨o,ho,-,hfo,hst⟩ := owns hmain hc h p b hj hown hb (List.ne_nil_of_mem hfin)
      refine .inl ⟨o,ho,?_,?_⟩
      · rw [hfo]
        exact hfin
      · rw [hst]
        exact hphase
    · exact .inr ⟨b,e,hb,hu⟩
  · intro h hh n r hm
    obtain ⟨l₁,k,rfl⟩ := List.append_of_mem hm
    exact (ht.allowed hh (List.suffix_append l₁ _)).1
  · intro h hh rc id r k hk
    obtain ⟨b,hcl,-,hid,-⟩ := ht.allowed hh hk
    obtain ⟨m,hm⟩ := ht.copies hh ((List.suffix_cons _ _).trans hk) hcl.copy
    exact ⟨b,hcl.copy,hm.subset List.mem_cons_self,hid⟩

/-- A session expires and is disconnected. -/
def expire : List (system .plain).Act :=
  connect ++ [job .plain (3601*second : ℤ) noFault (fun _ => none)]

theorem start_emptyWorld (lib : Externals) : (system lib).start emptyWorld :=
  ⟨rfl,rfl,by simp [emptyWorld]⟩

/-- The cluster of the expired session is gone. -/
theorem cleanup_ordered_expired : ∃ c : Config (system .plain), (system .plain).Reachable c ∧
    (∃ o, c.server.current = some o ∧ o.status.phase = .disconnected ∧
      ¬(worldOf c).Exists o.status.rancherClusterID) ∧ CleanupOrdered .plain c := by
  obtain ⟨c,o,hc,ho,hp⟩ := System.exists_reachable (start_emptyWorld .plain) expire
    (fun c o => decide (o.status.phase = .disconnected ∧
      ¬(worldOf c).Exists o.status.rancherClusterID)) (by decide +kernel)
  exact ⟨c,hc,⟨o,ho,of_decide_eq_true hp⟩,cleanup_ordered .plain (system .plain) rfl c hc⟩

/-- The Secret is gone and the namespace cannot be deleted. -/
def noSecretNoNamespace : (e : Call) → Option (calls.Answer e)
  | .getSecret _ => some (.error ⟨.notFound,"secrets not found"⟩)
  | .deleteNamespace _ => some (.error ⟨.other,"internal error"⟩)
  | _ => none

/-- A user deletes the disconnected session after its Secret. The deletion of the namespace fails,
and the stored phase is still `Disconnected`. -/
theorem disconnected_after_failure : ∃ c : Config (system .plain), (system .plain).Reachable c ∧
    ∃ h past o, c.past = h::past ∧ Failing h ∧ c.job = none ∧ c.server.current = some o ∧
      o.metadata.deletionTimestamp.isSome ∧ o.status.phase = .disconnected := by
  obtain ⟨c,hc,hp⟩ := System.exists_config (start_emptyWorld .plain)
    (expire ++ [.markDeleted (3700*second : ℤ),
      job .plain (3701*second : ℤ) noSecretNoNamespace (fun _ => none)])
    (fun c => c.past.head?.any (fun h => h.any failsDeletion) && c.job.isNone &&
      c.server.current.any fun o => o.metadata.deletionTimestamp.isSome ∧
        o.status.phase = .disconnected) (by decide +kernel)
  simp only [Bool.and_eq_true] at hp
  obtain ⟨⟨hfail,hjob⟩,hcur⟩ := hp
  obtain ⟨h,hh,hany⟩ := (Option.any_eq_true _ _).mp hfail
  obtain ⟨o,ho,hst⟩ := (Option.any_eq_true _ _).mp hcur
  obtain ⟨past,hpast⟩ := List.head?_eq_some_iff.mp hh
  exact ⟨c,hc,h,past,o,hpast,List.any_eq_true.mp hany,Option.isNone_iff_eq_none.mp hjob,ho,
    of_decide_eq_true hst⟩

end LosantDevice.Session

import LosantDevice.Kube.Replicas
import LosantDevice.Sync.Finalizer

/-!
# Several reconcilers of one LosantSync

What the stored statuses say and how an object leaves does not depend on there being one job at a
time: it holds without leader election too, and with caches that lag behind in any way.
-/
namespace LosantDevice.Sync
open Effect Kube Go

variable {lib : Externals} {σ : System losantSync calls (Except String Result)} {c : Replicas σ}

theorem traced_replicas (hmain : σ.main = reconcile lib) (hc : Replicas.Reachable σ c) :
    c.merged.Traced fun h e => Permits h e ∧ Tells lib h e :=
  hc.traced (fun h e hp => hp.1.disciplined h e)
    (hmain ▸ (reconcile_obeys lib).and (reconcile_telling lib))

/-- With any number of jobs at once, every stored status is honest, the bootstrap is not forgotten,
a sync is recorded on the state it has worked on, and an object for which a job has provisioned
anything goes only when a single job has had all its recorded devices deleted. -/
theorem replicas_honest (lib : Externals) (σ : System losantSync calls (Except String Result))
    (hmain : σ.main = reconcile lib) (c : Replicas σ) (hc : Replicas.Reachable σ c) :
    (∀ o, some o ∈ c.log → HonestStatus lib c.merged o.status) ∧
    (∀ o l o', some o::l <:+ c.log → some o' ∈ l → o'.metadata.uid = o.metadata.uid →
      HasStatus o'.status.conditions .geaBootstrapped .true →
      HasStatus o.status.conditions .geaBootstrapped .true) ∧
    (∀ o b l, some o::some b::l <:+ c.log → o.metadata.uid = b.metadata.uid →
      o.status.lastSyncTime ≠ b.status.lastSyncTime →
      ∃ h ∈ c.merged.histories, ∃ a k, EndedBy h a k ∧ lastCopy k = some b ∧
        o.status = a.status.encode ∧ Reported k o.status) ∧
    (∀ h ∈ c.merged.histories, ∀ ev k b x l, ev::k <:+ h → Provisions ev.call →
      lastCopy k = some b → none::some x::l <:+ c.log → b.metadata.uid = x.metadata.uid →
      ∃ h' ∈ c.merged.histories, ReleasedBy h' x) := by
  have ht := (traced_replicas hmain hc).mono fun _ _ h => h.1
  refine ⟨fun o ho => honestStatus (traced_replicas hmain hc) ho,?_,?_,?_⟩
  · intro o l o' hl ho' hu hb
    exact ht.inherits (P := fun o => HasStatus o.status.conditions .geaBootstrapped .true)
      (fun hl hu hb => bootstrapped_step ht hl hu hb) hl ho' hu hb
  · intro o b l hl hu hne
    exact (lastSync_step ht hl hu hne).2
  · intro h hh ev k b x l hev hprov hb hl hu
    exact released_of_provisioned ht hh hev hprov hb hl hu

/-- Two jobs are started on an object that is active. -/
theorem replicas_honest_two : ∃ c : Replicas (anyAnswers .plain),
    Replicas.Reachable (anyAnswers .plain) c ∧ c.jobs.length = 2 ∧
    ∃ o, some o ∈ c.log ∧ o.status.phase = .active ∧ HonestStatus .plain c.merged o.status := by
  obtain ⟨c,o,hc,ho,hphase⟩ := System.exists_reachable (σ := anyAnswers .plain) (w := ()) trivial
    [.create newSync,smoothJob .plain,smoothJob .plain,smoothJob .plain]
    (fun c o => decide (o.status.phase = .active) && c.job.isNone) rfl
  obtain ⟨hphase,hnone⟩ := Bool.and_eq_true_iff.mp hphase
  have hc := ((Replicas.reachable_single hc).step .start).step .start
  have ho := Server.mem_of_current ho
  refine ⟨_,hc,?_,o,ho,of_decide_eq_true hphase,(replicas_honest .plain _ rfl _ hc).1 o ho⟩
  change c.job.toList.length+2 = 2
  rw [Option.isNone_iff_eq_none.mp hnone]
  rfl

end LosantDevice.Sync

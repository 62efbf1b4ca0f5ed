import LosantDevice.Kube.Replicas
import LosantDevice.Session.Manifest
import LosantDevice.Session.Phases

/-!
# Several reconcilers of one session

The phases of a session, what it says about the manifest and how it is cleaned up and released are
the same with any number of jobs at once.
-/
namespace LosantDevice.Session
open Effect Kube Go

/-- What the states of a session tell about the jobs. -/
structure Accountable {σ : System rancherSession calls (Except String Result)} (lib : Externals)
    (c : Config σ) : Prop where
  phases : ∀ o b l, some o::some b::l <:+ c.server.log → o.metadata.uid = b.metadata.uid →
    o.status.phase = b.status.phase ∨ Edge b.status.phase o.status.phase
  applied : ∀ o, some o ∈ c.server.log → o.status.manifestApplied = true → Imported c o
  disconnected : ∀ o b l, some o::some b::l <:+ c.server.log → o.metadata.uid = b.metadata.uid →
    o.status.phase = .disconnected → b.status.phase ≠ .disconnected →
    ∃ h ∈ c.histories, ∃ k, k <:+ h ∧ lastCopy k = some b ∧ Cleaned k b ∧ ¬Failing k
  gone : ∀ x l, none::some x::l <:+ c.server.log → rancherFinalizer ∈ x.metadata.finalizers →
    ∃ h ∈ c.histories, ∃ k, k <:+ h ∧ lastCopy k = some x ∧
      (Cleaned k x ∨ NamespaceDeleted k ∧ ∃ e, Unusable lib k x e) ∧ ¬Failing k

section traced
variable {lib : Externals} {σ : System rancherSession calls (Except String Result)} {c : Config σ}
  {o b x : RancherSession} {l : List (Option RancherSession)}

theorem cleaned_of_disconnected (ht : c.Traced (Permits lib))
    (hl : some o::some b::l <:+ c.server.log) (hu : o.metadata.uid = b.metadata.uid)
    (hp : o.status.phase = .disconnected) (hb : b.status.phase ≠ .disconnected) :
    ∃ h ∈ c.histories, ∃ k, k <:+ h ∧ lastCopy k = some b ∧ Cleaned k b ∧ ¬Failing k := by
  rcases ht.status_step hl hu with hst | ⟨h,hh,a,v,k,hk,hcopy,rfl⟩
  · rw [hst] at hp
    exact absurd hp hb
  · obtain ⟨b',hb',-,-,hw⟩ := ht.allowed hh hk
    obtain rfl := Option.some.inj (hcopy.symm.trans hb')
    obtain ⟨-,hcl,hf⟩ := hw.of_disconnected hp
    exact ⟨h,hh,k,(List.suffix_cons _ _).trans hk,hcopy,hcl,not_failing hf⟩

theorem cleaned_of_gone (ht : c.Traced (Permits lib)) (hl : none::some x::l <:+ c.server.log)
    (hx : rancherFinalizer ∈ x.metadata.finalizers) :
    ∃ h ∈ c.histories, ∃ k, k <:+ h ∧ lastCopy k = some x ∧
      (Cleaned k x ∨ NamespaceDeleted k ∧ ∃ e, Unusable lib k x e) ∧ ¬Failing k := by
  cases ht.origin hl with
  | removed hf =>
    rw [hf] at hx
    cases hx
  | @object o _ _ h k v _ hh hk hcopy _ _ =>
    obtain ⟨b,hb,⟨-,-,hnot,-⟩ | hrel⟩ := ht.allowed hh hk
    · obtain rfl := Option.some.inj (hcopy.symm.trans hb)
      exact absurd hx hnot
    · obtain rfl := Option.some.inj (hcopy.symm.trans hb)
      refine ⟨h,hh,k,(List.suffix_cons _ _).trans hk,hcopy,?_,not_failing hrel.gone.2⟩
      rcases hrel.cleaned with ⟨-,-,hcl⟩ | ⟨-,e,hu,-⟩
      · exact .inl hcl
      · have hallowed : Allowed lib k := fun ev m hm =>
          ht.allowed hh (hm.trans ((List.suffix_cons _ _).trans hk))
        exact .inr ⟨namespaceDeleted_of_wiped hallowed hrel.gone.1,e,hu⟩

end traced

/-- In every run of any number of jobs at once. -/
theorem replicas_accountable (lib : Externals)
    (σ : System rancherSession calls (Except String Result)) (hmain : σ.main = reconcile lib)
    (c : Replicas σ) (hc : Replicas.Reachable σ c) : Accountable lib c.merged := by
  have hobeys : Program.Obeys (Permits lib) Returns [] σ.main := hmain ▸ reconcile_obeys lib
  have ht := hc.traced (fun h e hp => Permits.disciplined h e hp) hobeys
  refine ⟨?_,?_,?_,?_⟩
  · exact fun o b l hl hu => edge_of_states ht hl hu
  · exact fun o ho ha => imported_of_applied ht (List.suffix_refl _) ho ha
  · exact fun o b l hl hu hp hb => cleaned_of_disconnected ht hl hu hp hb
  · exact fun x l hl hx => cleaned_of_gone ht hl hx

/-- Two jobs are started on a session that is connected. -/
theorem replicas_accountable_two : ∃ c : Replicas (system .plain),
    Replicas.Reachable (system .plain) c ∧ c.jobs.length = 2 ∧
    ∃ o, some o ∈ c.log ∧ o.status.phase = .connected ∧ o.status.manifestApplied = true ∧
      Imported c.merged o := by
  obtain ⟨c,o,hc,ho,hp⟩ := System.exists_reachable (start_emptyWorld .plain) connect
    (fun c o => decide (o.status.phase = .connected) && o.status.manifestApplied && c.job.isNone)
    (by decide +kernel)
  simp only [Bool.and_eq_true] at hp
  obtain ⟨⟨hphase,happlied⟩,hnone⟩ := hp
  have hc := ((Replicas.reachable_single hc).step .start).step .start
  have ho := Server.mem_of_current ho
  refine ⟨_,hc,?_,o,ho,of_decide_eq_true hphase,happlied,
    (replicas_accountable .plain _ rfl _ hc).applied o ho happlied⟩
  change c.job.toList.length+2 = 2
  rw [Option.isNone_iff_eq_none.mp hnone]
  rfl

end LosantDevice.Session

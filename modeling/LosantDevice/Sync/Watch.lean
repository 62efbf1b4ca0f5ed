import LosantDevice.Kube.Advance
import LosantDevice.Kube.Settled
import LosantDevice.Sync.Obeys
import LosantDevice.Sync.World

/-!
# When a `LosantSync` is left alone

`SetupWithManager` of `internal/controller/losantsync_controller.go` lets an update through only if
the generation has changed, so a job does not hear of the statuses it writes. Nothing else wakes
the controller up: an object rests until its spec is edited once a job on it has ended without
asking for more.
-/
namespace LosantDevice.Sync
open Effect Kube Go Program

/-- A job that ends without an error has read its object, and returns as that object says. -/
def Concludes (lib : Externals) (h : Past) (r : Except String Result) : Prop :=
  ∀ res, r = .ok res → ∃ x, Manager.readOf h = some x ∧ ∀ b, x = some b → Returns lib b h r

theorem reconcile_concludes (lib : Externals) :
    Obeys Permits (Concludes lib) [] (reconcile lib) := by
  refine ⟨rfl,?_⟩
  rintro (err | (b : LosantSync))
  · change Obeys _ _ _ (if err.reason = .notFound then _ else _)
    by_cases he : err.reason = .notFound
    · rw [if_pos he]
      intro res _
      refine ⟨none,?_,fun b hb => nomatch hb⟩
      change (if err.reason = .notFound then some none else none) = _
      rw [if_pos he]
    · rw [if_neg he]
      exact fun res hr => nomatch hr
  · refine ((reconcileObject_good lib b).later (List.suffix_refl _)).mono (fun _ _ hp => hp) ?_
    rintro h r ⟨hr,hs⟩ res hres
    refine ⟨some b,Manager.readOf_of_suffix hs,?_⟩
    rintro _ ⟨⟩
    exact hr

/-- In every run of the process, whatever the order of edits, notices, jobs, retries and restarts,
and however the calls are answered: a live object that is not suspended is left at rest only if the
last job that came to its end worked on its spec as it is and was overtaken by its own schedule. -/
theorem left_alone_overdue {lib : Externals} {σ : System losantSync calls (Except String Result)}
    (hmain : σ.main = reconcile lib) {m : Manager σ}
    (h : Manager.Reachable Manager.generationChanged m) (hrests : m.Rests) {o : LosantSync}
    (ho : m.config.server.current = some o) (hlive : o.metadata.deletionTimestamp = none)
    (hrunning : o.spec.suspend = false) :
    ∃ k res b, m.last = some (k,.ok res) ∧ k ∈ m.config.past ∧
      Manager.readOf k = some (some b) ∧ b.metadata.uid = o.metadata.uid ∧ b.spec = o.spec ∧
      ¬OnTime lib b k := by
  have hobeys : Obeys Permits (Concludes lib) [] σ.main := hmain ▸ reconcile_concludes lib
  have hsettled := h.settled (Manager.sifts_generationChanged Permits.disciplined hobeys)
    Permits.disciplined hobeys (fun k res hk => (hk res rfl).imp fun _ hx => hx.1) hrests
  rw [ho] at hsettled
  rcases hsettled with hnone | ⟨k,res,x,hlast,hmem,hend,hres,hx,hsame⟩
  · cases hnone
  · cases x with
    | none => exact hsame.elim
    | some b =>
      obtain ⟨huid,hspec,hdel⟩ := hsame
      refine ⟨k,res,b,hlast,hmem,hx,huid,hspec,fun honTime => hres ?_⟩
      obtain ⟨x,hx',hret⟩ := hend res rfl
      have hb : x = some b := Option.some.inj (hx'.symm.trans hx)
      exact (hret b hb (hdel.trans hlive) (by rw [hspec]; exact hrunning) res rfl).mpr honTime

/-- An object with an interval of zero. -/
def zeroSync : LosantSync := { newSync with spec := { newSync.spec with interval := "0s" } }

/-- Every call works at the time `t`, and the Secrets are not there. -/
def worksAt (lib : Externals) (site : Site) (t : Time) : (system lib site).Script where
  refuse _ := none
  serve _ w e := World.serve t w e
  sound h := World.answers_of_serve h

/-- The process of the object with the interval of zero. -/
def zeroProcess : Manager (system .plain edgeSite) :=
  (Manager.starting emptyWorld zeroSync).advances Manager.generationChanged
    (worksAt .plain edgeSite 0) 60

/-- The first job adds the finalizer, the second makes the phase `Provisioning`, and the third
finds no Secret. -/
theorem left_alone_overdue_zeroInterval : ∃ (m : Manager (system .plain edgeSite)) (o : LosantSync),
    m.Rests ∧ m.config.server.current = some o ∧ o.status.phase = .degraded ∧
      ∃ k res b, m.last = some (k,.ok res) ∧ k ∈ m.config.past ∧
        Manager.readOf k = some (some b) ∧ b.metadata.uid = o.metadata.uid ∧ b.spec = o.spec ∧
        ¬OnTime .plain b k := by
  have hr : Manager.Reachable Manager.generationChanged zeroProcess :=
    (Manager.reachable_starting start_emptyWorld ⟨rfl,rfl,rfl⟩).advances 60
  have htest : zeroProcess.resting = true ∧ (zeroProcess.config.server.current.any fun o =>
      o.metadata.deletionTimestamp = none ∧ o.spec.suspend = false ∧ o.status.phase = .degraded) =
        true := by decide +kernel
  obtain ⟨hrest,hcur⟩ := htest
  obtain ⟨o,ho,hp⟩ := (Option.any_eq_true _ _).mp hcur
  obtain ⟨hlive,hrun,hphase⟩ := of_decide_eq_true hp
  have hrests := Manager.rests_of_resting hrest
  exact ⟨_,o,hrests,ho,hphase,left_alone_overdue rfl hr hrests ho hlive hrun⟩

end LosantDevice.Sync

import LosantDevice.Sync.Obeys

/-!
# When a reconcile is run again

A job that ends without an error asks the queue for another run exactly if the instant it is to
be resumed at is later than the last reading of the clock. A schedule can fail to name such an
instant: an interval may be zero or negative, and time may pass between the reading from which
the next time is computed and the one from which the delay is.
-/
namespace LosantDevice.Sync
open Effect Kube Go Program

/-- For every object that is neither being deleted nor suspended, every schedule, all answers
and all readings of the clock. -/
theorem asksAgain_iff_onTime (lib : Externals) (s : Strategy interface) (b : LosantSync)
    (res : Result) (hread : s [] (.inl .get) = .ok b)
    (hlive : b.metadata.deletionTimestamp = none) (hrunning : b.spec.suspend = false)
    (hres : (run s [] (reconcile lib)).2 = .ok res) :
    res.AsksAgain ↔ OnTime lib b (run s [] (reconcile lib)).1 := by
  rw [run_reconcile lib s hread] at hres ⊢
  exact (reconcileObject_good lib b).ends s hlive hrunning res hres

/-! ## A run that is never taken up again -/

/-- The provisioning Secret is missing; the clock moves on by one second with each call. -/
noncomputable def secretMissing (b : LosantSync) : Strategy interface
  | _,.inl .get => .ok b
  | h,.inl (.updateStatus _) => .ok h.length
  | h,.inr (.now _) => (h.length*second : ℤ)
  | _,.inr (.getSecret _) => .error ⟨.notFound,"secrets not found"⟩
  | _,e => Classical.choice (nonempty_answer e)

/-- A provisioned object whose spec has this interval. -/
def every (interval : String) : LosantSync where
  metadata :=
    { name := "edge", uid := 1, resourceVersion := 3, generation := 1, finalizers := [finalizer]
      deletionTimestamp := none }
  spec :=
    { applicationID := "app", provisioningSecretRef := ⟨"losant","default"⟩, clusterName := "edge"
      region := "eu", interval, gea := { serviceRef := "gea", port := 8080 } }
  status := { phase := .provisioning, nextScheduledTime := some (0 : ℤ) }

theorem secretMissing_fiveMinutes :
    (run (secretMissing (every "5m")) [] (reconcile .plain)).2 =
      .ok { requeueAfter := (300000000000 : ℤ) } := by rfl

/-- With an interval of zero the job that finds its Secret missing ends for good. -/
theorem zeroInterval_stalls :
    secretMissing (every "0s") [] (.inl .get) = .ok (every "0s") ∧
      (every "0s").metadata.deletionTimestamp = none ∧ (every "0s").spec.suspend = false ∧
      (readings (run (secretMissing (every "0s")) [] (reconcile .plain)).1).Pairwise
        (fun later earlier : ℤ => earlier ≤ later) ∧
      (run (secretMissing (every "0s")) [] (reconcile .plain)).2 = .ok {} ∧
      ¬Result.AsksAgain {} := by
  refine ⟨rfl,rfl,rfl,?_,rfl,by decide⟩
  change List.Pairwise _ [(4*second : ℤ),3*second,2*second]
  decide

/-- With an interval of five minutes the same job is taken up again. -/
theorem fiveMinutes_asksAgain :
    Result.AsksAgain { requeueAfter := (300000000000 : ℤ) } ∧
      OnTime .plain (every "5m") (run (secretMissing (every "5m")) [] (reconcile .plain)).1 := by
  have hasks : Result.AsksAgain { requeueAfter := (300000000000 : ℤ) } := by decide
  exact ⟨hasks,(asksAgain_iff_onTime .plain (secretMissing (every "5m")) (every "5m") _ rfl rfl rfl
    secretMissing_fiveMinutes).mp hasks⟩

end LosantDevice.Sync

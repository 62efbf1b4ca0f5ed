import LosantDevice.Session.Interrupted

/-!
# The end of a connected session

`handleConnected` compares the time of expiry with one reading of the clock and computes what is
left of the session from a later one. In between it asks Rancher for the cluster.
-/
namespace LosantDevice.Session
open Effect Kube Go Program

section expiry
variable (lib : Externals) (c : Rancher.HTTPClient) (rs : RancherSession)
  (s : Strategy interface) (h : History interface)

/-- What the clock shows when it is read after the history. -/
def clockAt (site : Clock) : Time := s h (.inr (.now site))

/-- The reading at the check of the expiry. -/
def firstReading : Time := clockAt s h .ttlCheck

def afterCheck : History interface := ⟨.inr (.now .ttlCheck),firstReading s h⟩::h

/-- The outcome of `GetCluster`. -/
def clusterAnswer : Except Rancher.Error Unit :=
  s (afterCheck s h) (.inr (.rancher c (.getCluster rs.status.rancherClusterID)))

/-- Without a recorded cluster Rancher is not asked. -/
def afterLookup : History interface :=
  if rs.status.rancherClusterID ≠ "" then
    ⟨.inr (.rancher c (.getCluster rs.status.rancherClusterID)),
      clusterAnswer c rs s h⟩::afterCheck s h
  else afterCheck s h

/-- The reading from which the rest of the session is computed. -/
def secondReading : Time := clockAt s (afterLookup c rs s h) .ttlLeft

/-- `handleConnected` goes on as the cleanup. -/
def CleansUp : Prop :=
  ∃ h', h <:+ h' ∧ run s h (handleConnected lib c rs) = run s h' (runCleanup lib (some c) rs)

/-- It cleans up, fails or asks to be run again later. -/
def Armed : Prop :=
  CleansUp lib c rs s h ∨ (∃ err, (run s h (handleConnected lib c rs)).2 = .error err) ∨
    ∃ r, (run s h (handleConnected lib c rs)).2 = .ok r ∧ (0 : ℤ) < r.requeueAfter

variable {lib c rs s h}

theorem setAPIUnreachable_asksAgain (reason message : String) (h : History interface) :
    (∃ err, (run s h (setAPIUnreachable lib rs reason message)).2 = .error err) ∨
      (run s h (setAPIUnreachable lib rs reason message)).2 =
        .ok { requeueAfter := rancherErrorRequeueWait } := by
  have hends : Obeys (fun _ _ => True) (fun _ r => (∃ err, r = .error err) ∨
      r = .ok { requeueAfter := rancherErrorRequeueWait }) h
      (setAPIUnreachable lib rs reason message) := by
    refine ⟨trivial,fun t => ⟨trivial,?_⟩⟩
    rintro (err | v)
    · exact .inl ⟨_,rfl⟩
    · exact .inr rfl
  exact hends.ends s

variable {e : Time} (he : rs.status.expiresAt = some e)
include he

theorem run_handleConnected : run s h (handleConnected lib c rs) =
    run s (afterCheck s h) (if e < firstReading s h then runCleanup lib (some c) rs
      else checkCluster lib c rs) := by
  unfold handleConnected
  rw [he]
  rfl

theorem run_awaitExpiry (hist : History interface) : run s hist (awaitExpiry rs) =
    (⟨.inr (.now .ttlLeft),clockAt s hist .ttlLeft⟩::hist,
      if clockAt s hist .ttlLeft < e then
        .ok { requeueAfter := timeUntil e (clockAt s hist .ttlLeft) }
      else .ok {}) := by
  unfold awaitExpiry
  rw [he]
  change run s (⟨.inr (.now .ttlLeft),clockAt s hist .ttlLeft⟩::hist)
    (if (0 : ℤ) < timeUntil e (clockAt s hist .ttlLeft) then _ else _) = _
  by_cases hlt : clockAt s hist .ttlLeft < e
  · rw [if_pos (timeUntil_pos.mpr hlt),if_pos hlt]
    rfl
  · rw [if_neg (fun h => hlt (timeUntil_pos.mp h)),if_neg hlt]
    rfl

omit he in
/-- The cleanup begins with a write of the status. -/
theorem suffix_runCleanup (h' : History interface) : ∃ o r,
    ⟨.inl (.updateStatus o),r⟩::h' <:+ (run s h' (runCleanup lib (some c) rs)).1 :=
  ⟨_,_,suffix_run s _ _⟩

omit he in
/-- `checkCluster` when there is a cluster to ask for. -/
theorem run_lookup (hid : rs.status.rancherClusterID ≠ "") :
    run s (afterCheck s h) (checkCluster lib c rs) = run s (afterLookup c rs s h)
      (match clusterAnswer c rs s h with
      | .error err => if err.notFound then runCleanup lib (some c) rs
        else setAPIUnreachable lib rs "GetClusterFailed" err.text
      | .ok _ => awaitExpiry rs) := by
  unfold checkCluster afterLookup
  rw [if_pos hid,if_pos hid]
  generalize hr : clusterAnswer c rs s h = r
  refine (run_answer (h := afterCheck s h) hr).trans ?_
  cases r <;> rfl

omit he in
/-- Nobody is asked, or the cluster is there. -/
theorem run_known (hknown : rs.status.rancherClusterID = "" ∨ clusterAnswer c rs s h = .ok ()) :
    run s (afterCheck s h) (checkCluster lib c rs) =
      run s (afterLookup c rs s h) (awaitExpiry rs) := by
  by_cases hid : rs.status.rancherClusterID = ""
  · unfold checkCluster afterLookup
    rw [if_neg (not_not_intro hid),if_neg (not_not_intro hid)]
  · rw [run_lookup hid,hknown.resolve_left hid]

omit he in
theorem suffix_afterLookup : h <:+ afterLookup c rs s h := by
  unfold afterLookup
  split
  · exact (List.suffix_cons _ _).trans (List.suffix_cons _ _)
  · exact List.suffix_cons _ _

omit he in
theorem armed_of_failed {err : Rancher.Error} (hid : rs.status.rancherClusterID ≠ "")
    (hanswer : clusterAnswer c rs s h = .error err)
    (hrun : run s h (handleConnected lib c rs) = run s (afterCheck s h) (checkCluster lib c rs)) :
    Armed lib c rs s h := by
  rw [run_lookup hid,hanswer] at hrun
  by_cases hgone : err.notFound
  · refine .inl ⟨afterLookup c rs s h,suffix_afterLookup,?_⟩
    rw [hrun]
    simp only [if_pos hgone]
  · simp only [if_neg hgone] at hrun
    refine .inr ?_
    rw [hrun]
    refine (setAPIUnreachable_asksAgain _ _ _).imp id ?_
    intro hok
    exact ⟨_,hok,by decide⟩

omit he in
/-- The run ends with a reading of the clock and no delay. -/
theorem not_armed {r : calls.Answer (.now .ttlLeft)} (hrun : run s h (handleConnected lib c rs) =
    (⟨.inr (.now .ttlLeft),r⟩::afterLookup c rs s h,.ok {})) : ¬Armed lib c rs s h := by
  rintro (⟨h',hh,heq⟩ | ⟨err,herr⟩ | ⟨res,hres,hpos⟩)
  · obtain ⟨o,r',hsuf⟩ : ∃ o r', ⟨.inl (.updateStatus o),r'⟩::h' <:+
        (run s h' (runCleanup lib (some c) rs)).1 := suffix_runCleanup h'
    rw [← heq,hrun] at hsuf
    -- Only the clock and Rancher were asked.
    unfold afterLookup at hsuf
    split at hsuf
    · rcases call_mem_of_suffix (l := [_,_,_]) hh hsuf with _ | ⟨_,_ | ⟨_,_ | ⟨_,hmem⟩⟩⟩
      cases hmem
    · rcases call_mem_of_suffix (l := [_,_]) hh hsuf with _ | ⟨_,_ | ⟨_,hmem⟩⟩
      cases hmem
  · rw [hrun] at herr
    cases herr
  · rw [hrun] at hres
    cases hres
    exact absurd hpos (by decide)

end expiry

/-- Exactly if the session expires between the two readings, and Rancher still has its cluster or is
not asked, nothing is scheduled. -/
theorem armed_iff (lib : Externals) (c : Rancher.HTTPClient) (rs : RancherSession) {e : Time}
    (he : rs.status.expiresAt = some e) (s : Strategy interface) (h : History interface) :
    Armed lib c rs s h ↔ ¬(firstReading s h ≤ e ∧ e ≤ secondReading c rs s h ∧
      (rs.status.rancherClusterID = "" ∨ clusterAnswer c rs s h = .ok ())) := by
  have hrun : run s h (handleConnected lib c rs) = _ := run_handleConnected he
  by_cases hpast : e < firstReading s h
  · rw [if_pos hpast] at hrun
    refine iff_of_true (.inl ⟨afterCheck s h,List.suffix_cons _ _,hrun⟩) ?_
    exact fun hbad => absurd hbad.1 (not_le.mpr hpast)
  · rw [if_neg hpast] at hrun
    by_cases hknown : rs.status.rancherClusterID = "" ∨ clusterAnswer c rs s h = .ok ()
    · rw [run_known hknown,run_awaitExpiry he] at hrun
      change _ = (_,if secondReading c rs s h < e then _ else _) at hrun
      by_cases hleft : secondReading c rs s h < e
      · rw [if_pos hleft] at hrun
        refine iff_of_true (.inr (.inr ⟨_,by rw [hrun],timeUntil_pos.mpr hleft⟩)) ?_
        exact fun hbad => absurd hbad.2.1 (not_le.mpr hleft)
      · rw [if_neg hleft] at hrun
        refine iff_of_false (not_armed hrun)
          (not_not_intro ⟨not_lt.mp hpast,not_lt.mp hleft,hknown⟩)
    · obtain ⟨hid,hanswer⟩ := not_or.mp hknown
      refine iff_of_true ?_ (fun hbad => hknown hbad.2.2)
      cases ha : clusterAnswer c rs s h with
      | error err => exact armed_of_failed hid ha hrun
      | ok u => exact absurd ha hanswer

/-- The clock is read twice, and every other call works. -/
def readings (t₁ t₂ : Time) : Strategy interface
  | _,.inr (.now .ttlCheck) => t₁
  | _,.inr (.now _) => t₂
  | _,.inr (.rancher _ (.findCluster _)) => .ok none
  | _,.inr (.rancher _ (.createCluster _)) | _,.inr (.rancher _ (.getRegistrationToken _)) =>
    .ok "c-1"
  | _,.inr (.rancher _ (.getCluster _)) | _,.inr (.rancher _ (.deleteCluster _)) => .ok ()
  | _,.inr (.getSecret _) => .ok credentials
  | _,.inr (.fetchManifest _ _) => .response 200 (.ok ⟨[],none⟩)
  | _,.inr (.apply _) | _,.inr (.deleteNamespace _) => .ok ()
  | _,.inr (.getDeployment _) => .ok (1 : ℤ)
  | _,.inl .get => .error ⟨.notFound,"not found"⟩
  | _,.inl (.update _) | _,.inl (.updateStatus _) => .ok (2 : ℕ)

/-- A connected session that ends after 100 seconds. -/
def ending : RancherSession :=
  { newSession with
    metadata := { newSession.metadata with finalizers := [rancherFinalizer] }
    status := { phase := .connected, rancherClusterID := "c-1", expiresAt := some (100*second) } }

def rancherLab : Rancher.HTTPClient := ⟨"https://rancher","token","ca"⟩

/-- Before the end the delay is what is left. -/
theorem armed_before : ending.status.expiresAt = some (100*second) ∧
    Armed .plain rancherLab ending (readings (98*second) (99*second)) [] := by
  refine ⟨rfl,(armed_iff .plain rancherLab ending rfl _ []).mpr ?_⟩
  rintro ⟨-,hlate,-⟩
  exact absurd hlate (by decide)

/-- The session ends while Rancher is asked for its cluster. -/
theorem unarmed_between : ending.status.phase = .connected ∧ ending.spec.suspend = false ∧
    ending.metadata.deletionTimestamp = none ∧ ending.status.expiresAt = some (100*second) ∧
    (run (readings (99*second) (101*second)) [] (handleConnected .plain rancherLab ending)).2 =
      .ok {} ∧
    ¬Armed .plain rancherLab ending (readings (99*second) (101*second)) [] := by
  refine ⟨rfl,rfl,rfl,rfl,rfl,?_⟩
  exact not_armed (r := (101*second : ℤ)) rfl

end LosantDevice.Session

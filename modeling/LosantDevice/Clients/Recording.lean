import LosantDevice.Sync.Honesty
import LosantDevice.Sync.Recording
import LosantDevice.Sync.World
import LosantDevice.Session.Recording

/-!
# Failures in the status

The texts the three clients make of an error response, and the two reconcilers together: a failure
can be recorded exactly if its texts leave room for each other. Nothing bounds the body of a
response, so not every failure can.
-/
namespace LosantDevice
open Effect Kube Go Program

/-- How long the clients' texts for an error response are. -/
structure ErrorTexts : Prop where
  losant (req : Losant.Request) {status : ℕ} (body : String) (decoded : Except String req.Decoded) :
    400 ≤ status → ∃ text, Losant.interpret req (.response status body decoded) = .error text ∧
      text.length = 23+req.method.length+req.path.length+(toString status).length+body.length
  rancher (c : Rancher.HTTPClient) (req : Rancher.Request) {status : ℕ} (body : String)
    (decoded : Except String req.Decoded) : 400 ≤ status → status ≠ 404 →
      ∃ err, c.interpret req (.response status body decoded) = .error err ∧ err.text.length =
        24+req.method.length+(req.path c.baseURL).length+(toString status).length+body.length
  gea (c : Gea.HTTPClient) {status : ℕ} (body : String) : 400 ≤ status →
    ∃ text, c.reported (.response status body) = .error text ∧
      text.length = 20+c.endpoint.length+(toString status).length+body.length

theorem errorTexts : ErrorTexts where
  losant req status body decoded hs := by
    refine ⟨_,if_pos hs,?_⟩
    simp only [String.length_append]
    change 11+_+1+_+9+_+2+_ = _
    omega
  rancher c req status body decoded hs hne := by
    refine ⟨_,(if_neg hne).trans (if_pos hs),?_⟩
    simp only [String.length_append]
    change 12+_+1+_+9+_+2+_ = _
    omega
  gea c status body hs := by
    refine ⟨_,if_pos hs,?_⟩
    simp only [String.length_append]
    change 9+_+9+_+2+_ = _
    omega

/-- Which failures the reconcilers can record, over all their runs. -/
structure FailuresRecorded (lib : Externals) : Prop where
  sync {σ : System losantSync Sync.calls (Except String Result)} {c : Config σ} :
    σ.main = Sync.reconcile lib → σ.Reachable c → Sync.StatusesWorded lib c
  session {σ : System rancherSession Session.calls (Except String Result)} {c : Config σ} :
    σ.main = Session.reconcile lib → σ.Reachable c → Session.StatusesWorded lib c
  texts : ErrorTexts

/-- A status that records a failure keeps to the schema exactly if the words of the reconciler and
the text it was told have at most 32768 characters together; all other statuses do. The statuses
that record one are those of `setDegraded`, `setFailed` and `setAPIUnreachable`. -/
theorem failures_recorded_iff (lib : Externals) : FailuresRecorded lib where
  sync hmain hc := Sync.statuses_worded hmain hc
  session hmain hc := Session.statuses_worded hmain hc
  texts := errorTexts

/-- Every call succeeds, but Losant does not answer. -/
def losantDown : (Sync.anyAnswers .plain).Act := .job
  { refuse := fun _ => none
    serve := fun h _ e =>
      match e with
      | .losant _ .ping => some (.error { text := "dial tcp: connection refused" },())
      | e => (Sync.smooth h e).map (·,())
    sound := fun _ => trivial }

/-- The third reconcile of a new object cannot reach Losant, and what it met is stored. -/
theorem failures_recorded_short : ∃ c, (Sync.anyAnswers .plain).Reachable c ∧
    ∃ o, c.server.current = some o ∧ o.status.phase = .degraded ∧
      ∃ h ∈ c.histories, ∃ a v k, (⟨.inl (.updateStatus a),.ok v⟩::k : Sync.Past) <:+ h ∧
        o.status = a.status.encode ∧ ∃ ty f, Sync.Complains .plain a.spec k ty f ∧
          f.ShownIn a.status.conditions ty ∧ f.size ≤ 32768 := by
  obtain ⟨c,o,hc,ho,hp⟩ := System.exists_reachable (σ := Sync.anyAnswers .plain) (w := ()) trivial
    [.create Sync.newSync,Sync.smoothJob .plain,Sync.smoothJob .plain,losantDown]
    (fun _ o => o.status.phase = .degraded) rfl
  have hphase := of_decide_eq_true hp
  have ht := Sync.traced rfl hc
  have hfits : Fits o.status.conditions := by
    rcases ht.status_admitted (List.suffix_refl _) (Server.mem_of_current ho) with
      hinit | ⟨t,hadmitted,henc⟩
    · rw [hinit]
      exact fits_nil
    · rw [henc]
      exact (Fits.of_admitted hadmitted).encode
  refine ⟨c,hc,o,ho,hphase,?_⟩
  rcases ht.status_written (List.suffix_refl _) (Server.mem_of_current ho) with
    hinit | ⟨h,hh,a,v,k,hk,henc⟩
  · rw [hinit] at hphase
    cases hphase
  · have hrec : a.status.phase = .degraded := by
      rw [henc] at hphase
      exact hphase
    obtain ⟨ty,f,hf,hcomplained⟩ :=
      ((failures_recorded_iff .plain).sync rfl hc h hh a (.ok v) k hk).1 hrec
    rw [henc] at hfits
    exact ⟨h,hh,a,v,k,hk,henc,ty,f,hf,hcomplained.shown,hcomplained.fits.mp hfits.of_encode⟩

/-- A status outside the schema is refused in every state of the server. -/
theorem updateStatus_refused {o : LosantSync} (ho : ¬Fits o.status.conditions)
    (s : Server losantSync) : s.updateStatus o = none := by
  refine if_neg ?_
  intro ha
  exact ho (Fits.of_admitted ha)

/-! ## A long body -/

def longBody : String := String.ofList (List.replicate 32768 'x')

def labClient : Losant.HTTPClient := ⟨"token","app"⟩

/-- Losant answers every request with an error and the long body. -/
def overloaded : Strategy Losant.http := fun _ _ => .response 500 longBody (.error "")

/-- What `Ping` then returns. -/
def pingError : Losant.Error where
  text := "losant api " ++ "GET" ++ " " ++ (Losant.Request.application "app").path ++ ": status " ++
    toString 500 ++ ": " ++ longBody

/-- An object that is held and scheduled. -/
def scheduled : LosantSync :=
  { Sync.newSync with
    metadata := { Sync.newSync.metadata with finalizers := [Sync.finalizer] }
    status := { phase := .provisioning } }

def tokenSecret : StoredSecret := ⟨1,(∅ : GoMap String).insert "api-token" "token"⟩

/-- The status that `setDegraded` hands over. -/
theorem run_setDegraded (lib : Externals) (s : Strategy Sync.interface) (h : Sync.Past)
    (ls : LosantSync) (ty : SyncCondition) (reason message : String) : ∃ o r k,
      (⟨.inl (.updateStatus o),r⟩::k : Sync.Past) <:+
        (run s h (Sync.setDegraded lib ls ty reason message)).1 ∧
      o.status.phase = .degraded ∧ (Fits o.status.conditions → message.length ≤ 32768) := by
  let t₁ : Time := s h (.inr (.now .transition))
  let h₁ : Sync.Past := ⟨.inr (.now .transition),t₁⟩::h
  let t₂ : Time := s h₁ (.inr (.now .transition))
  let h₂ : Sync.Past := ⟨.inr (.now .transition),t₂⟩::h₁
  let ls' : LosantSync := Sync.withCondition lib t₂ (Sync.withCondition lib t₁ { ls with
    status := { ls.status with phase := .degraded } } ty .false reason message)
    .lastSyncSucceeded .false reason message
  have hfits : Fits ls'.status.conditions → message.length ≤ 32768 :=
    fun hf => (Fits.worded lib.conditions t₂ hf).message
  change ∃ o r k, (⟨.inl (.updateStatus o),r⟩::k : Sync.Past) <:+
    (run s h₂ (Sync.nextScheduleAndDuration lib ls'.spec >>= _)).1 ∧ _
  rw [run_bind]
  generalize run s h₂ (Sync.nextScheduleAndDuration lib ls'.spec) = x
  obtain ⟨h₃,err | ⟨next,d⟩⟩ := x
  · exact ⟨ls',_,h₃,suffix_run s _ _,rfl,hfits⟩
  · exact ⟨{ ls' with status := { ls'.status with nextScheduledTime := some next } },_,h₃,
      suffix_run s _ _,rfl,hfits⟩

theorem ping_overloaded :
    (run overloaded [] (labClient.implementation .ping)).2 = .error pingError := rfl

theorem length_longBody : longBody.length = 32768 :=
  String.length_ofList.trans List.length_replicate

theorem pingError_long : 32768 < pingError.text.length := by
  obtain ⟨text,htext,hlen⟩ := errorTexts.losant (.application "app") longBody (.error "")
    (show 400 ≤ 500 by decide)
  have hping : Losant.interpret (.application "app") (.response 500 longBody (.error "")) =
      .error pingError.text := rfl
  rw [Except.error.inj (hping.symm.trans htext),hlen,length_longBody]
  omega

/-- When `Ping` fails with that error, the status is refused whatever the server holds. -/
theorem ping_unrecorded {s : Strategy Sync.interface} (hget : s [] (.inl .get) = .ok scheduled)
    (hsecret : ∀ h ref, s h (.inr (.getSecret ref)) = .ok tokenSecret)
    (hping : ∀ h lc, s h (.inr (.losant lc .ping)) = .error pingError) : ∃ o r k,
      (⟨.inl (.updateStatus o),r⟩::k : Sync.Past) <:+ (run s [] (Sync.reconcile .plain)).1 ∧
      o.status.phase = .degraded ∧ ¬Fits o.status.conditions ∧
      ∀ server : Server losantSync, server.updateStatus o = none := by
  have hread : run s [] (Sync.reconcile .plain) =
      run s [⟨.inl .get,.ok scheduled⟩] (Sync.reconcileObject .plain scheduled) := run_answer hget
  have hobject : Sync.reconcileObject .plain scheduled = Sync.sync .plain scheduled := by
    simp [Sync.reconcileObject,Sync.syncWhenDue,scheduled,Sync.newSync]
  have hclient (h : Sync.Past) : run s h (Sync.sync .plain scheduled) =
      run s (⟨.inr (.getSecret ⟨"default","losant"⟩),.ok tokenSecret⟩::h)
        (Sync.provisionCluster .plain labClient (Gea.newHTTPClient scheduled.spec.gea) scheduled) :=
    run_answer (hsecret h _)
  have hfails (h : Sync.Past) (gc : Gea.HTTPClient) :
      run s h (Sync.provisionCluster .plain labClient gc scheduled) =
        run s (⟨.inr (.losant labClient .ping),.error pingError⟩::h) (Sync.setDegraded .plain
          scheduled .lastSyncSucceeded "LosantUnreachable" pingError.text) :=
    run_answer (hping h labClient)
  obtain ⟨h,hrun⟩ : ∃ h, run s [] (Sync.reconcile .plain) = run s h (Sync.setDegraded .plain
      scheduled .lastSyncSucceeded "LosantUnreachable" pingError.text) :=
    ⟨_,hread.trans (hobject ▸ (hclient _).trans (hfails _ _))⟩
  obtain ⟨o,r,k,hk,hphase,hfits⟩ := run_setDegraded .plain s h scheduled .lastSyncSucceeded
    "LosantUnreachable" pingError.text
  have hlong : ¬Fits o.status.conditions := fun hf => absurd (hfits hf) (not_le.mpr pingError_long)
  rw [hrun]
  exact ⟨o,r,k,hk,hphase,hlong,updateStatus_refused hlong⟩

/-- The object and its Secret can be read, but Losant answers with that body. -/
noncomputable def pingFails : Strategy Sync.interface
  | _,.inl .get => .ok scheduled
  | _,.inr (.getSecret _) => .ok tokenSecret
  | _,.inr (.losant _ .ping) => .error pingError
  | _,e => Classical.choice (Sync.nonempty_answer e)

/-- A response with a body of 32768 characters makes a sync fail without a trace in the status. -/
theorem long_body_unrecorded :
    (run overloaded [] (labClient.implementation .ping)).2 = .error pingError ∧
    ∃ s : Strategy Sync.interface, s [] (.inl .get) = .ok scheduled ∧
      (∀ h lc, s h (.inr (.losant lc .ping)) = .error pingError) ∧ ∃ o r k,
      (⟨.inl (.updateStatus o),r⟩::k : Sync.Past) <:+ (run s [] (Sync.reconcile .plain)).1 ∧
      o.status.phase = .degraded ∧ ¬Fits o.status.conditions ∧
      ∀ server : Server losantSync, server.updateStatus o = none := by
  exact ⟨ping_overloaded,pingFails,rfl,fun _ _ => rfl,
    ping_unrecorded rfl (fun _ _ => rfl) (fun _ _ => rfl)⟩

end LosantDevice

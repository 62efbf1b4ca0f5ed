import LosantDevice.Trigger.Protocol
import LosantDevice.Session.Expiry
import LosantDevice.Session.Outcome

/-!
# How long a session lasts

From the body of a connect request to the time at which the session expires. The number of seconds
passes through unchanged, or as 3600; its nanoseconds are computed in 64 bits when the session
becomes connected.
-/
namespace LosantDevice.Trigger
open Effect Kube Go Program

/-- The seconds a session asked for with `ttlSeconds` is to last. -/
def intendedTTL (ttlSeconds : ℤ) : ℤ := if 0 < ttlSeconds then ttlSeconds else 3600

theorem intendedTTL_pos (ttlSeconds : ℤ) : 0 < intendedTTL ttlSeconds := by
  unfold intendedTTL
  split <;> omega

/-! ## What is created -/

/-- A session is created with the intended TTL only. -/
def CreatesFor (ttlSeconds : ℤ) : interface.Call → Prop
  | .create _ spec => spec.ttlSeconds = intendedTTL ttlSeconds
  | _ => True

theorem handleConnect_creates (srv : Server) (name : String) (ttlSeconds : ℤ)
    (h : History interface) : Obeys (fun _ e => CreatesFor ttlSeconds e) (fun _ _ => True) h
      (srv.handleConnect name ttlSeconds) := by
  have hbranches : (if ttlSeconds ≤ 0 then 3600 else ttlSeconds) = intendedTTL ttlSeconds := by
    unfold intendedTTL
    split_ifs <;> omega
  refine ⟨hbranches,?_⟩
  rintro (err | ⟨⟩)
  · exact .ite trivial trivial
  · trivial

section connect
variable (lib : Externals) (srv : Server) (ttlSeconds : ℤ)

theorem handleRancher_post : srv.handleRancher lib ⟨"POST",some ⟨"connect",ttlSeconds⟩⟩ =
    Server.losantSyncName >>= srv.handleAction lib ⟨"connect",ttlSeconds⟩ :=
  if_neg (not_not_intro rfl)

theorem handleAction_connect (name : String) :
    srv.handleAction lib ⟨"connect",ttlSeconds⟩ (.ok name) = srv.handleConnect name ttlSeconds := by
  rw [Server.handleAction,if_pos rfl]

theorem handleRancher_creates : Obeys (fun _ e => CreatesFor ttlSeconds e) (fun _ _ => True) []
    (srv.handleRancher lib ⟨"POST",some ⟨"connect",ttlSeconds⟩⟩) := by
  rw [handleRancher_post]
  refine ⟨trivial,?_⟩
  rintro (err | _ | ⟨ls,l⟩)
  · trivial
  · trivial
  · change Obeys _ _ _ (srv.handleAction lib ⟨"connect",ttlSeconds⟩ (.ok ls.metadata.name))
    rw [handleAction_connect]
    exact handleConnect_creates srv _ ttlSeconds _

end connect

/-! ## What is stored when it is connected -/

section poll
open Session
variable {lib : Externals} {rs : RancherSession} {h : History Session.interface}

/-- The object, if the event stored it as connected. -/
def connects : Event Session.interface → Option RancherSession
  | ⟨.inl (.updateStatus a),r⟩ =>
    match (r : Except ApiError ℕ) with
    | .ok _ => if a.status.phase = .connected then some a else none
    | .error _ => none
  | _ => none

/-- The times that are stored with it, and when the controller looks at it next. -/
def Lasts (rs : RancherSession) (h : History Session.interface) (x : Except String Result) : Prop :=
  ∀ ev ∈ h, ∀ a, connects ev = some a → ∃ c : Time,
    (⟨.inr (.now .connected),c⟩ : Event Session.interface) ∈ h ∧
    a.status.connectedAt = some c ∧
    a.status.expiresAt = some ((c : ℤ)+wrapInt64 (rs.spec.ttlSeconds*second) : ℤ) ∧
    x = .ok { requeueAfter := wrapInt64 (rs.spec.ttlSeconds*second) }

/-- Nothing was stored as connected so far. -/
def Unconnected (h : History Session.interface) : Prop := ∀ ev ∈ h, connects ev = none

theorem Unconnected.cons {ev : Event Session.interface} (hh : Unconnected h)
    (hev : connects ev = none) : Unconnected (ev::h) := by
  intro ev' hev'
  rcases List.mem_cons.mp hev' with rfl | hev'
  · exact hev
  · exact hh ev' hev'

theorem Unconnected.lasts (hh : Unconnected h) (x : Except String Result) : Lasts rs h x := by
  intro ev hev a ha
  rw [hh ev hev] at ha
  cases ha

theorem unconnected_since {k : History Session.interface} (hs : Since [] k) : Unconnected k := by
  induction hs with
  | refl => simp [Unconnected]
  | call _ ih => exact ih.cons rfl

theorem lasts_of_pollEnds {x : Except String Result} (he : PollEnds rs [] h x) : Lasts rs h x := by
  cases he with
  | refused hs | unread hs | unready hs => exact ((unconnected_since hs).cons rfl).lasts _
  | @failed o v _ _ _ hs hphase =>
    have hother : connects ⟨.inl (.updateStatus o),.ok v⟩ = none :=
      if_neg (by rw [hphase]; exact nofun)
    exact ((unconnected_since hs).cons hother).lasts _
  | connected hs _ hphase hclock hfrom huntil =>
    intro ev hev a ha
    rcases List.mem_cons.mp hev with rfl | hev
    · obtain rfl := Option.some.inj ((if_pos hphase).symm.trans ha)
      exact ⟨_,List.mem_cons_of_mem _ hclock,hfrom,huntil,rfl⟩
    · rw [unconnected_since hs ev hev] at ha
      cases ha

end poll

/-- The session `a` that was stored as connected lasts as long as was asked for, and nothing wrapped
on the way. -/
structure Exact (ttlSeconds : ℤ) (rs a : RancherSession) (h : History Session.interface)
    (x : Except String Result) : Prop where
  unwrapped : wrapInt64 (rs.spec.ttlSeconds*second) = rs.spec.ttlSeconds*second
  expiry : ∃ c : Time, (⟨.inr (.now .connected),c⟩ : Event Session.interface) ∈ h ∧
    a.status.connectedAt = some c ∧
    a.status.expiresAt = some ((c : ℤ)+intendedTTL ttlSeconds*second : ℤ) ∧
    (c : ℤ) < c+intendedTTL ttlSeconds*second
  requeue : x = .ok { requeueAfter := intendedTTL ttlSeconds*second } ∧
    (0 : ℤ) < intendedTTL ttlSeconds*second

/-- For every connect request, the session it creates, and every call of `pollAgentReady` that
stores the session as connected. -/
theorem ttl_exact_iff (lib : Externals) (srv : Server) (ttlSeconds : ℤ) (s : Strategy interface)
    (key : NamespacedName) (spec : RancherSessionSpec)
    (hcreated : (⟨.create key spec,.ok ()⟩ : Event interface) ∈
      (run s [] (srv.handleRancher lib ⟨"POST",some ⟨"connect",ttlSeconds⟩⟩)).1)
    (rs : RancherSession) (hrs : rs.spec = spec) (s' : Strategy Session.interface)
    (ev : Event Session.interface) (hev : ev ∈ (run s' [] (Session.pollAgentReady lib rs)).1)
    (a : RancherSession) (ha : connects ev = some a) :
    Exact ttlSeconds rs a (run s' [] (Session.pollAgentReady lib rs)).1
      (run s' [] (Session.pollAgentReady lib rs)).2 ↔ ttlSeconds ≤ 9223372036 := by
  have hspec : rs.spec.ttlSeconds = intendedTTL ttlSeconds := by
    rw [hrs]
    have hstart : ∀ e ∈ ([] : History interface), CreatesFor ttlSeconds e.call :=
      fun _ h => nomatch h
    exact (handleRancher_creates lib srv ttlSeconds).run_all s hstart _ hcreated
  have hends : Session.EndsIn (Session.PollEnds rs []) [] (Session.pollAgentReady lib rs) :=
    Session.pollAgentReady_outcome
  obtain ⟨c,hclock,hfrom,huntil,hx⟩ := lasts_of_pollEnds (hends.ends s') ev hev a ha
  have hpos := intendedTTL_pos ttlSeconds
  have hnano : (0 : ℤ) < intendedTTL ttlSeconds*second := Int.mul_pos hpos (by decide)
  have hfits : wrapInt64 (rs.spec.ttlSeconds*second) = rs.spec.ttlSeconds*second ↔
      ttlSeconds ≤ 9223372036 := by
    have hmin : minDuration ≤ (0 : ℤ) := by decide
    have hsecond : second = (1000000000 : ℤ) := rfl
    have hmax : maxDuration = (9223372036854775807 : ℤ) := rfl
    rw [wrapInt64_eq_self_iff,hspec,and_iff_right (Int.le_trans hmin hnano.le),hsecond,hmax]
    unfold intendedTTL
    split <;> omega
  constructor
  · exact fun h => hfits.mp h.unwrapped
  · intro hle
    have hunwrapped := hfits.mpr hle
    rw [hunwrapped,hspec] at huntil hx
    exact ⟨hunwrapped,⟨c,hclock,hfrom,huntil,Int.lt_add_of_pos_right _ hnano⟩,hx,hnano⟩

/-- There is one LosantSync, and every call works. -/
def granting : Strategy interface
  | _,.listLosantSyncs => .ok [sync "edge"]
  | _,.create _ _ => .ok ()
  | _,.get _ => .error ⟨.notFound,"not found"⟩
  | _,.delete _ => .ok ()

def losantSystem : Server := ⟨"losant-system"⟩

/-- The spec of the session that is created. -/
def requested (ttlSeconds : ℤ) : RancherSessionSpec :=
  { credentialsSecretRef := ⟨"rancher-credentials","losant-system"⟩
    ttlSeconds := if ttlSeconds ≤ 0 then 3600 else ttlSeconds }

theorem granting_creates (ttlSeconds : ℤ) :
    (⟨.create ⟨"losant-system","edge"⟩ (requested ttlSeconds),.ok ()⟩ : Event interface) ∈
      (run granting []
        (losantSystem.handleRancher .plain ⟨"POST",some ⟨"connect",ttlSeconds⟩⟩)).1 := by
  have hlisted : run granting [] (Server.losantSyncName >>=
      losantSystem.handleAction .plain ⟨"connect",ttlSeconds⟩) =
      run granting [⟨.listLosantSyncs,.ok [sync "edge"]⟩]
        (losantSystem.handleAction .plain ⟨"connect",ttlSeconds⟩ (.ok "edge")) := rfl
  rw [handleRancher_post,hlisted,handleAction_connect]
  exact List.mem_cons_self

/-- The session once its manifest has been applied. -/
def awaiting (ttlSeconds : ℤ) : RancherSession where
  metadata := ⟨"edge",1,3,1,[Session.rancherFinalizer],none⟩
  spec := requested ttlSeconds
  status := { phase := .connecting, rancherClusterID := "c-1", manifestApplied := true }

/-- The call of `pollAgentReady` that finds the agent, 100 seconds after the epoch. -/
def polled (ttlSeconds : ℤ) : History Session.interface × Except String Result :=
  run (Session.readings (100*second) (100*second)) []
    (Session.pollAgentReady .plain (awaiting ttlSeconds))

/-- Asked for without a TTL, a session lasts an hour. -/
theorem ttl_exact_default : ∃ ev ∈ (polled 0).1, ∃ a, connects ev = some a ∧
    a.status.expiresAt = some (3700*second : ℤ) ∧
    Exact 0 (awaiting 0) a (polled 0).1 (polled 0).2 := by
  refine ⟨_,List.mem_cons_self,_,rfl,rfl,?_⟩
  exact (ttl_exact_iff .plain losantSystem 0 granting _ _ (granting_creates 0) (awaiting 0) rfl _ _
    List.mem_cons_self _ rfl).mpr (by decide)

/-- A TTL of 292 years and some months wraps: the session has expired when it is connected, and the
controller is told to look at it again before now. -/
theorem long_ttl_wraps :
    (⟨.create ⟨"losant-system","edge"⟩ (awaiting 9223372037).spec,.ok ()⟩ : Event interface) ∈
      (run granting []
        (losantSystem.handleRancher .plain ⟨"POST",some ⟨"connect",9223372037⟩⟩)).1 ∧
    ∃ ev ∈ (polled 9223372037).1, ∃ a, connects ev = some a ∧
      a.status.connectedAt = some (100*second : ℤ) ∧
      a.status.expiresAt = some (-9223371936709551616 : ℤ) ∧
      (polled 9223372037).2 = .ok { requeueAfter := (-9223372036709551616 : ℤ) } ∧
      ¬Exact 9223372037 (awaiting 9223372037) a (polled 9223372037).1 (polled 9223372037).2 := by
  refine ⟨granting_creates 9223372037,_,List.mem_cons_self,_,rfl,rfl,rfl,rfl,fun h => ?_⟩
  exact absurd h.unwrapped (by decide)

end LosantDevice.Trigger

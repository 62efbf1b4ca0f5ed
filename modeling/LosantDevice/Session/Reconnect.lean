import LosantDevice.Session.Halted

/-!
# Disconnecting and connecting again

To delete the namespace `cattle-system` is only to mark it. Until its termination completes the
objects in it can be read and updated, and the Deployment of the agent still shows its replicas;
only what is not there is not created. The cleanup of a session does not wait for that, so the next
session may meet the namespace of the last.
-/
namespace LosantDevice.Session
open Effect Kube Go Program

/-! ## The namespace -/

/-- The namespace `cattle-system` while it exists. -/
structure CattleSystem where
  terminating : Bool := false
  /-- The kinds and names of its objects. -/
  objects : List (String × String) := []
  /-- The replicas that the Deployment of the agent shows, if it is among them. -/
  availableReplicas : ℤ := 0
  deriving DecidableEq

def agentObject : String × String := ("Deployment",cattleAgentDeployment)

def agentReference : NamespacedName := ⟨cattleSystemNamespace,cattleAgentDeployment⟩

namespace CattleSystem
variable (s : CattleSystem)

/-- What a read of the Deployment shows. -/
def agent : Option ℤ := if agentObject ∈ s.objects then some s.availableReplicas else none

/-- An object that is there is updated. A namespace that terminates takes no new ones, and a new
Deployment has no replicas yet. -/
def apply (x : String × String) : Option CattleSystem :=
  if x ∈ s.objects then some s
  else if s.terminating then none
  else some { s with
    objects := x::s.objects
    availableReplicas := if x = agentObject then 0 else s.availableReplicas }

end CattleSystem

/-- The namespace, and how it was when the Deployment was last found in it. -/
structure Host where
  cattleSystem : Option CattleSystem := none
  observed : Option CattleSystem := none
  deriving DecidableEq

namespace Host
variable (w : Host)

def terminating : Bool := w.cattleSystem.any CattleSystem.terminating

def agent : Option ℤ := w.cattleSystem.bind CattleSystem.agent

/-- The namespace is deleted. -/
def mark : Host := { w with cattleSystem := w.cattleSystem.map ({ · with terminating := true }) }

/-- A document of the manifest is applied, unless it is refused. -/
def apply (d : Document) : Option Host :=
  if d.kind = "Namespace" ∧ d.name = cattleSystemNamespace then
    some { w with cattleSystem := some (w.cattleSystem.getD {}) }
  else if d.namespace_ = cattleSystemNamespace then
    (w.cattleSystem.bind (·.apply (d.kind,d.name))).map ({ w with cattleSystem := some · })
  else some w

/-- Other namespaces and Deployments are left out. A call that returns an error may still have taken
effect. -/
def answers : (e : Call) → calls.Answer e → Host → Prop
  | .apply d,r,w' =>
    match (r : Except ApiError Unit) with
    | .ok _ => w.apply d = some w'
    | .error _ => w' = w ∨ w.apply d = some w'
  | .getDeployment ref,r,w' =>
    match (r : Except ApiError ℤ) with
    | .ok n => ref = agentReference ∧ w.agent = some n ∧ w' = { w with observed := w.cattleSystem }
    | .error err => w' = w ∧ (err.reason = .notFound → ref = agentReference → w.agent = none)
  | .deleteNamespace n,r,w' =>
    match (r : Except ApiError Unit) with
    | .ok _ => n = cattleSystemNamespace ∧ w.cattleSystem.isSome ∧ w' = w.mark
    | .error err =>
      if err.reason = .notFound then w' = w ∧ (n = cattleSystemNamespace → w.cattleSystem = none)
      else w' = w ∨ n = cattleSystemNamespace ∧ w' = w.mark
  | _,_,w' => w' = w

/-- What happens besides: the replicas change, somebody else deletes the namespace, and its
termination completes. -/
inductive Others : Host → Host → Prop
  | scaled {w : Host} {s : CattleSystem} (n : ℤ) (present : w.cattleSystem = some s) :
      Others w { w with cattleSystem := some { s with availableReplicas := n } }
  | deleted {w : Host} : Others w w.mark
  | terminated {w : Host} (marked : w.terminating = true) : Others w { w with cattleSystem := none }

end Host

/-- The controller and the namespace. -/
def hostSystem (lib : Externals) : System rancherSession calls (Except String Result) where
  World := Host
  start _ := True
  answers := Host.answers
  others := Host.Others
  main := reconcile lib

def hostOf {lib : Externals} (c : Config (hostSystem lib)) : Host := c.world

/-! ## Polling -/

/-- A job that reads such a session polls the agent. -/
structure Awaits (b : RancherSession) : Prop extends Live b where
  phase : b.status.phase = .connecting
  applied : b.status.manifestApplied = true

/-! ## A namespace that is not shared -/

section exclusive
variable {lib : Externals} {c d : Config (hostSystem lib)} {h : Past} {o b : RancherSession}

/-- The step creates no session while the namespace terminates, and marks the namespace only while
no session is stored or in the cleanup of the one that is. -/
structure Exclusive (c d : Config (hostSystem lib)) : Prop where
  created : (hostOf c).terminating = true → ∀ o, d.server.current = some o →
    ∃ b, c.server.current = some b ∧ b.metadata.uid = o.metadata.uid
  marked : (hostOf c).terminating = false → (hostOf d).terminating = true →
    ∀ o, c.server.current = some o → ∃ h b r,
      (hostSystem lib).Answered c d h (.deleteNamespace cattleSystemNamespace) r ∧
      lastCopy h = some b ∧ b.metadata.uid = o.metadata.uid

/-- Such a session is not connected any more. -/
def Ending (o : RancherSession) : Prop :=
  o.metadata.deletionTimestamp.isSome ∨ o.status.phase = .disconnecting ∨
    o.status.phase = .disconnected ∨ o.status.phase = .failed

theorem Awaits.not_ending (hb : Awaits b) : ¬Ending b := by
  rintro (hd | hp)
  · rw [hb.live] at hd
    cases hd
  · rw [hb.phase] at hp
    simp at hp

theorem StatusWrite.ending {t : RancherSessionStatus} (hw : StatusWrite lib h b t) (hb : Ending b) :
    b.metadata.deletionTimestamp.isSome ∨ t.phase = .disconnecting ∨ t.phase = .disconnected ∨
      t.phase = .failed := by
  refine hb.imp id (fun hp => ?_)
  cases hw with
  | connecting _ _ hs =>
    rcases hs with hs | ⟨hs,-⟩
    · simp [hs] at hp
    · simp [hs] at hp
  | manifest _ hc => simp [hc.phase] at hp
  | connected _ _ _ hbefore => simp [hbefore.1] at hp
  | disconnecting => exact .inl rfl
  | disconnected => exact .inr (.inl rfl)
  | unreachable _ hphase =>
    rw [hphase]
    exact hp
  | failed _ hphase => exact .inr (.inr hphase)

/-- A session that is stored while the namespace terminates is ending. -/
def Vacated (c : Config (hostSystem lib)) : Prop :=
  (hostOf c).terminating = true → ∀ o, c.server.current = some o → Ending o

/-- Only others and the calls of a job change the world, and they leave the server alone. -/
theorem server_eq_of_marked (hs : (hostSystem lib).Step c d)
    (hbefore : (hostOf c).terminating = false) (hafter : (hostOf d).terminating = true) :
    d.server = c.server := by
  cases hs with
  | others | outside => rfl
  | user | start | own | finish | crash => cases hbefore.symm.trans hafter

/-- A session whose cleanup deletes the namespace is ending. -/
theorem ending_of_delete (hc : (hostSystem lib).Reachable c) {n : String} {next}
    (hj : c.job = some (h,.call (.inr (.deleteNamespace n)) next)) (hb : lastCopy h = some b)
    (ho : c.server.current = some o) (hu : b.metadata.uid = o.metadata.uid) : Ending o := by
  obtain ⟨-,-,b',⟨hclean,-⟩ | ⟨hread,hclosing,-⟩⟩ := ((sound rfl hc).obeys hj).1
  · have hheld : rancherFinalizer ∈ b'.metadata.finalizers :=
      hclean.held.elim Live.held Closing.held
    obtain ⟨o',ho',-,-,hst⟩ := owns rfl hc h _ b' hj hclean.owned hclean.copy
      (List.ne_nil_of_mem hheld)
    obtain rfl := Option.some.inj (ho.symm.trans ho')
    refine .inr (.inl ?_)
    rw [hst]
    exact hclean.phase
  · obtain rfl := Option.some.inj (hb.symm.trans hread.copy)
    have ht := traced rfl hc
    obtain ⟨l,hl⟩ := ht.copies (Config.mem_histories hj) (List.suffix_refl _) hb
    exact .inl (ht.current_deleting ho hl hu hclosing.deleting)

theorem Vacated.step (hc : (hostSystem lib).Reachable c) (hv : Vacated c)
    (hs : (hostSystem lib).Step c d) (hx : Exclusive c d) : Vacated d := by
  intro hterm o ho
  cases hbefore : (hostOf c).terminating with
  | false =>
    rw [server_eq_of_marked hs hbefore hterm] at ho
    obtain ⟨h,b,r,⟨next,hj,-⟩,hb,hu⟩ := hx.marked hbefore hterm o ho
    exact ending_of_delete hc hj hb ho hu
  | true =>
    obtain ⟨b₀,hb₀,hu₀⟩ := hx.created hbefore o ho
    have hsound := sound rfl hc
    cases hsound.successor Permits.disciplined hs ho with
    | created _ hfresh => exact absurd hu₀ (hfresh b₀ (Server.mem_of_current hb₀))
    | @kept b hlat hu hst =>
      rcases hv hbefore b hlat with hd | hp
      · have ht : d.Traced (Permits lib) := traced rfl (.step hc hs trivial)
        obtain ⟨l,hl⟩ := Server.current_eq_some.mp hlat
        have hb : some b::l <:+ d.server.log :=
          hl ▸ (hsound.written Permits.disciplined hs).suffix
        exact .inl (ht.current_deleting ho hb hu.symm hd)
      · refine .inr ?_
        rw [hst]
        exact hp
    | @written h a next b v hj hcopy hlat hm _ hstored =>
      obtain ⟨b',hb',-,-,hw⟩ := (hsound.obeys hj).1
      obtain rfl := Option.some.inj (hcopy.symm.trans hb')
      rw [hstored]
      rcases hw.ending (hv hbefore b hlat) with hd | hp
      · refine .inl ?_
        change a.metadata.deletionTimestamp.isSome
        rw [hm]
        exact hd
      · exact .inr hp

theorem vacated (hc : (hostSystem lib).ReachableBy Exclusive c) : Vacated c := by
  refine hc.invariant (J := (hostSystem lib).Reachable) (fun c hc => hc.reachable) ?_ ?_
  · rintro w hw - o ⟨⟩
  · exact fun c d hr hv hs hx => hv.step hr hs hx

/-! ## What a job has seen -/

theorem Host.apply_observed {w w' : Host} {x : Document} (ha : w.apply x = some w') :
    w'.observed = w.observed := by
  unfold Host.apply at ha
  split at ha
  · cases ha
    rfl
  · split at ha
    · obtain ⟨s,-,rfl⟩ := Option.map_eq_some_iff.mp ha
      rfl
    · cases ha
      rfl

theorem Host.Others.observed {w w' : Host} (ho : Host.Others w w') : w'.observed = w.observed := by
  cases ho <;> rfl

/-- A call leaves alone what was seen, finds nothing, or sees the Deployment. -/
theorem Host.answers_polled {w w' : Host} {e : Call} {r : calls.Answer e} (ha : w.answers e r w')
    (h : Past) : polled (⟨.inr e,r⟩::h) = polled h ∧ w'.observed = w.observed ∨
      polled (⟨.inr e,r⟩::h) = none ∨
      ∃ n, polled (⟨.inr e,r⟩::h) = some n ∧ w.agent = some n ∧ w'.observed = w.cattleSystem := by
  match e with
  | .getDeployment ref =>
    match (r : Except ApiError ℤ) with
    | .ok n =>
      obtain ⟨-,hn,rfl⟩ := ha
      exact .inr (.inr ⟨n,rfl,hn,rfl⟩)
    | .error err => exact .inr (.inl rfl)
  | .apply x =>
    refine .inl ⟨rfl,?_⟩
    match (r : Except ApiError Unit) with
    | .ok _ => exact Host.apply_observed ha
    | .error _ =>
      rcases ha with rfl | ha
      · rfl
      · exact Host.apply_observed ha
  | .deleteNamespace n =>
    refine .inl ⟨rfl,?_⟩
    match (r : Except ApiError Unit) with
    | .ok _ =>
      obtain ⟨-,-,rfl⟩ := ha
      rfl
    | .error err =>
      change if err.reason = .notFound then _ else _ at ha
      split at ha
      · rw [ha.1]
      · rcases ha with rfl | ⟨-,rfl⟩
        · rfl
        · rfl
  | .now _ | .getSecret _ | .rancher _ _ | .fetchManifest _ _ =>
    cases ha
    exact .inl ⟨rfl,rfl⟩

/-- If the copy that the running job has read is still the stored session, the Deployment that the
job has found was in a namespace that did not terminate. -/
def Sighted (c : Config (hostSystem lib)) : Prop :=
  ∀ h p b n, c.job = some (h,p) → lastCopy h = some b → owned h = false → polled h = some n →
    c.server.current = some b → ¬Ending b →
    ∃ s, (hostOf c).observed = some s ∧ s.agent = some n ∧ s.terminating = false

/-- What a user stores is not the copy of a job. -/
theorem copy_not_edited (hc : (hostSystem lib).Reachable c) {p} (hj : c.job = some (h,p))
    (hb : lastCopy h = some b) {s' : Server rancherSession} (he : Server.Edited c.server s') :
    s'.current ≠ some b := by
  intro hcur
  have hsound := sound rfl hc
  obtain ⟨-,l,hl,-⟩ := hsound.copy hj hb
  obtain ⟨x,rfl⟩ := he.push
  have hlog :=
    ((hsound.server.edited he).eq_of_version hcur (hl.trans (List.suffix_cons _ _)) rfl).1
  have hlen := hl.length_le
  rw [← hlog] at hlen
  exact absurd hlen (Nat.not_succ_le_self _)

theorem Sighted.step (hc : (hostSystem lib).Reachable c) (hv : Vacated c) (hsee : Sighted c)
    (hs : (hostSystem lib).Step c d) : Sighted d := by
  cases hs with
  | user he =>
    intro h p b n hj hb _ _ hcur
    exact absurd hcur (copy_not_edited hc hj hb he)
  | others ha =>
    intro h p b n hj hb hfresh hn hcur hlive
    obtain ⟨s,hs,hrest⟩ := hsee h p b n hj hb hfresh hn hcur hlive
    exact ⟨s,(Host.Others.observed ha).trans hs,hrest⟩
  | start =>
    rintro h p b n ⟨⟩ hb
    cases hb
  | @own s s' w past h e next r ha =>
    rintro _ _ b n ⟨⟩ hb hfresh hn hcur hlive
    cases e with
    | get =>
      -- A job reads first, so it has seen nothing before.
      have hnil : h = [] := ((sound rfl hc).obeys rfl).1
      subst hnil
      cases hn
    | update o =>
      cases r with
      | ok v => cases hb
      | error err =>
        cases (show s' = s from ha)
        exact hsee h _ b n rfl hb hfresh hn hcur hlive
    | updateStatus o =>
      cases r with
      | ok v => cases hfresh
      | error err =>
        cases (show s' = s from ha)
        exact hsee h _ b n rfl hb hfresh hn hcur hlive
  | @outside s w w' past h e next r ha =>
    rintro _ _ b n ⟨⟩ hb hfresh hn hcur hlive
    rcases Host.answers_polled ha h with ⟨hsame,hobs⟩ | hnone | ⟨m,hm,hagent,hobs⟩
    · obtain ⟨x,hx,hrest⟩ := hsee h _ b n rfl hb hfresh (hsame ▸ hn) hcur hlive
      exact ⟨x,hobs.trans hx,hrest⟩
    · cases hnone.symm.trans hn
    · obtain rfl := Option.some.inj (hm.symm.trans hn)
      obtain ⟨x,hx,hxm⟩ := Option.bind_eq_some_iff.mp hagent
      refine ⟨x,hobs.trans hx,hxm,?_⟩
      cases hterm : x.terminating with
      | false => rfl
      | true =>
        have hterm' : (hostOf ⟨s,w,past,some (h,.call (.inr e) next)⟩).terminating = true := by
          change w.cattleSystem.any CattleSystem.terminating = true
          rw [hx]
          exact hterm
        exact absurd (hv hterm' b hcur) hlive
  | finish | crash => rintro h p b n ⟨⟩

theorem sighted (hc : (hostSystem lib).ReachableBy Exclusive c) : Sighted c := by
  refine hc.invariant (J := fun c => (hostSystem lib).Reachable c ∧ Vacated c)
    (fun c hc => ⟨hc.reachable,vacated hc⟩) ?_ ?_
  · rintro w hw h p b n ⟨⟩
  · exact fun c d hr hsee hs _ => hsee.step hr.1 hr.2 hs

/-- The stored session is connected. -/
def Connected (c : Config (hostSystem lib)) : Prop :=
  ∃ o, c.server.current = some o ∧ o.status.phase = .connected

instance (c : Config (hostSystem lib)) : Decidable (Connected c) :=
  decidable_of_iff (c.server.current.any (·.status.phase = .connected) = true)
    (by simp [Option.any_eq_true,Connected])

/-- The running job has found available replicas, in a namespace that did not terminate when they
were read and does not terminate now. -/
def SeesLiveAgent (c : Config (hostSystem lib)) : Prop :=
  ∃ h p n s, c.job = some (h,p) ∧ polled h = some n ∧ n ≠ 0 ∧ (hostOf c).observed = some s ∧
    s.agent = some n ∧ s.terminating = false ∧ (hostOf c).terminating = false

/-- The phase `Connected` is stored for a session that awaits its agent, once there are replicas. -/
theorem StatusWrite.awaits {t : RancherSessionStatus} (hw : StatusWrite lib h b t)
    (hp : t.phase = .connected) (hb : b.status.phase ≠ .connected) :
    Reading h b ∧ Awaits b ∧ ∃ n, polled h = some n ∧ n ≠ 0 := by
  cases hw with
  | connecting | disconnecting | disconnected => cases hp
  | manifest _ _ hphase => cases hphase.symm.trans hp
  | connected _ hr hl hbefore _ _ _ _ _ hagent => exact ⟨hr,⟨hl,hbefore.1,hbefore.2⟩,hagent⟩
  | unreachable _ hphase => exact absurd (hphase.symm.trans hp) hb
  | failed _ hphase => cases hphase.symm.trans hp

end exclusive

/-! ## Evaluated runs -/

def agentManifest : Manifest where
  documents := [⟨"Namespace","",cattleSystemNamespace,""⟩,
    ⟨"Deployment",cattleSystemNamespace,cattleAgentDeployment,""⟩]

/-- A call that works. -/
def Host.serve (w : Host) : (e : Call) → Option (calls.Answer e × Host)
  | .now _ => some ((0 : ℤ),w)
  | .getSecret _ => some (.ok credentials,w)
  | .rancher _ (.findCluster _) => some (.ok none,w)
  | .rancher _ (.createCluster _) => some (.ok "c-1",w)
  | .rancher _ (.getRegistrationToken _) => some (.ok "https://rancher/import.yaml",w)
  | .rancher _ (.getCluster _) | .rancher _ (.deleteCluster _) => some (.ok (),w)
  | .fetchManifest _ _ => some (.response 200 (.ok agentManifest),w)
  | .apply d => (w.apply d).map (fun w' => (.ok (),w'))
  | .getDeployment ref =>
    if ref = agentReference then
      w.agent.map (fun n => (.ok n,{ w with observed := w.cattleSystem }))
    else none
  | .deleteNamespace n =>
    if n = cattleSystemNamespace ∧ w.cattleSystem.isSome then some (.ok (),w.mark) else none

theorem Host.answers_of_serve {w w' : Host} {e : Call} {r : calls.Answer e}
    (h : w.serve e = some (r,w')) : w.answers e r w' := by
  match e with
  | .now _ | .getSecret _ | .fetchManifest _ _ | .rancher _ (.findCluster _)
  | .rancher _ (.createCluster _) | .rancher _ (.getRegistrationToken _)
  | .rancher _ (.getCluster _) | .rancher _ (.deleteCluster _) =>
    cases h
    rfl
  | .apply d =>
    obtain ⟨w₁,hw₁,heq⟩ := Option.map_eq_some_iff.mp h
    cases heq
    exact hw₁
  | .getDeployment ref =>
    simp only [Host.serve] at h
    split at h
    · rename_i href
      obtain ⟨n,hn,heq⟩ := Option.map_eq_some_iff.mp h
      cases heq
      exact ⟨href,hn,rfl⟩
    · cases h
  | .deleteNamespace n =>
    simp only [Host.serve] at h
    split at h
    · rename_i hn
      cases h
      exact ⟨hn.1,hn.2,rfl⟩
    · cases h

def hostScript : (hostSystem .plain).Script where
  refuse _ := none
  serve _ := Host.serve
  sound h := Host.answers_of_serve h

def hostJob : (hostSystem .plain).Act := .job hostScript

/-- The agent becomes available. -/
def agentStarts : (hostSystem .plain).Act := .others
  (fun (w : Host) => w.cattleSystem.map fun s =>
    { w with cattleSystem := some { s with availableReplicas := 1 } })
  (by
    intro w w' h
    obtain ⟨s,hs,rfl⟩ := Option.map_eq_some_iff.mp h
    exact .scaled 1 hs)

/-- The termination of the namespace completes. -/
def namespaceGoes : (hostSystem .plain).Act := .others
  (fun (w : Host) => if w.terminating then some { w with cattleSystem := none } else none)
  (by
    intro w w' h
    split at h
    · rename_i hterm
      cases h
      exact .terminated hterm
    · cases h)

/-- A session is connected, deleted and cleaned up. -/
def firstSession : List (hostSystem .plain).Act :=
  [.create newSession,hostJob,hostJob,agentStarts,hostJob,.markDeleted (0 : ℤ),hostJob]

/-- The next session of that name. -/
def nextSession : RancherSession :=
  { newSession with metadata := { newSession.metadata with uid := 2 } }

/-- Its manifest is applied. -/
def secondSession : List (hostSystem .plain).Act := [.create nextSession,hostJob,hostJob]

/-- The job that polls, up to the write of the status. -/
def poll : List (hostSystem .plain).Act := List.replicate 7 (.tick hostScript)

/-- A test that a step of a job passes only if it is exclusive. The namespace is marked by the call
of the job if its history grows. -/
def exclusiveStep (c d : Config (hostSystem .plain)) : Bool :=
  (!(hostOf c).terminating || d.server.current.all fun o =>
    c.server.current.any fun b => b.metadata.uid = o.metadata.uid) &&
  ((hostOf c).terminating || !(hostOf d).terminating || c.server.current.all fun o =>
    match c.job,d.job with
    | some (h,_),some (h',_) =>
      h.length < h'.length && (lastCopy h).any (fun b => b.metadata.uid = o.metadata.uid)
    | _,_ => false)

theorem CattleSystem.apply_terminating {s s' : CattleSystem} {x : String × String}
    (ha : s.apply x = some s') : s'.terminating = s.terminating := by
  unfold CattleSystem.apply at ha
  split at ha
  · cases ha
    rfl
  · split at ha
    · cases ha
    · cases ha
      rfl

/-- To apply a document neither marks the namespace nor saves it. -/
theorem Host.apply_terminating {w w' : Host} {x : Document} (ha : w.apply x = some w') :
    w'.terminating = w.terminating := by
  unfold Host.apply at ha
  split at ha
  · cases ha
    unfold Host.terminating
    cases w.cattleSystem <;> rfl
  · split at ha
    · obtain ⟨s',hs',rfl⟩ := Option.map_eq_some_iff.mp ha
      obtain ⟨s,hs,happly⟩ := Option.bind_eq_some_iff.mp hs'
      unfold Host.terminating
      rw [hs]
      exact CattleSystem.apply_terminating happly
    · cases ha
      rfl

/-- Only the deletion of the namespace marks it. -/
theorem Host.answers_marked {w w' : Host} {e : Call} {r : calls.Answer e} (ha : w.answers e r w')
    (hbefore : w.terminating = false) (hafter : w'.terminating = true) :
    e = .deleteNamespace cattleSystemNamespace := by
  have hsame : w' ≠ w := by
    rintro rfl
    cases hbefore.symm.trans hafter
  match e with
  | .now _ | .getSecret _ | .rancher _ _ | .fetchManifest _ _ => exact absurd ha hsame
  | .apply x =>
    have happly : w.apply x ≠ some w' := by
      intro happly
      cases hbefore.symm.trans ((Host.apply_terminating happly).symm.trans hafter)
    match (r : Except ApiError Unit) with
    | .ok _ => exact absurd ha happly
    | .error _ => exact (ha.elim hsame happly).elim
  | .getDeployment ref =>
    match (r : Except ApiError ℤ) with
    | .ok n =>
      obtain ⟨-,-,rfl⟩ := ha
      cases hbefore.symm.trans hafter
    | .error err => exact absurd ha.1 hsame
  | .deleteNamespace n =>
    match (r : Except ApiError Unit) with
    | .ok _ => rw [ha.1]
    | .error err =>
      change if err.reason = .notFound then _ else _ at ha
      split at ha
      · exact absurd ha.1 hsame
      · obtain ⟨rfl,-⟩ := ha.resolve_left hsame
        rfl

theorem exclusiveStep_sound {c d : Config (hostSystem .plain)} (hs : (hostSystem .plain).Step c d)
    (ht : exclusiveStep c d = true) : Exclusive c d := by
  obtain ⟨hcreated,hmarked⟩ := (Bool.and_eq_true _ _).mp ht
  refine ⟨?_,?_⟩
  · intro hterm o ho
    rw [hterm,ho] at hcreated
    obtain ⟨b,hb,hu⟩ := (Option.any_eq_true _ _).mp hcreated
    exact ⟨b,hb,of_decide_eq_true hu⟩
  · intro hbefore hafter o ho
    rw [hbefore,hafter,ho] at hmarked
    cases hs with
    | @outside s w w' past h e next r ha =>
      obtain rfl := Host.answers_marked ha hbefore hafter
      obtain ⟨-,hcopy⟩ := (Bool.and_eq_true _ _).mp hmarked
      obtain ⟨b,hb,hu⟩ := (Option.any_eq_true _ _).mp hcopy
      exact ⟨h,b,r,⟨next,rfl,rfl⟩,hb,of_decide_eq_true hu⟩
    | @others s w w' past job ha =>
      -- The history of the job is as long as before.
      cases job with
      | none => cases hmarked
      | some j => simp at hmarked
    | user | start | own | finish | crash => cases hbefore.symm.trans hafter

/-- If no session is created while the namespace terminates, and only the cleanup of the stored
session deletes it under one, then a session is connected on the strength of its own agent. -/
theorem connected_sees_live_agent (lib : Externals) {c d : Config (hostSystem lib)}
    (hc : (hostSystem lib).ReachableBy Exclusive c) (hs : (hostSystem lib).Step c d)
    (hbefore : ¬Connected c) (hafter : Connected d) : SeesLiveAgent c := by
  obtain ⟨o,ho,hphase⟩ := hafter
  have hsound := sound rfl hc.reachable
  cases hsound.successor Permits.disciplined hs ho with
  | created hinit =>
    rw [hinit] at hphase
    cases hphase
  | @kept b hlat _ hst => exact absurd ⟨b,hlat,hst ▸ hphase⟩ hbefore
  | @written h a next b v hj hcopy hlat _ _ hstored =>
    obtain ⟨b',hb',-,-,hw⟩ := (hsound.obeys hj).1
    obtain rfl := Option.some.inj (hcopy.symm.trans hb')
    have ha : a.status.phase = .connected := by
      rw [hstored] at hphase
      exact hphase
    obtain ⟨hr,hawaits,n,hn,hne⟩ := hw.awaits ha (fun hp => hbefore ⟨b,hlat,hp⟩)
    obtain ⟨s,hobs,hagent,hterm⟩ :=
      sighted hc h _ b n hj hcopy hr.fresh hn hlat hawaits.not_ending
    refine ⟨h,_,n,s,hj,hn,hne,hobs,hagent,hterm,?_⟩
    cases hnow : (hostOf c).terminating with
    | false => rfl
    | true => exact absurd (vacated hc hnow b hlat) hawaits.not_ending

/-- The second session waits for the termination. -/
theorem connected_sees_live_agent_after : ∃ c d : Config (hostSystem .plain),
    (hostSystem .plain).ReachableBy Exclusive c ∧ (hostSystem .plain).Step c d ∧ ¬Connected c ∧
      Connected d ∧ SeesLiveAgent c := by
  obtain ⟨c,d,hc,hs,hp⟩ := System.exists_tick (σ := hostSystem .plain) exclusiveStep
    (w := ({} : Host)) trivial
      (firstSession ++ [namespaceGoes] ++ secondSession ++ [agentStarts] ++ poll)
    hostScript (fun c d => decide (¬Connected c ∧ Connected d)) (by decide +kernel)
  obtain ⟨hbefore,hafter⟩ := of_decide_eq_true hp
  have hx := hc.mono_step (fun c d hs ht => exclusiveStep_sound hs ht)
  exact ⟨c,d,hx,hs,hbefore,hafter,connected_sees_live_agent .plain hx hs hbefore hafter⟩

/-- The second session is created at once. Its manifest only updates what is there, and what it
polls is the agent of the first. -/
theorem reconnect_sees_old_agent : ∃ c d : Config (hostSystem .plain),
    (hostSystem .plain).Reachable c ∧ (hostSystem .plain).Step c d ∧ ¬Connected c ∧ Connected d ∧
      (∃ s, (hostOf c).observed = some s ∧ s.terminating = true) ∧
      (hostOf c).terminating = true ∧ ¬SeesLiveAgent c := by
  obtain ⟨c,d,hc,hs,hp⟩ := System.exists_tick (σ := hostSystem .plain) (fun _ _ => true)
    (w := ({} : Host)) trivial (firstSession ++ secondSession ++ poll) hostScript
    (fun c d => decide (¬Connected c ∧ Connected d ∧
      (hostOf c).observed.any CattleSystem.terminating = true ∧ (hostOf c).terminating = true))
    (by decide +kernel)
  obtain ⟨hbefore,hafter,hobs,hterm⟩ := of_decide_eq_true hp
  refine ⟨c,d,hc.reachable,hs,hbefore,hafter,(Option.any_eq_true _ _).mp hobs,hterm,?_⟩
  rintro ⟨h,p,n,s,-,-,-,-,-,-,hnow⟩
  cases hterm.symm.trans hnow

end LosantDevice.Session

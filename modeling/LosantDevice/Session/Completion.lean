import LosantDevice.Session.Cleanup
import LosantDevice.Session.Outcome

/-!
# A session runs to its end

Jobs that nothing hinders take a session from its creation to `Connected`, from there to
`Disconnected` when its time is up or its cluster is gone, and remove it once it is deleted.
-/
namespace LosantDevice.Session
open Effect Kube Go Program

/-- A method of the client succeeds. What `GetCluster` answers is left open. -/
def Granted (found : Except Rancher.Error Unit → Prop) : (m : Rancher.Method) → m.Answer → Prop
  | .findCluster _,r => ∃ id, r = .ok id
  | .createCluster _,r | .getRegistrationToken _,r => ∃ id, r = .ok id
  | .getCluster _,r => found r
  | .deleteCluster _,r => r = .ok ()

/-- Every call succeeds: the credentials are valid, the manifest is complete, the agent is
available. The clock and the cluster are as they are said to be. -/
def Smooth (lib : Externals) (spec : RancherSessionSpec) (clock : Clock → Time → Prop)
    (found : Except Rancher.Error Unit → Prop) : (e : Call) → calls.Answer e → Prop
  | .now site,t => clock site t
  | .getSecret ref,r => ref = spec.credentialsSecretRef.namespacedName →
      ∃ s : StoredSecret, r = .ok s ∧
        ∃ c, clientFrom lib (named spec.credentialsSecretRef (.ok s)) = .ok c
  | .rancher _ m,r => Granted found m r
  | .fetchManifest _ _,r => ∃ status documents, status < 400 ∧
      r = .response status (.ok { documents := documents })
  | .apply _,r => r = .ok ()
  | .getDeployment _,r => ∃ n : ℤ, n ≠ 0 ∧ r = .ok n
  | .deleteNamespace _,r => r = .ok () ∨ ∃ err : ApiError, r = .error err ∧ err.reason = .notFound

section ends
variable {lib : Externals} {clock : Clock → Time → Prop} {found : Except Rancher.Error Unit → Prop}
  {h : Past} {x : RancherSession} {rc : Option Rancher.HTTPClient} {r : Except String Result}

/-- The answers of a job that nothing hinders. -/
abbrev Favourable (lib : Externals) (spec : RancherSessionSpec) (clock : Clock → Time → Prop)
    (found : Except Rancher.Error Unit → Prop) (h : Past) : Prop :=
  ∀ ev ∈ h, Favoured (Smooth lib spec clock found) ev

/-! ## Ends that there are not then -/

theorem Favourable.tail {ev : Event interface}
    (hf : Favourable lib x.spec clock found (ev::h)) : Favourable lib x.spec clock found h :=
  (List.forall_mem_cons.mp hf).2

theorem Favourable.not_refused {o : RancherSession} {err : ApiError} {k : Past} :
    ¬Favourable lib x.spec clock found (⟨.inl (.updateStatus o),.error err⟩::k) := by
  intro hf
  obtain ⟨_,⟨⟩⟩ := hf _ List.mem_cons_self

theorem Favourable.not_unreleased {o : RancherSession} {err : ApiError} {k : Past} :
    ¬Favourable lib x.spec clock found (⟨.inl (.update o),.error err⟩::k) := by
  intro hf
  obtain ⟨_,⟨⟩⟩ := hf _ List.mem_cons_self

theorem Favourable.not_denied (hf : Favourable lib x.spec clock found h) {ev : Event interface}
    (hev : ev ∈ h) : ¬Denied ev := by
  intro hd
  have hev := hf ev hev
  cases hd with
  | findCluster | createCluster | getRegistrationToken => obtain ⟨_,⟨⟩⟩ := hev

theorem Favourable.not_spoiled (hf : Favourable lib x.spec clock found h) : ¬Spoiled x h := by
  rintro ⟨ev,hev,hs,hread⟩
  have hev := hf ev hev
  obtain ⟨ref,err,rfl⟩ | ⟨ca,url,r,rfl,hbad⟩ | ⟨d,err,rfl⟩ := spoils_cases hs
  · obtain ⟨_,⟨⟩,-⟩ := hev (hread ref rfl)
  · obtain ⟨status,documents,hlt,rfl⟩ := hev
    rcases hbad _ _ rfl with hle | hrest
    · exact absurd hle hlt.not_ge
    · exact hrest rfl
  · cases (hev : Except.error err = Except.ok ())

theorem Favourable.not_unusable (hf : Favourable lib x.spec clock found h) {e : NoClient} :
    ¬Unusable lib h x e := by
  rintro ⟨r,hr,hc⟩
  obtain ⟨s,rfl,c,hok⟩ := hf _ hr rfl
  rw [hok] at hc
  cases hc

/-! ## Connecting -/

/-- Until the agent has timed out, with a second to spare for the times that are stored. -/
def window (start : Time) (_ : Clock) (t : Time) : Prop :=
  (start : ℤ) ≤ t ∧ (t : ℤ) < start+agentReadyTimeout-second

/-- The manifest is applied, and the agent has the time of the window to become available. -/
def Polling (start : Time) (t : RancherSessionStatus) : Prop :=
  t.phase = .connecting ∧ t.manifestApplied = true ∧
    ∀ e ∈ t.expiresAt, (start : ℤ)+agentReadyTimeout-second ≤ e

variable {start : Time}

theorem ConnectEnds.leaves (hf : Favourable lib x.spec (window start) found h)
    (he : ConnectEnds x h r) : Leaves x (fun _ => Polling start) h r := by
  cases he with
  | refused => exact absurd hf Favourable.not_refused
  | unreachable hd htold => exact absurd hd (hf.not_denied (List.mem_cons_of_mem _ htold))
  | failed _ hs => exact absurd hs.cons hf.not_spoiled
  | @recorded o v k t hsame hphase happlied hclock hexp =>
    refine ⟨o.stored v,rfl,hsame.stored v,hphase,happlied,fun e he => ?_⟩
    have he : e ∈ storedTime o.status.expiresAt := he
    rw [hexp] at he
    obtain rfl := eq_of_mem_storedTime he
    have hbegun : (start : ℤ) ≤ t := (hf _ (List.mem_cons_of_mem _ hclock)).1
    have hstored := lt_truncateSecond_add ((t : ℤ)+agentReadyTimeout : ℤ)
    have hmove : ∀ s t u v w : ℤ, s ≤ t → t+u < v+w → s+u-w ≤ v := by omega
    exact hmove _ _ _ _ _ hbegun hstored

/-- Connected at a time that the job has read, for as long as the spec says, in 64 bits. -/
def Established (clock : Clock → Time → Prop) (spec : RancherSessionSpec) (h : Past)
    (t : RancherSessionStatus) : Prop :=
  t.phase = .connected ∧ ∃ u : Time, (⟨.inr (.now .connected),u⟩ : Event interface) ∈ h ∧
    clock .connected u ∧ t.connectedAt = storedTime (some u) ∧
    t.expiresAt = storedTime (some ((u : ℤ)+wrapInt64 (spec.ttlSeconds*second) : ℤ))

theorem PollEnds.leaves {h₀ : Past} (hp : Polling start x.status)
    (hf : Favourable lib x.spec (window start) found h) (he : PollEnds x h₀ h r) :
    Leaves x (Established (window start) x.spec) h r := by
  cases he with
  | refused => exact absurd hf Favourable.not_refused
  | @failed _ _ _ t expires _ _ hexp hclock hlate =>
    have hwindow : window start .agentTimeout t := hf _ (List.mem_cons_of_mem _ hclock)
    exact absurd hlate (lt_of_lt_of_le hwindow.2 (hp.2.2 expires hexp)).not_gt
  | unread =>
    obtain ⟨_,-,⟨⟩⟩ := hf _ List.mem_cons_self
  | unready _ hnone =>
    obtain ⟨n,hn,hr⟩ := hf _ List.mem_cons_self
    exact absurd (hnone n hr) hn
  | @connected o v k t _ hsame hphase hclock hfrom huntil =>
    refine ⟨o.stored v,rfl,hsame.stored v,hphase,t,List.mem_cons_of_mem _ hclock,
      hf _ (List.mem_cons_of_mem _ hclock),?_,?_⟩
    · exact congrArg storedTime hfrom
    · exact congrArg storedTime huntil

/-! ## Disconnecting -/

theorem Favourable.gone {n : String} {a : Except ApiError Unit} {k : Past}
    (hf : Favourable lib x.spec clock found (⟨.inr (.deleteNamespace n),a⟩::k)) :
    World.namespaceGone a = true := by
  rcases hf _ List.mem_cons_self with rfl | ⟨err,rfl,hgone⟩
  · rfl
  · exact decide_eq_true hgone

/-- A cleanup gets to its end. -/
theorem CleanupEnds.favourable (hf : Favourable lib x.spec clock found h) (hrc : rc ≠ none)
    (he : CleanupEnds rc x h r) :
    x.metadata.deletionTimestamp = none ∧
      Leaves x (fun _ (t : RancherSessionStatus) => t.phase = .disconnected) h r ∨
    x.metadata.deletionTimestamp.isSome ∧ Refinalizes x (fun _ => True)
      (x.metadata.finalizers.filter (· ≠ rancherFinalizer)) h r := by
  cases he with
  | refused => exact absurd hf Favourable.not_refused
  | unreleased => exact absurd hf Favourable.not_unreleased
  | nilPointer hnone => exact absurd hnone hrc
  | stays hstays => cases hstays.symm.trans hf.gone
  | undeleted htold => cases (hf _ (List.mem_cons_of_mem _ htold) : Except.error _ = Except.ok ())
  | @disconnected o v k hlive hsame hphase =>
    exact .inl ⟨hlive,o.stored v,rfl,hsame.stored v,hphase⟩
  | @released o v k b hdel hcopy hsame hfin =>
    exact .inr ⟨hdel,o,v,k,b,rfl,hcopy,hsame,trivial,hfin⟩

/-- Why a connected session is over: its time is up, or Rancher does not know its cluster. -/
inductive Over (o : RancherSession) :
    (Clock → Time → Prop) → (Except Rancher.Error Unit → Prop) → Prop
  | expired {e : Time} (expires : o.status.expiresAt = some e) :
      Over o (fun site t => site = .ttlCheck → (e : ℤ) < t) (fun _ => True)
  | lost (known : o.status.rancherClusterID ≠ "") :
      Over o (fun _ _ => True) (fun r => ∃ err, r = .error err ∧ Rancher.Error.notFound err = true)

/-- Such a session is not found to be in order. -/
theorem Over.noticed (ho : Over x clock found) (hf : Favourable lib x.spec clock found h)
    (hu : Unexpired x h) : ¬Found x h ∧ ∀ c err,
      (⟨.inr (.rancher c (.getCluster x.status.rancherClusterID)),.error err⟩ :
        Event interface) ∈ h → Rancher.Error.notFound err = true := by
  cases ho with
  | expired hexp =>
    obtain ⟨s,hs,hle⟩ := hu _ hexp
    exact absurd (hf _ hs rfl) hle.not_gt
  | lost hid =>
    refine ⟨fun hfound => ?_,fun c err herr => ?_⟩
    · obtain ⟨c,hc⟩ := hfound hid
      obtain ⟨_,⟨⟩,-⟩ := hf _ hc
    · obtain ⟨_,⟨⟩,hgone⟩ := hf _ herr
      exact hgone

theorem ConnectedEnds.leaves (hlive : x.metadata.deletionTimestamp = none)
    (ho : Over x clock found) (hf : Favourable lib x.spec clock found h)
    (he : ConnectedEnds x h r) :
    Leaves x (fun _ (t : RancherSessionStatus) => t.phase = .disconnected) h r := by
  cases he with
  | cleanup hc =>
    rcases hc.favourable hf (Option.some_ne_none _) with ⟨-,hl⟩ | ⟨hdel,-⟩
    · exact hl
    · rw [hlive] at hdel
      cases hdel
  | refused => exact absurd hf Favourable.not_refused
  | unreachable hu htold hother =>
    have hgone := (ho.noticed hf hu.cons).2 _ _ (List.mem_cons_of_mem _ htold)
    cases hother.symm.trans hgone
  | unlimited hu hfound => exact absurd hfound (ho.noticed hf hu).1
  | left hu hfound | ended hu hfound => exact absurd hfound (ho.noticed hf.tail hu).1

end ends

/-! ## The jobs of a session -/

section jobs
variable {lib : Externals} {σ : System rancherSession calls (Except String Result)} {c d : Config σ}
  {clock : Clock → Time → Prop} {found : Except Rancher.Error Unit → Prop} {start : Time}
  {o : RancherSession}

/-- Not yet connected, and not given up. -/
def Pending (start : Time) (o : RancherSession) : Prop :=
  o.status.phase = .unset ∨ o.status.phase = .connecting ∧ o.status.manifestApplied = false ∨
    Polling start o.status

/-- The jobs a pending session needs to become connected. -/
def remaining (o : RancherSession) : ℕ :=
  (if rancherFinalizer ∈ o.metadata.finalizers then 0 else 1) +
    if o.status.phase = .connecting ∧ o.status.manifestApplied = true then 1 else 2

/-- With a client the job gets to the switch on the phase. -/
theorem ReconcileEnds.phase_of_favourable {h : Past} {r : Except String Result} (hl : Live o)
    (hf : Favourable lib o.spec clock found h) (he : ReconcileEnds lib o h r) :
    PhaseEnds o h r := by
  cases he with
  | disconnect hdel =>
    rw [hl.live] at hdel
    cases hdel
  | unattached => exact absurd hf Favourable.not_unreleased
  | attached _ hfree => exact absurd hl.held hfree
  | suspended _ _ hsus => cases hl.running.symm.trans hsus
  | refused => exact absurd hf Favourable.not_refused
  | unusable _ _ hu => exact absurd hu hf.tail.not_unusable
  | phase _ hp => exact hp

theorem leads_phase {Q : Past → Except String Result → Prop} (hl : Live o)
    (hQ : ∀ h r, Favourable lib o.spec clock found h → PhaseEnds o h r → Q h r) :
    Leads (Smooth lib o.spec clock found) Q [⟨.inl .get,.ok o⟩] (reconcileObject lib o) :=
  (reconcileObject_outcome rfl).imp fun h r he hf => hQ h r hf (he.phase_of_favourable hl hf)

theorem leads_attached (hlive : o.metadata.deletionTimestamp = none)
    (hfree : rancherFinalizer ∉ o.metadata.finalizers) :
    Leads (Smooth lib o.spec clock found)
      (Refinalizes o (· = o.status) (o.metadata.finalizers ++ [rancherFinalizer]))
      [⟨.inl .get,.ok o⟩] (reconcileObject lib o) := by
  refine (reconcileObject_outcome rfl).imp fun h r he
    (hf : Favourable lib o.spec clock found h) => ?_
  cases he with
  | disconnect hdel =>
    rw [hlive] at hdel
    cases hdel
  | unattached => exact absurd hf Favourable.not_unreleased
  | attached _ _ hcopy hfin => exact ⟨_,_,_,o,rfl,hcopy,o.same_refl,rfl,hfin⟩
  | suspended _ hheld => exact absurd hheld hfree
  | refused => exact absurd hf Favourable.not_refused
  | unusable hl | phase hl => exact absurd hl.held hfree

theorem leads_released (hdel : o.metadata.deletionTimestamp.isSome)
    (hheld : rancherFinalizer ∈ o.metadata.finalizers) :
    Leads (Smooth lib o.spec clock found)
      (Refinalizes o (fun _ => True) (o.metadata.finalizers.filter (· ≠ rancherFinalizer)))
      [⟨.inl .get,.ok o⟩] (reconcileObject lib o) := by
  have hnot : ¬o.metadata.deletionTimestamp = none := fun hlive => by simp [hlive] at hdel
  refine (reconcileObject_outcome rfl).imp fun h r he
    (hf : Favourable lib o.spec clock found h) => ?_
  cases he with
  | disconnect _ hended =>
    cases hended with
    | free hfree => exact absurd hheld hfree
    | @cleanup rc _ _ _ _ hclient hended _ =>
      have hrc : rc ≠ none := fun hnone => (hclient hnone).elim fun _ => hf.not_unusable
      rcases hended.favourable hf hrc with ⟨hlive,-⟩ | ⟨-,hre⟩
      · exact absurd hlive hnot
      · exact hre
  | unattached => exact absurd hf Favourable.not_unreleased
  | attached hlive | suspended hlive => exact absurd hlive hnot
  | refused => exact absurd hf Favourable.not_refused
  | unusable hl | phase hl => exact absurd hl.live hnot

theorem PhaseEnds.polls {h : Past} {r : Except String Result} (hp : Starts o.status)
    (hf : Favourable lib o.spec (window start) found h) (he : PhaseEnds o h r) :
    Leaves o (fun _ => Polling start) h r := by
  cases he with
  | connect _ hc => exact hc.leaves hf
  | poll hphase happlied =>
    rcases hp with hp | ⟨-,hp⟩
    · cases hphase.symm.trans hp
    · cases happlied.symm.trans hp
  | connected hphase => simp [Starts,hphase] at hp
  | halted hphase =>
    rcases hphase with hphase | hphase | hphase <;> simp [Starts,hphase] at hp

theorem PhaseEnds.connects {h : Past} {r : Except String Result} (hp : Polling start o.status)
    (hf : Favourable lib o.spec (window start) found h) (he : PhaseEnds o h r) :
    Leaves o (Established (window start) o.spec) h r := by
  cases he with
  | connect hs => simp [Starts,hp.1,hp.2.1] at hs
  | poll _ _ hc => exact hc.leaves hp hf
  | connected hphase => cases hphase.symm.trans hp.1
  | halted hphase => simp [hp.1] at hphase

theorem PhaseEnds.disconnects {h : Past} {r : Except String Result}
    (hlive : o.metadata.deletionTimestamp = none) (hp : o.status.phase = .connected)
    (ho : Over o clock found) (hf : Favourable lib o.spec clock found h) (he : PhaseEnds o h r) :
    Leaves o (fun _ (t : RancherSessionStatus) => t.phase = .disconnected) h r := by
  cases he with
  | connect hs => simp [Starts,hp] at hs
  | poll hphase => cases hphase.symm.trans hp
  | connected _ hc => exact hc.leaves hlive ho hf
  | halted hphase => simp [hp] at hphase

/-- One job that nothing hinders takes a pending session on. -/
theorem pending_step (hmain : σ.main = reconcile lib) (hc : σ.Reachable c)
    (ho : c.server.current = some o) (hlive : o.metadata.deletionTimestamp = none)
    (hwanted : o.spec.suspend = false) (hp : Pending start o)
    (hd : Unhindered (Smooth lib o.spec (window start) found) c d) :
    ∃ o', d.server.current = some o' ∧ o'.metadata.uid = o.metadata.uid ∧
      o'.metadata.deletionTimestamp = none ∧ o'.spec = o.spec ∧
      ((remaining o = 1 ∧ ∃ h, d.past.head? = some h ∧
        Established (window start) o.spec h o'.status) ∨
        remaining o = remaining o'+1 ∧ Pending start o') := by
  have hobeys : Obeys (Permits lib) Returns [] σ.main := hmain ▸ reconcile_obeys lib
  by_cases hf : rancherFinalizer ∈ o.metadata.finalizers
  · have hl : Live o := ⟨hlive,hf,hwanted⟩
    rcases or_assoc.mpr hp with hp | hp
    · obtain ⟨-,o',-,hcur,⟨⟨n,hm⟩,hspec⟩,hpoll⟩ := hd.leaves Permits.disciplined hobeys hmain
        (leads_phase hl fun _ _ hf he => he.polls hp hf) hc ho
      refine ⟨o',hcur,by rw [hm],by rw [hm]; exact hlive,hspec,.inr ⟨?_,.inr (.inr hpoll)⟩⟩
      have hnot : ¬(o.status.phase = .connecting ∧ o.status.manifestApplied = true) := by
        rintro ⟨h,h'⟩
        rcases hp with hp | ⟨-,hp⟩
        · rw [h] at hp
          cases hp
        · rw [h'] at hp
          cases hp
      simp [remaining,hm,hf,if_neg hnot,hpoll.1,hpoll.2.1]
    · obtain ⟨h,o',hpast,hcur,⟨⟨n,hm⟩,hspec⟩,hphase⟩ := hd.leaves Permits.disciplined hobeys hmain
        (leads_phase hl fun _ _ hf he => he.connects hp hf) hc ho
      refine ⟨o',hcur,by rw [hm],by rw [hm]; exact hlive,hspec,.inl ⟨?_,h,hpast,hphase⟩⟩
      simp [remaining,hf,hp.1,hp.2.1]
  · obtain ⟨b,⟨⟨n,hm⟩,hspec⟩,hst,⟨hdel,-⟩ | ⟨n,hcur⟩⟩ := hd.rewrites Permits.disciplined hobeys
      hmain (leads_attached hlive hf) hc ho
    · rw [hm,hlive] at hdel
      cases hdel
    · refine ⟨_,hcur,by simp [hm],by simp [hm,hlive],hspec,.inr ⟨?_,?_⟩⟩
      · simp [remaining,hf,hst]
        omega
      · unfold Pending
        dsimp only
        rw [hst]
        exact hp

/-- As many jobs as it needs make it connected. -/
theorem established_of_rounds {n : ℕ} (hmain : σ.main = reconcile lib) (hc : σ.Reachable c)
    (ho : c.server.current = some o) (hlive : o.metadata.deletionTimestamp = none)
    (hwanted : o.spec.suspend = false) (hp : Pending start o) (hn : remaining o = n)
    (hd : Rounds (Smooth lib o.spec (window start) found) n c d) :
    ∃ h o', d.past.head? = some h ∧ d.server.current = some o' ∧
      o'.metadata.uid = o.metadata.uid ∧ o'.spec = o.spec ∧
      Established (window start) o.spec h o'.status := by
  induction n generalizing c o with
  | zero =>
    have hpos : 0 < remaining o := by
      unfold remaining
      split_ifs <;> decide
    omega
  | succ n ih =>
    obtain ⟨e,he,hd⟩ := hd
    obtain ⟨o₁,ho₁,huid,hlive₁,hspec,⟨hone,h,hpast,hconn⟩ | ⟨hrem,hp₁⟩⟩ :=
      pending_step hmain hc ho hlive hwanted hp he
    · obtain rfl : n = 0 := by omega
      obtain rfl := hd
      exact ⟨h,o₁,hpast,ho₁,huid,hspec,hconn⟩
    · rw [← hspec] at hwanted hd
      obtain ⟨h,o',hpast,ho',huid',hspec',hconn⟩ :=
        ih (he.reachable hc) ho₁ hlive₁ hwanted hp₁ (by omega) hd
      rw [hspec] at hconn
      exact ⟨h,o',hpast,ho',huid'.trans huid,hspec'.trans hspec,hconn⟩

/-- A session that can become connected. An explicit TTL of zero is not sent by the client and comes
back as the default with the first write of the object, so it is none until the finalizer is
there. -/
structure Connectable (start : Time) (o : RancherSession) : Prop where
  live : o.metadata.deletionTimestamp = none
  wanted : o.spec.suspend = false
  pending : Pending start o
  ttl : o.spec.ttlSeconds ≠ 0 ∨ rancherFinalizer ∈ o.metadata.finalizers

/-- It becomes connected in as many jobs as it needs, for as long as its spec says, if nothing
hinders them and they are done before the agent times out; the times are those that the last job
read. -/
theorem session_connects (lib : Externals) (σ : System rancherSession calls (Except String Result))
    (hmain : σ.main = reconcile lib) (c d : Config σ) (hc : σ.Reachable c) (o : RancherSession)
    (ho : c.server.current = some o) (start : Time) (hp : Connectable start o)
    (hd : Rounds (Smooth lib o.spec (window start) fun _ => True) (remaining o) c d) :
    ∃ h o', d.past.head? = some h ∧ d.server.current = some o' ∧
      o'.metadata.uid = o.metadata.uid ∧ o'.spec = o.spec ∧
      Established (window start) o.spec h o'.status :=
  established_of_rounds hmain hc ho hp.live hp.wanted hp.pending rfl hd

/-- Nobody else adds finalizers. -/
theorem finalizers_cases (ht : c.Traced (Permits lib)) {l : List (Option RancherSession)}
    (hl : some o::l <:+ c.server.log) :
    o.metadata.finalizers = [] ∨ o.metadata.finalizers = [rancherFinalizer] := by
  induction l generalizing o with
  | nil =>
    cases ht.origin hl with
    | created _ hb => exact .inl hb.1
  | cons x l ih =>
    have hbefore := (List.suffix_cons _ _).trans hl
    cases ht.origin hl with
    | created _ hb => exact .inl hb.1
    | user _ _ hf _ =>
      rw [hf]
      exact ih hbefore
    | @status a b _ _ _ _ _ _ _ hmeta _ _ =>
      change a.metadata.finalizers = [] ∨ a.metadata.finalizers = [rancherFinalizer]
      rw [hmeta]
      exact ih hbefore
    | @object a b _ h k v _ hm he hcopy hg hk =>
      rw [hk o rfl]
      obtain ⟨b',hb',⟨-,-,hnot,rfl⟩ | hrel⟩ := ht.allowed hm he
      · obtain rfl := Option.some.inj (hcopy.symm.trans hb')
        rcases ih hbefore with hb | hb
        · exact .inr (by simp [hb])
        · exact absurd (by simp [hb]) hnot
      · obtain rfl := Option.some.inj (hcopy.symm.trans hb')
        rw [hrel.object]
        rcases ih hbefore with hb | hb
        · exact .inl (by simp [hb])
        · exact .inl (by simp [hb])

/-- One job that nothing hinders removes a session that is being deleted. -/
theorem gone_of_unhindered (hmain : σ.main = reconcile lib) (hc : σ.Reachable c)
    (ho : c.server.current = some o) (hdel : o.metadata.deletionTimestamp.isSome)
    (hd : Unhindered (Smooth lib o.spec clock found) c d) : d.server.current = none := by
  have ht := traced hmain hc
  obtain ⟨l,hl⟩ := Server.current_eq_some.mp ho
  have hfin : o.metadata.finalizers = [rancherFinalizer] :=
    (finalizers_cases ht (by rw [hl])).resolve_left (ht.server.held (Server.mem_of_current ho) hdel)
  obtain ⟨b,hsame,-,⟨-,-,hnone⟩ | ⟨n,hcur⟩⟩ :=
    hd.rewrites Permits.disciplined (hmain ▸ reconcile_obeys lib) hmain
      (leads_released hdel (by simp [hfin])) hc ho
  · exact hnone
  · -- Nothing would hold it any more.
    have hheld := (traced hmain (hd.reachable hc)).server.held (Server.mem_of_current hcur)
    obtain ⟨⟨m,hm⟩,-⟩ := hsame
    exact absurd (by simp [hfin]) (hheld (by rw [hm]; exact hdel))

/-- One job that nothing hinders takes down a connected session that is over, and removes one that
is being deleted, whatever has gone wrong with it before. -/
theorem session_ends (lib : Externals) (σ : System rancherSession calls (Except String Result))
    (hmain : σ.main = reconcile lib) (c d : Config σ) (hc : σ.Reachable c) (o : RancherSession)
    (ho : c.server.current = some o) (clock : Clock → Time → Prop)
    (found : Except Rancher.Error Unit → Prop)
    (hd : Unhindered (Smooth lib o.spec clock found) c d) :
    (o.metadata.deletionTimestamp = none → rancherFinalizer ∈ o.metadata.finalizers →
      o.spec.suspend = false → o.status.phase = .connected → Over o clock found →
      ∃ o', d.server.current = some o' ∧ o'.metadata.uid = o.metadata.uid ∧
        o'.status.phase = .disconnected) ∧
    (o.metadata.deletionTimestamp.isSome → d.server.current = none) := by
  refine ⟨?_,fun hdel => gone_of_unhindered hmain hc ho hdel hd⟩
  intro hlive hf hwanted hphase hover
  have hl : Live o := ⟨hlive,hf,hwanted⟩
  obtain ⟨-,o',-,hcur,⟨⟨n,hm⟩,-⟩,hdone⟩ :=
    hd.leaves Permits.disciplined (hmain ▸ reconcile_obeys lib)
    hmain (leads_phase hl fun _ _ hf he => he.disconnects hlive hphase hover hf) hc ho
  exact ⟨o',hcur,by rw [hm],hdone⟩

end jobs

/-! ## The life of a session -/

/-- The clock stands still, and every call works. -/
def smoothly (t : Time) : (system .plain).Script where
  refuse _ := none
  serve _ w e := World.serve t w e
  sound := answers_of_serve

theorem smoothly_smooth (spec : RancherSessionSpec) (t : Time) (clock : Clock → Time → Prop)
    (ht : ∀ site, clock site t) {h : Past} {w w' : World} {e : Call} {r : calls.Answer e}
    (hs : (smoothly t).serve h w e = some (r,w')) :
    Smooth .plain spec clock (fun _ => True) e r := by
  have hs : World.serve t w e = some (r,w') := hs
  match e with
  | .now site =>
    cases hs
    exact ht site
  | .getSecret ref =>
    cases hs
    exact fun _ => ⟨credentials,rfl,_,rfl⟩
  | .rancher _ (.findCluster name) =>
    simp only [World.serve] at hs
    split at hs
    · cases hs
      exact ⟨_,rfl⟩
    · cases hs
      exact ⟨_,rfl⟩
  | .rancher _ (.createCluster name) =>
    obtain ⟨-,hs⟩ := Option.ite_none_right_eq_some.mp hs
    cases hs
    exact ⟨_,rfl⟩
  | .rancher _ (.getRegistrationToken _) =>
    cases hs
    exact ⟨_,rfl⟩
  | .rancher _ (.getCluster _) => trivial
  | .fetchManifest _ _ =>
    cases hs
    exact ⟨200,_,by decide,rfl⟩
  | .getDeployment _ =>
    cases hs
    exact ⟨1,by decide,rfl⟩
  | .rancher _ (.deleteCluster _) | .apply _ =>
    cases hs
    rfl
  | .deleteNamespace _ =>
    obtain ⟨-,hs⟩ := Option.ite_none_right_eq_some.mp hs
    cases hs
    exact .inl rfl

/-- A new session is connected after three jobs. -/
theorem session_connects_new : ∃ c d : Config (system .plain), (system .plain).Reachable c ∧
    ∃ o, c.server.current = some o ∧ remaining o = 3 ∧
      Rounds (Smooth .plain o.spec (window (0 : ℤ)) fun _ => True) 3 c d ∧
      ∃ h o', d.past.head? = some h ∧ d.server.current = some o' ∧
        o'.metadata.uid = o.metadata.uid ∧ o'.spec = o.spec ∧
        Established (window (0 : ℤ)) o.spec h o'.status := by
  obtain ⟨c,d,hc,hp,hd⟩ := System.exists_rounds (start_emptyWorld .plain) [.create newSession]
    (smoothly_smooth newSession.spec (0 : ℤ) (window (0 : ℤ)) fun _ => ⟨by decide,by decide⟩) 3
    (fun c => c.server.current.any fun o => o.spec = newSession.spec ∧ remaining o = 3 ∧
      o.metadata.deletionTimestamp = none ∧ o.status.phase = .unset) (by decide +kernel)
  obtain ⟨o,ho,hp⟩ := (Option.any_eq_true _ _).mp hp
  obtain ⟨hspec,hrem,hlive,hphase⟩ := of_decide_eq_true hp
  rw [← hspec] at hd
  refine ⟨c,d,hc,o,ho,hrem,hd,?_⟩
  have hp : Connectable (0 : ℤ) o :=
    ⟨hlive,by rw [hspec]; rfl,.inl hphase,.inl (by rw [hspec]; decide)⟩
  exact session_connects .plain _ rfl c d hc o ho (0 : ℤ) hp (by rw [hrem]; exact hd)

/-- An hour later it is disconnected; had it been deleted, it would be gone. -/
theorem session_ends_expired :
    (∃ c d : Config (system .plain), (system .plain).Reachable c ∧ ∃ o, c.server.current = some o ∧
      o.status.phase = .connected ∧
      ∃ o', d.server.current = some o' ∧ o'.metadata.uid = o.metadata.uid ∧
        o'.status.phase = .disconnected) ∧
    ∃ c d : Config (system .plain), (system .plain).Reachable c ∧ ∃ o, c.server.current = some o ∧
      o.metadata.deletionTimestamp.isSome ∧ d.server.current = none := by
  constructor
  · obtain ⟨c,d,hc,hp,d',hd,rfl⟩ := System.exists_rounds (start_emptyWorld .plain) connect
      (smoothly_smooth newSession.spec (4000*second : ℤ) (fun site t => site = .ttlCheck →
        (3600*second : ℤ) < (t : ℤ)) fun _ _ => by decide) 1
      (fun c => c.server.current.any fun o => o.spec = newSession.spec ∧
        o.metadata.deletionTimestamp = none ∧ rancherFinalizer ∈ o.metadata.finalizers ∧
        o.status.phase = .connected ∧ o.status.expiresAt = some (3600*second : ℤ))
      (by decide +kernel)
    obtain ⟨o,ho,hp⟩ := (Option.any_eq_true _ _).mp hp
    obtain ⟨hspec,hlive,hf,hphase,he⟩ := of_decide_eq_true hp
    rw [← hspec] at hd
    refine ⟨c,d,hc,o,ho,hphase,?_⟩
    exact (session_ends .plain _ rfl c d hc o ho _ _ hd).1 hlive hf (by rw [hspec]; rfl) hphase
      (.expired he)
  · obtain ⟨c,d,hc,hp,d',hd,rfl⟩ := System.exists_rounds (start_emptyWorld .plain)
      (connect ++ [.markDeleted (10*second : ℤ)])
      (smoothly_smooth newSession.spec (4000*second : ℤ) (fun _ _ => True) fun _ => trivial) 1
      (fun c => c.server.current.any fun o => o.spec = newSession.spec ∧
        o.metadata.deletionTimestamp.isSome) (by decide +kernel)
    obtain ⟨o,ho,hp⟩ := (Option.any_eq_true _ _).mp hp
    obtain ⟨hspec,hdel⟩ := of_decide_eq_true hp
    rw [← hspec] at hd
    exact ⟨c,d,hc,o,ho,hdel,(session_ends .plain _ rfl c d hc o ho _ _ hd).2 hdel⟩

end LosantDevice.Session

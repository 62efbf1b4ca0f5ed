import LosantDevice.Kube.Advance
import LosantDevice.Kube.Settled
import LosantDevice.Session.Cleanup
import LosantDevice.Session.Outcome

/-!
# When a `RancherSession` is left alone

`SetupWithManager` of `internal/controller/ranchersession_controller.go` has no predicate, so a job
hears of every status it writes, and a job that has changed the object is followed by another one.
A session therefore rests only in states on which `Reconcile` does nothing more, and in two others:
the delay of a failed deletion is dropped, and a session may expire after it was found not to have.
-/
namespace LosantDevice.Session
open Effect Kube Go Program

variable {lib : Externals} {h : Past} {b : RancherSession}

/-- A status write was accepted. -/
def Stored (h : Past) (o : RancherSession) : Prop :=
  ∃ v, (⟨.inl (.updateStatus o),.ok v⟩ : Event interface) ∈ h

/-- The deletion of the cluster has failed, and that is in the status. -/
def Reported (h : Past) (id : String) : Prop :=
  ∃ (c : Rancher.HTTPClient) (err : Rancher.Error) (o : RancherSession),
    (⟨.inr (.rancher c (.deleteCluster id)),.error err⟩ : Event interface) ∈ h ∧ Stored h o ∧
      o.status.phase = .disconnecting ∧ o.status.lastTransitionMessage = err.text

/-- Why a job that has read `b` does not ask to be run again. -/
inductive Stops (b : RancherSession) (h : Past) : Prop
  | released (deleting : b.metadata.deletionTimestamp.isSome)
      (free : rancherFinalizer ∉ b.metadata.finalizers)
  | suspended (live : b.metadata.deletionTimestamp = none) (suspended : b.spec.suspend = true)
  | halted (live : Live b) (phase : b.status.phase = .failed ∨ b.status.phase = .disconnected ∨
      b.status.phase = .disconnecting)
  | expired (live : Live b) (phase : b.status.phase = .connected)
      (late : ∀ expires, b.status.expiresAt = some expires → ∃ (s t : Time) (l : Past),
        h = ⟨.inr (.now .ttlLeft),t⟩::l ∧ (⟨.inr (.now .ttlCheck),s⟩ : Event interface) ∈ l ∧
          s ≤ expires ∧ expires ≤ t)
  | stored {o} (live : Live b) (write : Stored h o) (phase : o.status.phase = .failed ∨
      o.status.phase = .disconnected ∨ o.status.phase ≠ b.status.phase)
  | updated {o v} (write : (⟨.inl (.update o),.ok v⟩ : Event interface) ∈ h)
  | undelayed (closing : Closing b) (reported : Reported h b.status.rancherClusterID)

/-! ## The ends of a job -/

section ends
variable {x : RancherSession} {rc : Option Rancher.HTTPClient} {res : Result}

theorem ConnectEnds.stops (hl : Live x) (he : ConnectEnds x h (.ok res)) :
    res.AsksAgain ∨ Stops x h := by
  cases he with
  | unreachable | recorded => exact .inl (by decide)
  | failed hphase => exact .inr (.stored hl ⟨_,List.mem_cons_self⟩ (.inl hphase))

theorem PollEnds.stops {h₀ : Past} (hl : Live x) (hp : x.status.phase = .connecting)
    (he : PollEnds x h₀ h (.ok res)) : res.AsksAgain ∨ Stops x h := by
  cases he with
  | failed _ hphase => exact .inr (.stored hl ⟨_,List.mem_cons_self⟩ (.inl hphase))
  | unready => exact .inl (by decide)
  | connected _ _ hphase =>
    refine .inr (.stored hl ⟨_,List.mem_cons_self⟩ (.inr (.inr ?_)))
    rw [hphase,hp]
    exact nofun

/-- The cleanup asks for a delay only if the cluster could not be deleted. -/
theorem CleanupEnds.stops (hb : Live x ∨ Closing x) (he : CleanupEnds rc x h (.ok res)) :
    res.AsksAgain ∧ Reported h x.status.rancherClusterID ∨ Stops x h := by
  cases he with
  | undeleted htold hphase hmsg =>
    exact .inl ⟨by decide,_,_,_,List.mem_cons_of_mem _ htold,⟨_,List.mem_cons_self⟩,hphase,hmsg⟩
  | disconnected hlive _ hphase =>
    rcases hb with hl | hcl
    · exact .inr (.stored hl ⟨_,List.mem_cons_self⟩ (.inr (.inl hphase)))
    · have hdel := hcl.deleting
      rw [hlive] at hdel
      cases hdel
  | released => exact .inr (.updated List.mem_cons_self)

theorem ConnectedEnds.stops (hl : Live x) (hp : x.status.phase = .connected)
    (he : ConnectedEnds x h (.ok res)) : res.AsksAgain ∨ Stops x h := by
  cases he with
  | cleanup hc => exact (hc.stops (.inl hl)).imp And.left id
  | unreachable => exact .inl (by decide)
  | unlimited _ _ hnone =>
    refine .inr (.expired hl hp fun expires he => ?_)
    rw [hnone] at he
    cases he
  | left _ _ _ hleft => exact .inl (.inr hleft)
  | ended hu _ hsome hle =>
    obtain ⟨s,hs,hearly⟩ := hu _ hsome
    refine .inr (.expired hl hp fun expires he => ⟨s,_,_,rfl,hs,?_⟩)
    obtain rfl := Option.some.inj (hsome.symm.trans he)
    exact ⟨hearly,hle⟩

theorem DisconnectEnds.stops (hdel : x.metadata.deletionTimestamp.isSome)
    (he : DisconnectEnds lib x h (.ok res)) : Stops x h := by
  cases he with
  | free hfree => exact .released hdel hfree
  | cleanup hheld _ hended hresult =>
    have hcl : Closing x := ⟨hdel,hheld⟩
    obtain ⟨res',rfl⟩ := hresult res rfl
    rcases hended.stops (.inr hcl) with ⟨-,hrep⟩ | hs
    · exact .undelayed hcl hrep
    · exact hs

theorem PhaseEnds.stops (hl : Live x) (he : PhaseEnds x h (.ok res)) :
    res.AsksAgain ∨ Stops x h := by
  cases he with
  | connect _ hc => exact hc.stops hl
  | poll hp _ hc => exact hc.stops hl hp
  | connected hp hc => exact hc.stops hl hp
  | halted hp => exact .inr (.halted hl hp)

theorem ReconcileEnds.stops (he : ReconcileEnds lib x h (.ok res)) :
    res.AsksAgain ∨ Stops x h := by
  cases he with
  | disconnect hdel hc => exact .inr (hc.stops hdel)
  | attached => exact .inl (by decide)
  | suspended hlive _ hsus => exact .inr (.suspended hlive hsus)
  | unusable hl hphase => exact .inr (.stored hl ⟨_,List.mem_cons_self⟩ (.inl hphase))
  | phase hl hc => exact hc.stops hl

end ends

/-- A job that ends without an error has read its object, and asks to be run again or stops. -/
def Concludes (h : Past) (r : Except String Result) : Prop :=
  ∀ res, r = .ok res → ∃ x, Manager.readOf h = some x ∧ ∀ b, x = some b →
    [⟨.inl .get,.ok b⟩] <:+ h ∧ (res.AsksAgain ∨ Stops b h)

theorem reconcile_concludes (lib : Externals) :
    Obeys (fun _ _ => True) Concludes [] (reconcile lib) := by
  refine ⟨trivial,?_⟩
  rintro (err | (b : RancherSession))
  · change Obeys _ _ _ (if err.reason = .notFound then _ else _)
    by_cases he : err.reason = .notFound
    · rw [if_pos he]
      intro res _
      refine ⟨none,?_,fun b hb => nomatch hb⟩
      change (if err.reason = .notFound then some none else none) = _
      rw [if_pos he]
    · rw [if_neg he]
      exact fun res hr => nomatch hr
  · have hends : EndsIn (ReconcileEnds lib b) [⟨.inl .get,.ok b⟩] (reconcileObject lib b) :=
      reconcileObject_outcome rfl
    refine (hends.later (List.suffix_refl _)).mono (fun _ _ hp => hp) ?_
    rintro h r ⟨hr,hs⟩ res rfl
    refine ⟨some b,Manager.readOf_of_suffix hs,?_⟩
    rintro _ ⟨⟩
    exact ⟨hs,hr.stops⟩

/-! ## Every run -/

section runs
variable {σ : System rancherSession calls (Except String Result)} {o : RancherSession}

/-- A connected session has an expiry. -/
theorem expiry_of_connected {c : Config σ} (ht : c.Traced (Permits lib))
    {l : List (Option RancherSession)} (hl : l <:+ c.server.log) (ho : some o ∈ l)
    (hp : o.status.phase = .connected) : o.status.expiresAt.isSome := by
  induction l generalizing o with
  | nil => simp at ho
  | cons x l ih =>
    have ih := fun {o} => @ih o ((List.suffix_cons _ _).trans hl)
    rcases List.mem_cons.mp ho with rfl | ho
    · cases ht.origin hl with
      | created _ hb =>
        rw [hb.2.2] at hp
        cases hp
      | user _ hst _ _ =>
        rw [hst] at hp ⊢
        exact ih List.mem_cons_self hp
      | @status a b l h k v hm he hcopy _ _ hadm =>
        obtain ⟨b',hb',-,-,hw⟩ := ht.allowed hm he
        obtain rfl := Option.some.inj (hcopy.symm.trans hb')
        have hadm : a.status.Admitted := hadm
        change a.status.phase = .connected at hp
        change (storedTime a.status.expiresAt).isSome
        rw [isSome_storedTime hadm.2.1]
        generalize a.status = t at hw hp
        -- Only `pollAgentReady` stores the phase; an unreachable API keeps it, and the expiry.
        cases hw with
        | connected now _ _ _ _ _ _ _ hexp =>
          rw [hexp]
          rfl
        | unreachable _ hphase hk =>
          rw [hk.expiresAt]
          exact ih List.mem_cons_self (hphase.symm.trans hp)
        | manifest _ _ hphase =>
          rw [hphase] at hp
          cases hp
        | failed _ hphase =>
          rw [hphase] at hp
          cases hp
        | connecting | disconnecting | disconnected => cases hp
      | object _ _ _ _ hk =>
        have hst := congrArg Object.status (hk o rfl)
        dsimp only at hst
        rw [hst] at hp ⊢
        exact ih List.mem_cons_self hp
    · exact ih ho hp

/-- The ways in which a session is left alone by the last job that came to its end. -/
inductive LeftAlone (last : Option (Past × Except String Result)) (o : RancherSession) : Prop
  | released (deleting : o.metadata.deletionTimestamp.isSome)
      (free : rancherFinalizer ∉ o.metadata.finalizers)
  | suspended (live : o.metadata.deletionTimestamp = none) (suspended : o.spec.suspend = true)
  | halted (live : Live o) (phase : o.status.phase = .failed ∨ o.status.phase = .disconnected ∨
      o.status.phase = .disconnecting)
  | expired {k l res expires} {s t : Time} (live : Live o) (phase : o.status.phase = .connected)
      (job : last = some (k,.ok res)) (read : Manager.readOf k = some (some o))
      (expiry : o.status.expiresAt = some expires) (left : k = ⟨.inr (.now .ttlLeft),t⟩::l)
      (check : (⟨.inr (.now .ttlCheck),s⟩ : Event interface) ∈ l)
      (early : s ≤ expires) (late : expires ≤ t)
  | undelayed {k res} {c : Rancher.HTTPClient} {err : Rancher.Error} (closing : Closing o)
      (phase : o.status.phase = .disconnecting) (job : last = some (k,.ok res))
      (read : Manager.readOf k = some (some o))
      (failed : (⟨.inr (.rancher c (.deleteCluster o.status.rancherClusterID)),.error err⟩ :
        Event interface) ∈ k)
      (noted : o.status.lastTransitionMessage = err.text)

/-- In every run of the process, whatever the order of edits, notices, jobs, retries and restarts,
and however the calls are answered, a session is left at rest in one of these ways only. -/
theorem session_left_alone (hmain : σ.main = reconcile lib) {m : Manager σ}
    (h : Manager.Reachable (fun _ _ => true) m) (hrests : m.Rests)
    (ho : m.config.server.current = some o) : LeftAlone m.last o := by
  have hobeys : Obeys (fun h e => Permits lib h e ∧ True) (fun h r => Returns h r ∧ Concludes h r)
      [] σ.main := hmain ▸ (reconcile_obeys lib).and (reconcile_concludes lib)
  have hΦ : ∀ h e, Permits lib h e ∧ True → Disciplined h e :=
    fun h e hp => Permits.disciplined h e hp.1
  have hsettled := h.settled Manager.sifts_all hΦ hobeys
    (fun k res hk => (hk.2 res rfl).imp fun _ hx => hx.1) hrests
  rw [ho] at hsettled
  rcases hsettled with hnone | ⟨k,res,_,hlast,hmem,hend,hres,hread,rfl⟩
  · cases hnone
  obtain ⟨x,hx,hstop⟩ := hend.2 res rfl
  obtain ⟨hfirst,hasks | hstops⟩ := hstop o (Option.some.inj (hx.symm.trans hread))
  · exact absurd hasks hres
  -- What the last job has read is the latest state, so it has changed nothing.
  have hk : k ∈ m.config.histories := by simp [Config.histories,hrests.job,hmem]
  obtain ⟨hstatus,hupdate⟩ := System.Reachable.leaves_current hΦ hobeys h.config hk hfirst ho
  have hencode : ∀ a, Stored k a → a.status.encode = o.status := by
    rintro a ⟨v,hv⟩
    exact congrArg Object.status (hstatus a v hv)
  cases hstops with
  | released hdel hfree => exact .released hdel hfree
  | suspended hlive hsus => exact .suspended hlive hsus
  | halted hl hp => exact .halted hl hp
  | expired hl hp hlate =>
    have hexp := expiry_of_connected (traced hmain h.config) (List.suffix_refl _)
      (Server.mem_of_current ho) hp
    obtain ⟨expires,he⟩ := Option.isSome_iff_exists.mp hexp
    obtain ⟨s,t,l,hleft,hcheck,hearly,hle⟩ := hlate expires he
    exact .expired hl hp hlast hread he hleft hcheck hearly hle
  | @stored a hl hw hp =>
    have hphase : a.status.phase = o.status.phase := by
      rw [← hencode a hw]
      rfl
    rw [hphase] at hp
    rcases hp with hp | hp | hp
    · exact .halted hl (.inl hp)
    · exact .halted hl (.inr (.inl hp))
    · exact absurd rfl hp
  | updated hw =>
    obtain ⟨l,⟨⟨b,hb,hp⟩,-⟩,hcopy,hfin⟩ := hupdate _ _ hw
    obtain rfl := Option.some.inj (hb.symm.trans hcopy)
    rcases hp with ⟨-,-,-,rfl⟩ | hrel
    · simp at hfin
    · have hheld := hrel.closing.held
      rw [← hfin,hrel.object] at hheld
      simp at hheld
  | undelayed hcl hrep =>
    obtain ⟨c,err,a,hfail,hw,hphase,hmsg⟩ := hrep
    refine .undelayed hcl ?_ hlast hread hfail ?_
    · rw [← hencode a hw]
      exact hphase
    · rw [← hencode a hw]
      exact hmsg

end runs

/-! ## A deletion that is not taken up again -/

/-- A call that works at the time `t`, unless there is a fault that changes nothing. -/
def serveWith (t : Time) (fault : (e : Call) → Option (calls.Answer e)) (w : World) (e : Call) :
    Option (calls.Answer e × World) :=
  match fault e with
  | some r => if harmless e r then some (r,w) else none
  | none => w.serve t e

theorem answers_of_serveWith {t : Time} {fault : (e : Call) → Option (calls.Answer e)}
    {w w' : World} {e : Call} {r : calls.Answer e} (h : serveWith t fault w e = some (r,w')) :
    w.answers e r w' := by
  unfold serveWith at h
  split at h
  · split at h
    · rename_i hh
      cases h
      exact answers_of_harmless hh
    · cases h
  · exact answers_of_serve h

def worksWith (lib : Externals) (t : Time) (fault : (e : Call) → Option (calls.Answer e)) :
    (system lib).Script where
  refuse _ := none
  serve _ w e := serveWith t fault w e
  sound h := answers_of_serveWith h

/-- The session is connected, and deleted while Rancher fails. -/
def undeletedProcess : Manager (system .plain) :=
  (((Manager.starting emptyWorld newSession).advances (fun _ _ => true)
    (worksWith .plain 0 noFault) 37).markedDeleted (10*second : ℤ)).advances (fun _ _ => true)
      (worksWith .plain (20*second : ℤ) deleteClusterFails) 100

theorem reachable_undeletedProcess : Manager.Reachable (fun _ _ => true) undeletedProcess :=
  (((Manager.reachable_starting (start_emptyWorld .plain) ⟨rfl,rfl,rfl⟩).advances 37).markedDeleted
    _).advances 100

/-- The second failure is the one that is stored already. -/
theorem session_left_alone_undeleted : ∃ (m : Manager (system .plain)) (o : RancherSession),
    m.Rests ∧ m.config.server.current = some o ∧ Closing o ∧ LeftAlone m.last o := by
  have htest : undeletedProcess.resting = true ∧
      (undeletedProcess.config.server.current.any fun o =>
        o.metadata.deletionTimestamp.isSome ∧ rancherFinalizer ∈ o.metadata.finalizers) =
        true := by decide +kernel
  obtain ⟨hrest,hcur⟩ := htest
  obtain ⟨o,ho,hp⟩ := (Option.any_eq_true _ _).mp hcur
  obtain ⟨hdel,hheld⟩ := of_decide_eq_true hp
  have hrests := Manager.rests_of_resting hrest
  exact ⟨_,o,hrests,ho,⟨hdel,hheld⟩,
    session_left_alone rfl reachable_undeletedProcess hrests ho⟩

end LosantDevice.Session

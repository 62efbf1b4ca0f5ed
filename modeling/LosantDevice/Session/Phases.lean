import LosantDevice.Session.Cleanup
import LosantDevice.Session.Interrupted

/-!
# The phases of a session

Which phases may follow each other in the stored object. A step is read off the status that a job
writes over its copy, and every step that is not excluded so is taken in some run.
-/
namespace LosantDevice.Session
open Effect Kube Go Program

/-- The steps of the phase. A cleanup may start in every phase when the session is deleted, and in
every phase a session fails without a client. -/
inductive Edge : RancherSessionPhase → RancherSessionPhase → Prop
  | start : Edge .unset .connecting
  | agentReady : Edge .connecting .connected
  | cleanup {p} (other : p ≠ .disconnecting) : Edge p .disconnecting
  | cleaned : Edge .disconnecting .disconnected
  | failure {p} (other : p ≠ .failed) : Edge p .failed

section runs
variable {lib : Externals} {σ : System rancherSession calls (Except String Result)} {c : Config σ}
  {o b : RancherSession} {k : Past} {t : RancherSessionStatus} {p q : RancherSessionPhase}

/-- A status that a job writes has the phase of its copy, or the next one. -/
theorem StatusWrite.edge (hw : StatusWrite lib k b t) :
    t.phase = b.status.phase ∨ Edge b.status.phase t.phase := by
  cases hw with
  | connecting _ _ hstart =>
    rcases hstart with hp | ⟨hp,-⟩
    · rw [hp]
      exact .inr .start
    · rw [hp]
      exact .inl rfl
  | manifest _ hc hphase => exact .inl (hphase.trans hc.phase.symm)
  | connected _ _ _ hbefore hphase =>
    rw [hbefore.1,hphase]
    exact .inr .agentReady
  | disconnecting =>
    by_cases hp : b.status.phase = .disconnecting
    · exact .inl hp.symm
    · exact .inr (.cleanup hp)
  | disconnected hc =>
    rw [hc.phase]
    exact .inr .cleaned
  | unreachable _ hphase => exact .inl hphase
  | failed _ hphase =>
    rw [hphase]
    by_cases hp : b.status.phase = .failed
    · exact .inl hp.symm
    · exact .inr (.failure hp)

theorem edge_of_states (ht : c.Traced (Permits lib)) {l : List (Option RancherSession)}
    (hl : some o::some b::l <:+ c.server.log) (hu : o.metadata.uid = b.metadata.uid) :
    o.status.phase = b.status.phase ∨ Edge b.status.phase o.status.phase := by
  rcases ht.status_step hl hu with hst | ⟨h,hh,a,v,k,hev,hcopy,rfl⟩
  · exact .inl (by rw [hst])
  · obtain ⟨b',hb',-,-,hw⟩ := ht.allowed hh hev
    obtain rfl := Option.some.inj (hcopy.symm.trans hb')
    exact hw.edge

/-- The phase of some object goes from one to the other. -/
def Moves (c : Config σ) (p q : RancherSessionPhase) : Prop :=
  ∃ o b l, some o::some b::l <:+ c.server.log ∧ o.metadata.uid = b.metadata.uid ∧
    b.status.phase = p ∧ o.status.phase = q

/-- The steps of the phase in a log. -/
def phaseSteps : List (Option RancherSession) → List (RancherSessionPhase × RancherSessionPhase)
  | [] => []
  | x::l =>
    match x,l.head?.join with
    | some o,some b =>
      if o.metadata.uid = b.metadata.uid then (b.status.phase,o.status.phase)::phaseSteps l
      else phaseSteps l
    | _,_ => phaseSteps l

theorem states_of_phaseSteps {log : List (Option RancherSession)} (h : (p,q) ∈ phaseSteps log) :
    ∃ o b l, some o::some b::l <:+ log ∧ o.metadata.uid = b.metadata.uid ∧
      b.status.phase = p ∧ o.status.phase = q := by
  induction log with
  | nil => cases h
  | cons x l ih =>
    have hrest : (p,q) ∈ phaseSteps l → ∃ o b l', some o::some b::l' <:+ x::l ∧
        o.metadata.uid = b.metadata.uid ∧ b.status.phase = p ∧ o.status.phase = q := by
      intro h
      obtain ⟨o,b,l',hl,hrest⟩ := ih h
      exact ⟨o,b,l',hl.trans (List.suffix_cons x l),hrest⟩
    unfold phaseSteps at h
    split at h
    · rename_i o b hb
      split at h
      · rename_i hu
        rcases List.mem_cons.mp h with he | h
        · obtain ⟨l',rfl⟩ : ∃ l', l = some b::l' := by
            cases l with
            | nil => cases hb
            | cons y l' => exact ⟨l',by rw [show y = some b from hb]⟩
          cases he
          exact ⟨o,b,l',List.suffix_refl _,hu,rfl,rfl⟩
        · exact hrest h
      · exact hrest h
    · exact hrest h

end runs

/-! ## Runs that take each step -/

def secretGone : (e : Call) → Option (calls.Answer e)
  | .getSecret _ => some (.error ⟨.notFound,"secrets \"rancher\" not found"⟩)
  | _ => none

/-- A job at the time `t` with the given faults. -/
def jobAt (t : Time) (fault : (e : Call) → Option (calls.Answer e)) : (system .plain).Act :=
  job .plain t fault fun _ => none

/-- The first jobs of a new session, of which one each adds the finalizer, registers the cluster
and finds the agent. -/
def begin (n : ℕ) : List (system .plain).Act :=
  .create newSession::List.replicate n (jobAt 0 noFault)

/-- The session has expired. -/
def late : Time := (4000*second : ℤ)

/-- A run in which the phase goes from one to the other. -/
def story : RancherSessionPhase → RancherSessionPhase → List (system .plain).Act
  | .unset,.failed => begin 1 ++ [jobAt 0 secretGone]
  | .connecting,.failed => begin 2 ++ [jobAt 0 secretGone]
  | .disconnecting,.failed => begin 3 ++ [jobAt late deleteClusterFails,jobAt late secretGone]
  | .disconnected,.failed => begin 3 ++ [jobAt late noFault,jobAt late secretGone]
  | .unset,.disconnecting => begin 1 ++ [.markDeleted 0,jobAt 0 noFault]
  | .connecting,.disconnecting => begin 2 ++ [.markDeleted 0,jobAt 0 noFault]
  | .disconnected,.disconnecting => begin 3 ++
    [jobAt late noFault,.markDeleted late,jobAt late noFault]
  | .failed,.disconnecting => begin 3 ++ [jobAt 0 secretGone,.markDeleted 0,jobAt 0 noFault]
  | .connected,.failed => begin 3 ++ [jobAt 0 secretGone]
  | _,_ => begin 3 ++ [jobAt late noFault]

/-- The run of `story` takes the step. -/
def tells (p q : RancherSessionPhase) : Bool :=
  (System.replay (fun _ _ => true) (story p q) ⟨⟨[],0⟩,emptyWorld,[],none⟩).any fun c =>
    (p,q) ∈ phaseSteps c.server.log

theorem tells_of_edge {p q : RancherSessionPhase} (he : Edge p q) : tells p q = true := by
  cases he with
  | start | agentReady | cleaned => decide +kernel
  | cleanup hp =>
    cases p with
    | disconnecting => exact absurd rfl hp
    | unset | connecting | connected | disconnected | failed => decide +kernel
  | failure hp =>
    cases p with
    | failed => exact absurd rfl hp
    | unset | connecting | connected | disconnecting | disconnected => decide +kernel

/-- The phase of a stored session goes from one to another one in some run exactly if it is one of
these steps. -/
theorem session_phases_exact (p q : RancherSessionPhase) :
    (p ≠ q ∧ ∃ (lib : Externals) (c : Config (system lib)), (system lib).Reachable c ∧
      Moves c p q) ↔
      Edge p q := by
  constructor
  · rintro ⟨hne,lib,c,hc,o,b,l,hl,hu,rfl,rfl⟩
    exact (edge_of_states (traced rfl hc) hl hu).resolve_left (Ne.symm hne)
  · intro he
    refine ⟨?_,.plain,?_⟩
    · rintro rfl
      cases he with
      | cleanup hp | failure hp => exact hp rfl
    · obtain ⟨c,hc,hp⟩ := (Option.any_eq_true _ _).mp (tells_of_edge he)
      refine ⟨c,(System.replay_reachable (.init (start_emptyWorld .plain)) hc).reachable,?_⟩
      exact states_of_phaseSteps (of_decide_eq_true hp)

end LosantDevice.Session

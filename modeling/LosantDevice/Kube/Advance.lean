import LosantDevice.Kube.Manager
import LosantDevice.Kube.Replay

/-!
# Evaluated runs of a process

The process goes on by itself: the running job first, then the cache and the handler, then the
queue. What is reached so is reachable, and whether the process rests can be decided.
-/
namespace Kube.Manager
open Effect

variable {K : Kind} {X : Interface} {σ : System K X (Except String Result)}
  {passes : Option K.Object → Option K.Object → Bool} {m m' : Manager σ}

/-- The next step of the running job. -/
def work (f : σ.Script) (m : Manager σ) (h : History (K.interface X)) :
    Program (K.interface X) (Except String Result) → Option (Manager σ)
  | .done r => some { m with
      config := { m.config with past := h::m.config.past, job := none }
      queue := m.queue.finish () (asksAgain r)
      last := some (h,r) }
  | .call (.inl .get) next =>
    let r : Except ApiError K.Object := m.cached.elim (.error ⟨.notFound,"not found"⟩) .ok
    some { m with config := { m.config with
      server := { m.config.server with seen := m.cache.length }
      job := some (⟨.inl .get,r⟩::h,next r) } }
  | .call (.inl (.update o)) next =>
    let (r,s) := m.config.server.wrote (m.config.server.update o)
    some { m with config := { m.config with
      server := s, job := some (⟨.inl (.update o),r⟩::h,next r) } }
  | .call (.inl (.updateStatus o)) next =>
    let (r,s) := m.config.server.wrote (m.config.server.updateStatus o)
    some { m with config := { m.config with
      server := s, job := some (⟨.inl (.updateStatus o),r⟩::h,next r) } }
  | .call (.inr e) next =>
    (f.serve h m.config.world e).map fun (r,w) =>
      { m with config := { m.config with world := w, job := some (⟨.inr e,r⟩::h,next r) } }

/-- The next step without a job: the cache follows the log, the handler is told, the next job is
taken, and at last one that waits is queued. -/
def attend (passes : Option K.Object → Option K.Object → Bool) (m : Manager σ) :
    Option (Manager σ) :=
  if m.cache = m.config.server.log then
    match m.notices with
    | (old,new)::rest => some { m with
        notices := rest, queue := if passes old new then m.queue.add () else m.queue }
    | [] =>
      match m.queue.get with
      | some ((),queue) => some { m with
          config := { m.config with job := some ([],σ.main) }, queue }
      | none => if () ∈ m.queue.waiting then some { m with queue := m.queue.fire () } else none
  else
    match m.config.server.log.drop (m.config.server.log.length-(m.cache.length+1)) with
    | [] => none
    | x::l => if l = m.cache then
        some { m with cache := x::m.cache, notices := m.notices ++ [(m.cached,x)] } else none

def advance (passes : Option K.Object → Option K.Object → Bool) (f : σ.Script) (m : Manager σ) :
    Option (Manager σ) :=
  match m.config.job with
  | some (h,p) => m.work f h p
  | none => m.attend passes

theorem wrote_answers (s : Server K) (o : K.Object) :
    s.Answers (X := X) (.update o) (s.wrote (s.update o)).1 (s.wrote (s.update o)).2 ∧
    s.Answers (X := X) (.updateStatus o) (s.wrote (s.updateStatus o)).1
      (s.wrote (s.updateStatus o)).2 := by
  constructor
  · cases hx : s.update o with
    | none => rfl
    | some y => exact hx
  · cases hx : s.updateStatus o with
    | none => rfl
    | some y => exact hx

theorem work_step {f : σ.Script} {h : History (K.interface X)}
    {p : Program (K.interface X) (Except String Result)} (hj : m.config.job = some (h,p))
    (hm : m.work f h p = some m') : Step passes m m' := by
  match p with
  | .done r =>
    cases hm
    exact .finish hj
  | .call (.inl .get) next =>
    cases hm
    refine .read hj ?_
    cases hc : m.cached with
    | none => exact ⟨hc,rfl⟩
    | some o => exact ⟨hc,rfl⟩
  | .call (.inl (.update o)) next =>
    cases hm
    exact .write hj nofun (wrote_answers _ o).1
  | .call (.inl (.updateStatus o)) next =>
    cases hm
    exact .write hj nofun (wrote_answers _ o).2
  | .call (.inr e) next =>
    obtain ⟨⟨r,w⟩,hs,rfl⟩ := Option.map_eq_some_iff.mp hm
    exact .outside hj (f.sound hs)

theorem attend_step (hj : m.config.job = none) (hm : m.attend passes = some m') :
    Step passes m m' := by
  unfold attend at hm
  split at hm
  · split at hm
    · rename_i hn
      cases hm
      exact .handle hn
    · split at hm
      · rename_i queue hq
        cases hm
        exact .take hj hq
      · split at hm
        · rename_i hw
          cases hm
          exact .fire hw
        · cases hm
  · split at hm
    · cases hm
    · rename_i x l hl
      split at hm
      · rename_i he
        cases hm
        refine .deliver ?_
        rw [← he,← hl]
        exact List.drop_suffix _ _
      · cases hm

theorem advance_step {f : σ.Script} (hm : m.advance passes f = some m') : Step passes m m' := by
  unfold advance at hm
  split at hm
  · rename_i hj
    exact work_step hj hm
  · rename_i hj
    exact attend_step hj hm

/-- The process after a number of steps by itself, or when it comes to rest before. -/
def advances (passes : Option K.Object → Option K.Object → Bool) (f : σ.Script) :
    ℕ → Manager σ → Manager σ
  | 0,m => m
  | n+1,m =>
    match m.advance passes f with
    | some m' => advances passes f n m'
    | none => m

theorem Reachable.advances {f : σ.Script} (h : Reachable passes m) (n : ℕ) :
    Reachable passes (m.advances passes f n) := by
  induction n generalizing m with
  | zero => exact h
  | succ n ih =>
    unfold Manager.advances
    split
    · rename_i hm
      exact ih (h.step (advance_step hm))
    · exact h

/-- A decision of whether the process is at rest. -/
def resting (m : Manager σ) : Bool :=
  decide (m.cache = m.config.server.log) && m.notices.isEmpty && m.config.job.isNone &&
    decide (m.queue.dirty = ∅) && decide (m.queue.waiting = ∅)

theorem rests_of_resting (h : m.resting = true) : m.Rests := by
  simp only [resting,Bool.and_eq_true,decide_eq_true_eq,List.isEmpty_iff,Option.isNone_iff_eq_none]
    at h
  obtain ⟨⟨⟨⟨hcache,hnotices⟩,hjob⟩,hdirty⟩,hwaiting⟩ := h
  refine ⟨hcache,hnotices,hjob,?_⟩
  rintro (hd | hw)
  · exact hd hdirty
  · exact hw hwaiting

/-- A process that finds a new object. -/
def starting (w : σ.World) (o : K.Object) : Manager σ where
  config := ⟨Server.store ⟨[],0⟩ o,w,[],none⟩

theorem reachable_starting {w : σ.World} {o : K.Object} (hw : σ.start w)
    (hbare : o.metadata.finalizers = [] ∧ o.metadata.deletionTimestamp = none ∧
      o.status = K.initial) : Reachable passes (starting (σ := σ) w o) :=
  (Reachable.init hw).step (.user (.create o rfl (by simp) hbare))

/-- A user deletes the object if it is held. -/
def markedDeleted (t : Time) (m : Manager σ) : Manager σ :=
  match m.config.server.current with
  | none => m
  | some cur =>
    if cur.metadata.finalizers ≠ [] ∧ cur.metadata.deletionTimestamp = none then
      { m with config := { m.config with server := m.config.server.store { cur with
        metadata := { cur.metadata with
          deletionTimestamp := some t
          generation := cur.metadata.generation+1 } } } }
    else m

theorem Reachable.markedDeleted (h : Reachable passes m) (t : Time) :
    Reachable passes (m.markedDeleted t) := by
  unfold Manager.markedDeleted
  split
  · exact h
  · rename_i cur hcur
    split
    · rename_i hc
      exact h.step (.user (.markDeleted t hcur hc.1 hc.2))
    · exact h

end Kube.Manager

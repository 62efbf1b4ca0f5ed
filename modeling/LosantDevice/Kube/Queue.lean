import Mathlib.Data.Finset.Basic
import LosantDevice.Kube.Controller

/-!
# Work queues

The queue between the watches and the workers of a controller. A key is taken by one worker at a
time; one that is added while it is being worked on is queued again when the worker is done. A key
that is to be retried or resumed waits first. When it is added is left open.
-/
namespace Kube
variable {κ : Type}

/-- How the three parts of a queue hang together: what is queued is dirty and not being worked on,
and what is dirty is queued or being worked on. -/
structure Queue.Valid (queue : List κ) (dirty processing : Finset κ) : Prop where
  nodup : queue.Nodup
  queued : ∀ k ∈ queue, k ∈ dirty ∧ k ∉ processing
  covered : ∀ k ∈ dirty, k ∈ queue ∨ k ∈ processing

structure Queue (κ : Type) where
  queue : List κ
  dirty : Finset κ
  processing : Finset κ
  waiting : Finset κ
  valid : Queue.Valid queue dirty processing

namespace Queue

theorem Valid.empty : Valid [] (∅ : Finset κ) ∅ := ⟨List.nodup_nil,by simp,by simp⟩

def empty : Queue κ := ⟨[],∅,∅,∅,.empty⟩

variable [DecidableEq κ]

section valid
variable {queue : List κ} {dirty processing : Finset κ} {k : κ}

theorem Valid.busy (h : Valid queue dirty processing) (hk : k ∈ processing) :
    Valid queue (insert k dirty) processing where
  nodup := h.nodup
  queued x hx := ⟨Finset.mem_insert_of_mem (h.queued x hx).1,(h.queued x hx).2⟩
  covered x hx := by
    rcases Finset.mem_insert.mp hx with rfl | hx
    · exact .inr hk
    · exact h.covered x hx

theorem Valid.enqueue (h : Valid queue dirty processing) (hd : k ∉ dirty) (hp : k ∉ processing) :
    Valid (queue ++ [k]) (insert k dirty) processing where
  nodup := by
    rw [List.nodup_append]
    refine ⟨h.nodup,List.nodup_singleton k,?_⟩
    rintro x hx _ hy rfl
    exact hd (List.mem_singleton.mp hy ▸ (h.queued x hx).1)
  queued x hx := by
    rcases List.mem_append.mp hx with hx | hx
    · exact ⟨Finset.mem_insert_of_mem (h.queued x hx).1,(h.queued x hx).2⟩
    · rw [List.mem_singleton.mp hx]
      exact ⟨Finset.mem_insert_self k dirty,hp⟩
  covered x hx := by
    rcases Finset.mem_insert.mp hx with rfl | hx
    · exact .inl (by simp)
    · exact (h.covered x hx).imp (List.mem_append_left _) id

theorem Valid.take (h : Valid (k::queue) dirty processing) :
    Valid queue (dirty.erase k) (insert k processing) where
  nodup := (List.nodup_cons.mp h.nodup).2
  queued x hx := by
    have hne : x ≠ k := ne_of_mem_of_not_mem hx (List.nodup_cons.mp h.nodup).1
    obtain ⟨hd,hp⟩ := h.queued x (List.mem_cons_of_mem _ hx)
    exact ⟨Finset.mem_erase.mpr ⟨hne,hd⟩,by simp [hne,hp]⟩
  covered x hx := by
    obtain ⟨hne,hx⟩ := Finset.mem_erase.mp hx
    exact (h.covered x hx).imp (fun hq => (List.mem_cons.mp hq).resolve_left hne)
      (Finset.mem_insert_of_mem)

theorem Valid.clean (h : Valid queue dirty processing) (hd : k ∉ dirty) :
    Valid queue dirty (processing.erase k) where
  nodup := h.nodup
  queued x hx := ⟨(h.queued x hx).1,fun hp => (h.queued x hx).2 (Finset.mem_of_mem_erase hp)⟩
  covered x hx :=
    (h.covered x hx).imp id (fun hp => Finset.mem_erase.mpr ⟨ne_of_mem_of_not_mem hx hd,hp⟩)

theorem Valid.again (h : Valid queue dirty processing) (hd : k ∈ dirty) (hp : k ∈ processing) :
    Valid (queue ++ [k]) dirty (processing.erase k) where
  nodup := by
    rw [List.nodup_append]
    refine ⟨h.nodup,List.nodup_singleton k,?_⟩
    rintro x hx _ hy rfl
    exact (h.queued x hx).2 (List.mem_singleton.mp hy ▸ hp)
  queued x hx := by
    rcases List.mem_append.mp hx with hx | hx
    · exact ⟨(h.queued x hx).1,fun hp => (h.queued x hx).2 (Finset.mem_of_mem_erase hp)⟩
    · rw [List.mem_singleton.mp hx]
      exact ⟨hd,Finset.notMem_erase k processing⟩
  covered x hx := by
    by_cases hk : x = k
    · exact .inl (by simp [hk])
    · exact (h.covered x hx).imp (List.mem_append_left _)
        (fun hp => Finset.mem_erase.mpr ⟨hk,hp⟩)

end valid

/-- `Add`. -/
def add (q : Queue κ) (k : κ) : Queue κ :=
  if hd : k ∈ q.dirty then q
  else if hp : k ∈ q.processing then { q with dirty := insert k q.dirty, valid := q.valid.busy hp }
  else ⟨q.queue ++ [k],insert k q.dirty,q.processing,q.waiting,q.valid.enqueue hd hp⟩

def addAll (q : Queue κ) : List κ → Queue κ := List.foldl add q

/-- `Get`, or nothing while the queue is empty. -/
def get (q : Queue κ) : Option (κ × Queue κ) :=
  match hq : q.queue with
  | [] => none
  | k::ks => some (k,⟨ks,q.dirty.erase k,insert k q.processing,q.waiting,(hq ▸ q.valid).take⟩)

/-- `Done`. -/
def done (q : Queue κ) (k : κ) : Queue κ :=
  if hd : k ∈ q.dirty then
    if hp : k ∈ q.processing then
      { q with
        queue := q.queue ++ [k], processing := q.processing.erase k, valid := q.valid.again hd hp }
    else q
  else { q with processing := q.processing.erase k, valid := q.valid.clean hd }

/-- `AddAfter` and `AddRateLimited`: the key is added later. -/
def delay (q : Queue κ) (k : κ) : Queue κ := { q with waiting := insert k q.waiting }

/-- The time of a waiting key has come. -/
def fire (q : Queue κ) (k : κ) : Queue κ := { q.add k with waiting := q.waiting.erase k }

/-- The worker is done with the key, which may be asked for again. -/
def finish (q : Queue κ) (k : κ) (again : Bool) : Queue κ := (if again then q.delay k else q).done k

/-- Some key will be taken, now or later. -/
def Pending (q : Queue κ) : Prop := q.dirty ≠ ∅ ∨ q.waiting ≠ ∅

variable {q q' : Queue κ} {k : κ}

theorem mem_dirty_add : k ∈ (q.add k).dirty := by
  unfold add
  split
  · assumption
  · split <;> exact Finset.mem_insert_self k q.dirty

theorem pending_add : (q.add k).Pending := .inl (Finset.ne_empty_of_mem mem_dirty_add)

theorem Pending.add (h : q.Pending) (k : κ) : (q.add k).Pending := by
  unfold Queue.add
  split
  · exact h
  · split <;> exact .inl (Finset.insert_ne_empty k q.dirty)

theorem Pending.addAll (h : q.Pending) (ks : List κ) : (q.addAll ks).Pending := by
  induction ks generalizing q with
  | nil => exact h
  | cons k ks ih => exact ih (h.add k)

theorem pending_addAll {ks : List κ} (hks : ks ≠ []) : (q.addAll ks).Pending := by
  cases ks with
  | nil => exact absurd rfl hks
  | cons k ks => exact pending_add.addAll ks

theorem pending_fire : (q.fire k).Pending := .inl (Finset.ne_empty_of_mem (mem_dirty_add (q := q)))

theorem done_dirty : (q.done k).dirty = q.dirty ∧ (q.done k).waiting = q.waiting := by
  unfold done
  split
  · split <;> exact ⟨rfl,rfl⟩
  · exact ⟨rfl,rfl⟩

theorem Pending.finish (h : q.Pending) (k : κ) (again : Bool) : (q.finish k again).Pending := by
  unfold Queue.finish Pending
  rw [done_dirty.1,done_dirty.2]
  cases again with
  | false => exact h
  | true => exact .inr (Finset.insert_ne_empty k q.waiting)

theorem pending_finish : (q.finish k true).Pending := by
  unfold Queue.finish Pending
  rw [done_dirty.1,done_dirty.2]
  exact .inr (Finset.insert_ne_empty k q.waiting)

end Queue

/-- An error is retried, and a result may ask to be resumed. -/
def asksAgain {ε : Type} : Except ε Result → Bool
  | .error _ => true
  | .ok res => decide res.AsksAgain

end Kube

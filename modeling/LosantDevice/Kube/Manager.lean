import LosantDevice.Kube.Provenance
import LosantDevice.Kube.Queue

/-!
# A controller behind its watch and its queue

The process that runs a controller keeps a cache of the object, which follows the log state by
state. Its handler is told of each change to the cache, and now and then of what is in it; a
predicate decides whether that asks for a job. Jobs read from the cache, and what they return
decides whether they are asked for again. After a restart the cache starts with the latest state.
-/
namespace Kube
open Effect

variable {K : Kind} {X : Interface} {σ : System K X (Except String Result)}

/-- The process: its cache, as the part of the log it has followed, the changes its handler has not
been told of yet, its queue, and the last job that ended. -/
structure Manager (σ : System K X (Except String Result)) where
  config : Config σ
  cache : List (Option K.Object) := []
  notices : List (Option K.Object × Option K.Object) := []
  queue : Queue Unit := .empty
  last : Option (History (K.interface X) × Except String Result) := none

namespace Manager

def cached (m : Manager σ) : Option K.Object := m.cache.head?.join

/-- A read of the object that goes to the cache. -/
def Served (cache : List (Option K.Object)) (s : Server K) :
    Except ApiError K.Object → Server K → Prop
  | .ok o,s' => cache.head?.join = some o ∧ s' = { s with seen := cache.length }
  | .error e,s' =>
    if e.reason = .notFound then cache.head?.join = none ∧ s' = { s with seen := cache.length }
    else s' = s

/-- What a restarted process is told of. -/
def relisted : Option K.Object → List (Option K.Object × Option K.Object)
  | none => []
  | some o => [(none,some o)]

/-- One step of the process or of those around it. The handler asks for a job when `passes` lets
the change through. -/
inductive Step (passes : Option K.Object → Option K.Object → Bool) : Manager σ → Manager σ → Prop
  | user {m s} (edited : Server.Edited m.config.server s) :
      Step passes m { m with config := { m.config with server := s } }
  | others {m w} (acted : σ.others m.config.world w) :
      Step passes m { m with config := { m.config with world := w } }
  | deliver {m x} (next : x::m.cache <:+ m.config.server.log) :
      Step passes m { m with cache := x::m.cache, notices := m.notices ++ [(m.cached,x)] }
  | resync {m o} (held : m.cached = some o) :
      Step passes m { m with notices := m.notices ++ [(some o,some o)] }
  | handle {m old new rest} (told : m.notices = (old,new)::rest) :
      Step passes m { m with
        notices := rest, queue := if passes old new then m.queue.add () else m.queue }
  | take {m queue} (idle : m.config.job = none) (got : m.queue.get = some ((),queue)) :
      Step passes m { m with config := { m.config with job := some ([],σ.main) }, queue }
  | read {m h next r s} (job : m.config.job = some (h,.call (.inl .get) next))
      (served : Served m.cache m.config.server r s) :
      Step passes m { m with config := { m.config with
        server := s, job := some (⟨.inl .get,r⟩::h,next r) } }
  | write {m h e next r s} (job : m.config.job = some (h,.call (.inl e) next)) (other : e ≠ .get)
      (answered : m.config.server.Answers e r s) :
      Step passes m { m with config := { m.config with
        server := s, job := some (⟨.inl e,r⟩::h,next r) } }
  | outside {m h e next r w} (job : m.config.job = some (h,.call (.inr e) next))
      (answered : σ.answers m.config.world e r w) :
      Step passes m { m with config := { m.config with
        world := w, job := some (⟨.inr e,r⟩::h,next r) } }
  | finish {m h r} (job : m.config.job = some (h,.done r)) :
      Step passes m { m with
        config := { m.config with past := h::m.config.past, job := none }
        queue := m.queue.finish () (asksAgain r)
        last := some (h,r) }
  | fire {m} (waiting : () ∈ m.queue.waiting) : Step passes m { m with queue := m.queue.fire () }
  | restart {m} :
      Step passes m {
        config := { m.config with past := m.config.histories, job := none }
        cache := m.config.server.log
        notices := relisted m.config.server.current }

inductive Reachable (passes : Option K.Object → Option K.Object → Bool) : Manager σ → Prop
  | init {w} (started : σ.start w) : Reachable passes { config := ⟨⟨[],0⟩,w,[],none⟩ }
  | step {m m'} (before : Reachable passes m) (moved : Step passes m m') : Reachable passes m'

/-- The cache has followed the log to its end, no change is on its way to a job, and no job is
running or waiting to be run. -/
structure Rests (m : Manager σ) : Prop where
  cache : m.cache = m.config.server.log
  notices : m.notices = []
  job : m.config.job = none
  queue : ¬m.queue.Pending

variable {passes : Option K.Object → Option K.Object → Bool} {m m' : Manager σ}

/-! ## The process is a controller -/

/-- The cache is a part of the log, and no read has gone beyond it. -/
structure Follows (m : Manager σ) : Prop where
  suffix : m.cache <:+ m.config.server.log
  seen : m.config.server.seen ≤ m.cache.length

theorem Served.answers {cache : List (Option K.Object)} {s s' : Server K}
    {r : Except ApiError K.Object} (hs : cache <:+ s.log) (hseen : s.seen ≤ cache.length)
    (h : Served cache s r s') : s.Answers (X := X) .get r s' := by
  cases r with
  | ok o =>
    obtain ⟨ho,rfl⟩ := h
    cases cache with
    | nil => cases ho
    | cons x l =>
      obtain rfl : x = some o := ho
      exact ⟨l,⟨hs,hseen⟩,rfl⟩
  | error e =>
    change if e.reason = .notFound then cache.head?.join = none ∧
      s' = { s with seen := cache.length } else s' = s at h
    change if e.reason = .notFound then _ else s' = s
    by_cases he : e.reason = .notFound
    · rw [if_pos he] at h ⊢
      exact ⟨cache,⟨hs,hseen⟩,h⟩
    · rw [if_neg he] at h ⊢
      exact h

/-- A write adds at most one state and leaves the reads alone. -/
theorem write_follows {s s' : Server K} {e : OwnCall K} {r : (K.interface X).Answer (.inl e)}
    (he : e ≠ .get) (ha : s.Answers e r s') : s.log <:+ s'.log ∧ s'.seen = s.seen := by
  have hwrite : ∀ {version v : ℕ} {f : K.Object → K.Object},
      s.write version f = some (s',v) → s.log <:+ s'.log ∧ s'.seen = s.seen := by
    intro version v f hw
    obtain ⟨cur,-,-,⟨-,rfl,-⟩ | ⟨-,-,-,rfl,-⟩ | ⟨-,-,rfl,-⟩⟩ := Server.write_cases hw
    · exact ⟨List.suffix_refl _,rfl⟩
    · exact ⟨List.suffix_cons _ _,rfl⟩
    · exact ⟨List.suffix_cons _ _,rfl⟩
  have hsame : s' = s → s.log <:+ s'.log ∧ s'.seen = s.seen := by
    rintro rfl
    exact ⟨List.suffix_refl _,rfl⟩
  match e,r with
  | .get,_ => exact absurd rfl he
  | .update o,.ok v => exact hwrite ha
  | .updateStatus o,.ok v => exact hwrite (Server.updateStatus_eq_some.mp ha).2
  | .update o,.error err => exact hsame ha
  | .updateStatus o,.error err => exact hsame ha

theorem Follows.step (hf : m.Follows) (hs : Step passes m m') : m'.Follows := by
  cases hs with
  | user he =>
    obtain ⟨x,rfl⟩ := he.push
    exact ⟨hf.suffix.trans (List.suffix_cons x _),hf.seen⟩
  | deliver hn => exact ⟨hn,hf.seen.trans (Nat.le_succ _)⟩
  | @read h next r s hj hserved =>
    cases r with
    | ok o =>
      obtain ⟨-,rfl⟩ := hserved
      exact ⟨hf.suffix,le_rfl⟩
    | error e =>
      change if e.reason = .notFound then m.cache.head?.join = none ∧
        s = { m.config.server with seen := m.cache.length } else s = m.config.server at hserved
      split at hserved
      · obtain ⟨-,rfl⟩ := hserved
        exact ⟨hf.suffix,le_rfl⟩
      · subst hserved
        exact ⟨hf.suffix,hf.seen⟩
  | write hj he ha =>
    obtain ⟨hlog,hseen⟩ := write_follows he ha
    exact ⟨hf.suffix.trans hlog,hseen.trans_le hf.seen⟩
  | restart => exact ⟨List.suffix_refl _,hf.seen.trans hf.suffix.length_le⟩
  | others | resync | handle | take | outside | finish | fire => exact ⟨hf.suffix,hf.seen⟩

/-- What the process does is what a controller may do. -/
theorem Step.config (hf : m.Follows) (hs : Step passes m m') :
    m'.config = m.config ∨ σ.Step m.config m'.config := by
  obtain ⟨⟨server,world,past,job⟩,cache,notices,queue,last⟩ := m
  cases hs with
  | user he => exact .inr (.user he)
  | others ha => exact .inr (.others ha)
  | deliver | resync | handle | fire => exact .inl rfl
  | take hidle hg =>
    obtain rfl : job = none := hidle
    exact .inr .start
  | read hj hserved =>
    obtain rfl : job = _ := hj
    exact .inr (.own (hserved.answers hf.suffix hf.seen))
  | write hj he ha =>
    obtain rfl : job = _ := hj
    exact .inr (.own ha)
  | outside hj ha =>
    obtain rfl : job = _ := hj
    exact .inr (.outside ha)
  | finish hj =>
    obtain rfl : job = _ := hj
    exact .inr .finish
  | restart =>
    cases job with
    | none => exact .inl rfl
    | some j => exact .inr .crash

theorem Reachable.follows (h : Reachable passes m) : m.Follows := by
  induction h with
  | init => exact ⟨List.suffix_refl _,le_rfl⟩
  | step _ hs ih => exact ih.step hs

/-- Every result about the runs of the controller holds of the process. -/
theorem Reachable.config (h : Reachable passes m) : σ.Reachable m.config := by
  induction h with
  | init hw => exact .init hw
  | step hb hs ih =>
    rcases hs.config hb.follows with he | hs
    · rw [he]
      exact ih
    · exact ih.step hs trivial

end Manager
end Kube

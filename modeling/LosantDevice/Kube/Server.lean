import LosantDevice.Effect.Program
import Mathlib.Tactic.Common

/-!
# Versioned objects behind an API server

One named object of one kind. The server keeps every state the name has had, the
latest first, and the resource version of a state is its position in that log.
Writes are accepted only from a copy of the latest state; reads go through a cache
that may lag but never moves backward. The status is a subresource: a write of the
object leaves it alone and a write of the status touches nothing else.
-/
namespace Kube
open Effect

/-- Nanoseconds. Instants count from the epoch. -/
abbrev Time := ℤ
abbrev Duration := ℤ

inductive Reason
  | notFound
  | alreadyExists
  | conflict
  | other
  deriving DecidableEq, Repr

/-- An error of the API client: what the `errors.Is...` tests look at, and its text. -/
structure ApiError where
  reason : Reason
  text : String
  deriving DecidableEq, Repr

structure NamespacedName where
  namespace_ : String
  name : String
  deriving DecidableEq, Repr

structure Metadata where
  name : String
  uid : ℕ
  resourceVersion : ℕ
  generation : ℕ
  finalizers : List String
  deletionTimestamp : Option Time
  deriving DecidableEq, Repr

structure Object (S T : Type) where
  metadata : Metadata
  spec : S
  status : T
  deriving DecidableEq

/-- A kind of object: its two halves, the status a new object has, what is left of a status
once it has been through its stored form, and the statuses its schema admits. -/
structure Kind where
  Spec : Type
  Status : Type
  initial : Status
  encode : Status → Status
  admits : Status → Prop
  encode_initial : encode initial = initial
  encode_encode : ∀ t, encode (encode t) = encode t
  [decSpec : DecidableEq Spec]
  [decStatus : DecidableEq Status]
  [decAdmits : DecidablePred admits]

attribute [instance] Kind.decSpec Kind.decStatus Kind.decAdmits

variable (K : Kind)

abbrev Kind.Object := Kube.Object K.Spec K.Status

/-- The calls a controller makes on its own object. -/
inductive OwnCall
  | get
  | update (o : K.Object)
  | updateStatus (o : K.Object)

/-- A controller's calls: those on its own object and the others it is given. A write is
answered with the resource version of the stored object. -/
def Kind.interface (X : Interface) : Interface where
  Call := OwnCall K ⊕ X.Call
  Answer
    | .inl .get => Except ApiError K.Object
    | .inl (.update _) => Except ApiError ℕ
    | .inl (.updateStatus _) => Except ApiError ℕ
    | .inr e => X.Answer e

variable {K}

/-- The copy in memory after the server has accepted it. -/
def Object.stored (o : K.Object) (version : ℕ) : K.Object :=
  { o with metadata := { o.metadata with resourceVersion := version }, status := K.encode o.status }

variable (K) in
/-- The log of the object's states, `none` where there is no object, and the oldest
state, counted from the beginning, that the cache may still answer with. -/
structure Server where
  log : List (Option K.Object)
  seen : ℕ

namespace Server
variable (s : Server K)

def current : Option K.Object := s.log.head?.join

def push (x : Option K.Object) : Server K := { s with log := x::s.log }

/-- Store an object as the next version. -/
def store (o : K.Object) : Server K :=
  s.push (some { o with metadata := { o.metadata with resourceVersion := s.log.length+1 } })

/-- A write of the change `f` from a copy of version `version`. It is refused when the copy
is not of the latest state, stores nothing when nothing changes, and removes an object
that is being deleted and has no finalizer left. -/
def write (version : ℕ) (f : K.Object → K.Object) : Option (Server K × ℕ) :=
  match s.current with
  | none => none
  | some cur =>
    if version ≠ cur.metadata.resourceVersion then none
    else if f cur = cur then some (s,version)
    else if (f cur).metadata.deletionTimestamp.isSome ∧ (f cur).metadata.finalizers = [] then
      some (s.push none,s.log.length+1)
    else some (s.store (f cur),s.log.length+1)

/-- `Update`: spec and finalizers of the copy; a changed spec is a new generation. -/
def update (o : K.Object) : Option (Server K × ℕ) :=
  s.write o.metadata.resourceVersion fun cur =>
    { cur with
      metadata := { cur.metadata with
        finalizers := o.metadata.finalizers
        generation := if o.spec = cur.spec then cur.metadata.generation
          else cur.metadata.generation+1 }
      spec := o.spec }

/-- `Status().Update`: the status of the copy, if the schema admits it. -/
def updateStatus (o : K.Object) : Option (Server K × ℕ) :=
  if K.admits o.status then
    s.write o.metadata.resourceVersion fun cur => { cur with status := K.encode o.status }
  else none

/-- A state the cache may answer with, as the log up to it. -/
def Readable (l : List (Option K.Object)) : Prop := l <:+ s.log ∧ s.seen ≤ l.length

/-- The cache has served a state of the object with this uid. -/
def Begun (uid : ℕ) : Prop :=
  ∃ o l, some o::l <:+ s.log ∧ l.length < s.seen ∧ o.metadata.uid = uid

/-- How the server answers a controller's call on its object. A call that returns an error
has changed nothing. -/
def Answers {X : Interface} (s : Server K) :
    (e : OwnCall K) → (K.interface X).Answer (.inl e) → Server K → Prop
  | .get,.ok (o : K.Object),s' =>
    ∃ l, s.Readable (some o::l) ∧ s' = { s with seen := l.length+1 }
  | .get,.error (e : ApiError),s' =>
    if e.reason = .notFound then
      ∃ l, s.Readable l ∧ l.head?.join = none ∧ s' = { s with seen := l.length }
    else s' = s
  | .update o,.ok (v : ℕ),s' => s.update o = some (s',v)
  | .update _,.error _,s' => s' = s
  | .updateStatus o,.ok (v : ℕ),s' => s.updateStatus o = some (s',v)
  | .updateStatus _,.error _,s' => s' = s

/-- What users do with the object: only the controller touches its finalizers and status. -/
inductive Edited : Server K → Server K → Prop
  | create {s : Server K} (o : K.Object) (absent : s.current = none)
      (fresh : ∀ o', some o' ∈ s.log → o'.metadata.uid ≠ o.metadata.uid)
      (bare : o.metadata.finalizers = [] ∧ o.metadata.deletionTimestamp = none ∧
        o.status = K.initial) : Edited s (s.store o)
  | edit {s : Server K} {cur : K.Object} (spec : K.Spec) (present : s.current = some cur) :
      Edited s (s.store { cur with
        metadata := { cur.metadata with generation := cur.metadata.generation+1 }
        spec := spec })
  | annotate {s : Server K} {cur : K.Object} (present : s.current = some cur) :
      Edited s (s.store cur)
  | remove {s : Server K} {cur : K.Object} (present : s.current = some cur)
      (free : cur.metadata.finalizers = []) : Edited s (s.push none)
  | markDeleted {s : Server K} {cur : K.Object} (t : Time) (present : s.current = some cur)
      (held : cur.metadata.finalizers ≠ []) (live : cur.metadata.deletionTimestamp = none) :
      Edited s (s.store { cur with
        metadata := { cur.metadata with
          deletionTimestamp := some t
          generation := cur.metadata.generation+1 } })

variable {s : Server K}

theorem current_eq_some {o : K.Object} : s.current = some o ↔ ∃ l, s.log = some o::l := by
  unfold current
  cases s.log with
  | nil => simp
  | cons x l => cases x <;> simp

theorem mem_of_current {o : K.Object} (h : s.current = some o) : some o ∈ s.log := by
  obtain ⟨l,hl⟩ := current_eq_some.mp h
  simp [hl]

/-- Everything an accepted write can do. -/
theorem write_cases {version v : ℕ} {f : K.Object → K.Object} {s' : Server K}
    (h : s.write version f = some (s',v)) :
    ∃ cur, s.current = some cur ∧ version = cur.metadata.resourceVersion ∧
      (f cur = cur ∧ s' = s ∧ v = version ∨
        f cur ≠ cur ∧ (f cur).metadata.deletionTimestamp.isSome ∧
          (f cur).metadata.finalizers = [] ∧ s' = s.push none ∧ v = s.log.length+1 ∨
        f cur ≠ cur ∧
          ((f cur).metadata.deletionTimestamp.isSome → (f cur).metadata.finalizers ≠ []) ∧
          s' = s.store (f cur) ∧ v = s.log.length+1) := by
  unfold write at h
  split at h
  · contradiction
  · rename_i cur hcur
    refine ⟨cur,hcur,?_⟩
    split at h
    · contradiction
    · rename_i hv
      refine ⟨not_not.mp hv,?_⟩
      split at h
      · rename_i hf
        cases h
        exact .inl ⟨hf,rfl,rfl⟩
      · rename_i hf
        split at h
        · rename_i hd
          cases h
          exact .inr (.inl ⟨hf,hd.1,hd.2,rfl,rfl⟩)
        · rename_i hd
          cases h
          exact .inr (.inr ⟨hf,fun h1 h2 => hd ⟨h1,h2⟩,rfl,rfl⟩)

theorem write_release {f : K.Object → K.Object} {b : K.Object} (hb : s.current = some b)
    (hheld : b.metadata.finalizers ≠ []) (hdel : (f b).metadata.deletionTimestamp.isSome)
    (hfree : (f b).metadata.finalizers = []) :
    s.write b.metadata.resourceVersion f = some (s.push none,s.log.length+1) := by
  have hne : f b ≠ b := by
    intro he
    rw [he] at hfree
    exact hheld hfree
  simp only [write,hb,ne_eq,not_true_eq_false,if_false,hne,hdel,hfree,and_self,if_true]

/-- Without its last finalizer an object that is being deleted goes away. -/
theorem update_release {o b : K.Object} (hb : s.current = some b)
    (hdel : b.metadata.deletionTimestamp.isSome) (hheld : b.metadata.finalizers ≠ [])
    (hversion : o.metadata.resourceVersion = b.metadata.resourceVersion)
    (hfree : o.metadata.finalizers = []) : s.update o = some (s.push none,s.log.length+1) := by
  unfold update
  rw [hversion]
  exact write_release hb hheld hdel hfree

theorem updateStatus_eq_some {o : K.Object} {x : Server K × ℕ} :
    s.updateStatus o = some x ↔ K.admits o.status ∧ s.write o.metadata.resourceVersion
      (fun cur => { cur with status := K.encode o.status }) = some x := by
  unfold updateStatus
  split <;> simp_all

/-- What holds of the log of every server: versions count its states, statuses are in their
stored form, the states of one object lie together, an object being deleted is held by a
finalizer, and a status that differs from the initial one belongs to an object whose states
the cache has begun to serve. -/
structure Sound (s : Server K) : Prop where
  version {l o} : some o::l <:+ s.log → o.metadata.resourceVersion = l.length+1
  encoded {o} : some o ∈ s.log → K.encode o.status = o.status
  seen_le : s.seen ≤ s.log.length
  life {l o o'} : some o::l <:+ s.log → some o' ∈ l → o'.metadata.uid = o.metadata.uid →
    ∃ o'' l', l = some o''::l' ∧ o''.metadata.uid = o.metadata.uid
  held {o} : some o ∈ s.log → o.metadata.deletionTimestamp.isSome → o.metadata.finalizers ≠ []
  touched {o} : some o ∈ s.log → o.status ≠ K.initial → s.Begun o.metadata.uid

theorem Begun.push {uid : ℕ} (h : s.Begun uid) (x : Option K.Object) : (s.push x).Begun uid := by
  obtain ⟨o,l,hl,hs,hu⟩ := h
  exact ⟨o,l,hl.trans (List.suffix_cons x s.log),hs,hu⟩

theorem sound_nil : Sound (⟨[],0⟩ : Server K) where
  version h := by simp at h
  encoded h := by simp at h
  seen_le := le_rfl
  life h := by simp at h
  held h := by simp at h
  touched h := by simp at h

theorem Sound.push_none (hs : Sound s) : Sound (s.push none) where
  version h := by
    rcases List.suffix_cons_iff.mp h with h | h
    · simp at h
    · exact hs.version h
  encoded h := hs.encoded (by simpa [push] using h)
  seen_le := hs.seen_le.trans (Nat.le_succ _)
  life h := by
    rcases List.suffix_cons_iff.mp h with h | h
    · simp at h
    · exact hs.life h
  held h := hs.held (by simpa [push] using h)
  touched h ht := (hs.touched (by simpa [push] using h) ht).push none

/-- Storing a state of the latest object, or of one that was never there. -/
theorem Sound.store {o : K.Object} (hs : Sound s) (henc : K.encode o.status = o.status)
    (hlife : (∃ cur, s.current = some cur ∧ cur.metadata.uid = o.metadata.uid) ∨
      ∀ o', some o' ∈ s.log → o'.metadata.uid ≠ o.metadata.uid)
    (hheld : o.metadata.deletionTimestamp.isSome → o.metadata.finalizers ≠ [])
    (ht : o.status ≠ K.initial → s.Begun o.metadata.uid) : Sound (s.store o) where
  version h := by
    rcases List.suffix_cons_iff.mp h with h | h
    · obtain ⟨ho,rfl⟩ := List.cons.inj h
      rw [Option.some.inj ho]
    · exact hs.version h
  encoded h := by
    rcases List.mem_cons.mp h with h | h
    · rw [Option.some.inj h]
      exact henc
    · exact hs.encoded h
  seen_le := hs.seen_le.trans (Nat.le_succ _)
  life {l a b} h hb hu := by
    rcases List.suffix_cons_iff.mp h with h | h
    · obtain ⟨ho,rfl⟩ := List.cons.inj h
      obtain rfl := Option.some.inj ho
      rcases hlife with ⟨cur,hcur,hcu⟩ | hnew
      · obtain ⟨l',hl'⟩ := current_eq_some.mp hcur
        exact ⟨cur,l',hl',hcu⟩
      · exact absurd hu (hnew b hb)
    · exact hs.life h hb hu
  held h := by
    rcases List.mem_cons.mp h with h | h
    · obtain rfl := Option.some.inj h
      exact hheld
    · exact hs.held h
  touched h hne := by
    rcases List.mem_cons.mp h with h | h
    · obtain rfl := Option.some.inj h
      exact (ht hne).push _
    · exact (hs.touched h hne).push _

theorem Sound.restate {cur o : K.Object} (hs : Sound s) (hcur : s.current = some cur)
    (hu : cur.metadata.uid = o.metadata.uid) (hst : o.status = cur.status)
    (hheld : o.metadata.deletionTimestamp.isSome → o.metadata.finalizers ≠ []) :
    Sound (s.store o) := by
  have hm := mem_of_current hcur
  refine hs.store ?_ (.inl ⟨cur,hcur,hu⟩) hheld ?_
  · rw [hst]
    exact hs.encoded hm
  · intro hne
    rw [← hu]
    exact hs.touched hm (hst ▸ hne)

theorem Sound.edited {s' : Server K} (hs : Sound s) (h : Edited s s') : Sound s' := by
  cases h with
  | create o ha hf hb =>
    refine hs.store ?_ (.inr hf) (by simp [hb.2.1]) (fun hne => absurd hb.2.2 hne)
    rw [hb.2.2,K.encode_initial]
  | edit spec hp =>
    have hheld := hs.held (mem_of_current hp)
    exact hs.restate hp rfl rfl hheld
  | annotate hp => exact hs.restate hp rfl rfl (hs.held (mem_of_current hp))
  | remove hp hf => exact hs.push_none
  | markDeleted t hp hf hl => exact hs.restate hp rfl rfl (fun _ => hf)

/-- A write that keeps the uid keeps the log sound; it may change the status only of an
object the cache has begun to serve. -/
theorem Sound.write {s' : Server K} {version v : ℕ} {f : K.Object → K.Object} (hs : Sound s)
    (huid : ∀ o, (f o).metadata.uid = o.metadata.uid)
    (henc : ∀ o, K.encode o.status = o.status → K.encode (f o).status = (f o).status)
    (ht : ∀ cur, s.current = some cur → version = cur.metadata.resourceVersion →
      (f cur).status ≠ cur.status → s.Begun cur.metadata.uid)
    (h : s.write version f = some (s',v)) : Sound s' := by
  obtain ⟨cur,hcur,hv,⟨_,rfl,_⟩ | ⟨_,_,_,rfl,_⟩ | ⟨_,hheld,rfl,_⟩⟩ := write_cases h
  · exact hs
  · exact hs.push_none
  · have hm := mem_of_current hcur
    refine hs.store (henc cur (hs.encoded hm)) (.inl ⟨cur,hcur,(huid cur).symm⟩) hheld ?_
    intro hne
    rw [huid]
    by_cases hst : (f cur).status = cur.status
    · exact hs.touched hm (hst ▸ hne)
    · exact ht cur hcur hv hst

theorem Sound.see {n : ℕ} (hs : Sound s) (h1 : s.seen ≤ n) (h2 : n ≤ s.log.length) :
    Sound { s with seen := n } where
  version := hs.version
  encoded := hs.encoded
  seen_le := h2
  life := hs.life
  held := hs.held
  touched h hne := by
    obtain ⟨o,l,hl,hlt,hu⟩ := hs.touched h hne
    exact ⟨o,l,hl,hlt.trans_le h1,hu⟩

/-- Two states of the same version are one state. -/
theorem Sound.eq_of_version {a b : K.Object} {l : List (Option K.Object)} (hs : Sound s)
    (ha : s.current = some a) (hb : some b::l <:+ s.log)
    (hv : b.metadata.resourceVersion = a.metadata.resourceVersion) : s.log = some b::l ∧ a = b := by
  obtain ⟨m,hm⟩ := current_eq_some.mp ha
  have ha' := hs.version (l := m) (o := a) (hm ▸ List.suffix_refl _)
  have hb' := hs.version hb
  have hlen : (some b::l).length = s.log.length := by
    rw [hm,List.length_cons,List.length_cons]
    omega
  have he := hb.eq_of_length hlen
  refine ⟨he.symm,?_⟩
  rw [hm] at he
  exact (Option.some.inj (List.cons.inj he).1).symm

/-- States between two states of one object are states of that object. -/
theorem Sound.between {a : K.Object} {l m : List (Option K.Object)} {b : K.Object}
    (hs : Sound s) (hl : some a::l <:+ s.log) (hb : some b::m <:+ s.log)
    (hu : b.metadata.uid = a.metadata.uid) {k : List (Option K.Object)} (hk : k <:+ some a::l)
    (hmk : m.length < k.length) : ∃ o k', k = some o::k' ∧ o.metadata.uid = a.metadata.uid := by
  induction l generalizing a k with
  | nil =>
    cases k with
    | nil => simp at hmk
    | cons x k =>
      rcases List.suffix_cons_iff.mp hk with hk | hk
      · exact ⟨a,[],hk,rfl⟩
      · simp at hk
  | cons x l ih =>
    rcases List.suffix_cons_iff.mp hk with rfl | hk
    · exact ⟨a,x::l,rfl,rfl⟩
    · have hbm : some b ∈ x::l := by
        have hmem : some b::m <:+ x::l := by
          apply List.suffix_of_suffix_length_le hb ((List.suffix_cons _ _).trans hl)
          have := hk.length_le
          simp only [List.length_cons] at this ⊢
          omega
        exact hmem.mem (by simp)
      obtain ⟨o,l',hx,hou⟩ := hs.life hl hbm hu
      obtain ⟨rfl,rfl⟩ := List.cons.inj hx
      obtain ⟨o',k',rfl,hou'⟩ := ih ((List.suffix_cons _ _).trans hl) (hu.trans hou.symm) hk hmk
      exact ⟨o',k',rfl,hou'.trans hou⟩

/-- An object that is gone does not come back. -/
theorem Sound.before_gone {x b : K.Object} {l m : List (Option K.Object)} (hs : Sound s)
    (hl : none::some x::l <:+ s.log) (hb : some b::m <:+ s.log)
    (hu : b.metadata.uid = x.metadata.uid) : some b::m <:+ some x::l := by
  rcases List.suffix_or_suffix_of_suffix hb hl with hsuf | hsuf
  · rcases List.suffix_cons_iff.mp hsuf with h | h
    · cases h
    · exact h
  · -- `b` would come after the gap, and no state of its life is missing.
    rcases List.suffix_cons_iff.mp hsuf with h | h
    · cases h
    · have hx : some x::l <:+ s.log := (List.suffix_cons _ _).trans hl
      obtain ⟨o,k,hk,-⟩ := hs.between hb hx hu.symm hsuf (by simp only [List.length_cons]; omega)
      cases hk

/-- Once the status of the latest object has been written, the cache serves only states of
that object. -/
theorem Sound.readable_uid {o : K.Object} {l : List (Option K.Object)} (hs : Sound s)
    (ho : s.current = some o) (hne : o.status ≠ K.initial) (hl : s.Readable l) :
    ∃ o' l', l = some o'::l' ∧ o'.metadata.uid = o.metadata.uid := by
  obtain ⟨m,hm⟩ := current_eq_some.mp ho
  obtain ⟨b,k,hk,hlt,hu⟩ := hs.touched (mem_of_current ho) hne
  exact hs.between (hm ▸ List.suffix_refl _) hk hu (hm ▸ hl.1) (hlt.trans_le hl.2)

end Server
end Kube

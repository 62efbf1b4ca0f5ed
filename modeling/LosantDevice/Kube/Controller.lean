import LosantDevice.Kube.Server

/-!
# A controller and everybody else

A controller works on one object of one kind, one job at a time. Between any two calls of
a job users may act on the object, other parties may act on the rest of the world, and
the process may be restarted. A configuration also remembers the histories of all jobs
that ended, so that a statement can speak of what was ever called.
-/
namespace Kube
open Effect

/-- What a job that ends without an error asks of the queue. -/
structure Result where
  requeue : Bool := false
  requeueAfter : Duration := 0
  deriving DecidableEq, Repr

/-- The queue takes the job up again. A delay that is not positive enqueues nothing. -/
def Result.AsksAgain (r : Result) : Prop := r.requeue = true ∨ (0 : ℤ) < r.requeueAfter

instance (r : Result) : Decidable r.AsksAgain := by unfold Result.AsksAgain; infer_instance

variable {K : Kind} {X : Interface} {α : Type}

/-- A controller's program with the world it calls: who may start it, how calls are
answered, and what others do to it in between. -/
structure System (K : Kind) (X : Interface) (α : Type) where
  World : Type
  start : World → Prop
  answers : World → (e : X.Call) → X.Answer e → World → Prop
  others : World → World → Prop
  main : Program (K.interface X) α

/-- `job` is the running job: the calls it has made and what it still has to do. -/
structure Config (σ : System K X α) where
  server : Server K
  world : σ.World
  past : List (History (K.interface X))
  job : Option (History (K.interface X) × Program (K.interface X) α)

/-- Every call the controller ever made, grouped by job. -/
def Config.histories {σ : System K X α} (c : Config σ) : List (History (K.interface X)) :=
  (c.job.map Prod.fst).toList ++ c.past

namespace System
variable (σ : System K X α)

inductive Step : Config σ → Config σ → Prop
  | user {s s' w past job} (edited : Server.Edited s s') : Step ⟨s,w,past,job⟩ ⟨s',w,past,job⟩
  | others {s w w' past job} (acted : σ.others w w') : Step ⟨s,w,past,job⟩ ⟨s,w',past,job⟩
  | start {s w past} : Step ⟨s,w,past,none⟩ ⟨s,w,past,some ([],σ.main)⟩
  | own {s s' w past h e next r} (answered : s.Answers e r s') :
      Step ⟨s,w,past,some (h,.call (.inl e) next)⟩ ⟨s',w,past,some (⟨.inl e,r⟩::h,next r)⟩
  | outside {s w w' past h e next r} (answered : σ.answers w e r w') :
      Step ⟨s,w,past,some (h,.call (.inr e) next)⟩ ⟨s,w',past,some (⟨.inr e,r⟩::h,next r)⟩
  | finish {s w past h a} : Step ⟨s,w,past,some (h,.done a)⟩ ⟨s,w,h::past,none⟩
  | crash {s w past h p} : Step ⟨s,w,past,some (h,p)⟩ ⟨s,w,h::past,none⟩

/-- The step from `c` to `d` is the answer `r` to the call `e` of a job that had made the calls
`h`. -/
def Answered (c d : Config σ) (h : History (K.interface X)) (e : X.Call) (r : X.Answer e) : Prop :=
  ∃ next, c.job = some (h,.call (.inr e) next) ∧ d.job = some (⟨.inr e,r⟩::h,next r)

/-- The step from `c` to `d` is a read that returns `b`. -/
def Read (c d : Config σ) (b : K.Object) : Prop :=
  ∃ h next, c.job = some (h,.call (.inl .get) next) ∧
    d.job = some (⟨.inl .get,.ok b⟩::h,next (.ok b))

/-- Reachable through steps that all satisfy `P`, from a server that has never held the object. -/
inductive ReachableBy (P : Config σ → Config σ → Prop) : Config σ → Prop
  | init {w} (started : σ.start w) : ReachableBy P ⟨⟨[],0⟩,w,[],none⟩
  | step {c d} (before : ReachableBy P c) (moved : σ.Step c d) (allowed : P c d) : ReachableBy P d

abbrev Reachable : Config σ → Prop := ReachableBy σ (fun _ _ => True)

variable {σ}

theorem ReachableBy.mono_step {P Q : Config σ → Config σ → Prop}
    (hPQ : ∀ c d, σ.Step c d → P c d → Q c d) {c : Config σ} (h : σ.ReachableBy P c) :
    σ.ReachableBy Q c := by
  induction h with
  | init hs => exact .init hs
  | step _ hm hp ih => exact .step ih hm (hPQ _ _ hm hp)

theorem ReachableBy.mono {P Q : Config σ → Config σ → Prop} (hPQ : ∀ c d, P c d → Q c d)
    {c : Config σ} (h : σ.ReachableBy P c) : σ.ReachableBy Q c :=
  h.mono_step (fun c d _ hp => hPQ c d hp)

theorem ReachableBy.reachable {P : Config σ → Config σ → Prop} {c : Config σ}
    (h : σ.ReachableBy P c) : σ.Reachable c := h.mono (fun _ _ _ => trivial)

/-- An invariant may use any invariant proved before it. -/
theorem ReachableBy.invariant {P : Config σ → Config σ → Prop} {J I : Config σ → Prop}
    (hJ : ∀ c, σ.ReachableBy P c → J c)
    (h0 : ∀ w, σ.start w → I ⟨⟨[],0⟩,w,[],none⟩)
    (hs : ∀ c d, J c → I c → σ.Step c d → P c d → I d) {c : Config σ}
    (h : σ.ReachableBy P c) : I c := by
  induction h with
  | init hw => exact h0 _ hw
  | step hb hm ha ih => exact hs _ _ (hJ _ hb) ih hm ha

end System

/-- The copy of its object that a job works on after the calls `h`: the one it read, or the
one it last wrote. After a write of the object itself the copy is not used again. -/
def lastCopy : History (K.interface X) → Option K.Object
  | [] => none
  | ⟨.inl .get,r⟩::_ =>
    match (r : Except ApiError K.Object) with
    | .ok o => some o
    | .error _ => none
  | ⟨.inl (.update _),r⟩::h =>
    match (r : Except ApiError ℕ) with
    | .ok _ => none
    | .error _ => lastCopy h
  | ⟨.inl (.updateStatus o),r⟩::h =>
    match (r : Except ApiError ℕ) with
    | .ok v => some (o.stored v)
    | .error _ => lastCopy h
  | ⟨.inr _,_⟩::h => lastCopy h

section lastCopy
variable {h : History (K.interface X)}

@[simp] theorem lastCopy_get_ok (o : K.Object) :
    lastCopy (X := X) (⟨.inl .get,.ok o⟩::h) = some o := rfl

@[simp] theorem lastCopy_get_error (e : ApiError) :
    lastCopy (K := K) (X := X) (⟨.inl .get,.error e⟩::h) = none := rfl

@[simp] theorem lastCopy_update_ok (o : K.Object) (v : ℕ) :
    lastCopy (X := X) (⟨.inl (.update o),.ok v⟩::h) = none := rfl

@[simp] theorem lastCopy_update_error (o : K.Object) (e : ApiError) :
    lastCopy (X := X) (⟨.inl (.update o),.error e⟩::h) = lastCopy h := rfl

@[simp] theorem lastCopy_updateStatus_ok (o : K.Object) (v : ℕ) :
    lastCopy (X := X) (⟨.inl (.updateStatus o),.ok v⟩::h) = some (o.stored v) := rfl

@[simp] theorem lastCopy_updateStatus_error (o : K.Object) (e : ApiError) :
    lastCopy (X := X) (⟨.inl (.updateStatus o),.error e⟩::h) = lastCopy h := rfl

@[simp] theorem lastCopy_outside (e : X.Call) (r : X.Answer e) :
    lastCopy (K := K) (⟨.inr e,r⟩::h) = lastCopy h := rfl

end lastCopy

/-- Writes are made from the job's copy: a status write changes only the status, an object
write only the finalizers. -/
def Disciplined (h : History (K.interface X)) : (K.interface X).Call → Prop
  | .inl (.updateStatus o) => ∃ b, lastCopy h = some b ∧ o.metadata = b.metadata ∧ o.spec = b.spec
  | .inl (.update o) => ∃ b, lastCopy h = some b ∧ o.spec = b.spec ∧
      o.metadata.resourceVersion = b.metadata.resourceVersion
  | _ => True

variable {σ : System K X α}

/-- What holds in every configuration of a controller whose program obeys `Φ` and `Ψ` and
writes with discipline: the running job still obeys, and its copy is a state of the log, no older
than what the cache has served. -/
structure Config.Sound (Φ : History (K.interface X) → (K.interface X).Call → Prop)
    (Ψ : History (K.interface X) → α → Prop) (c : Config σ) : Prop where
  server : c.server.Sound
  obeys {h p} : c.job = some (h,p) → Program.Obeys Φ Ψ h p
  copy {h p b} : c.job = some (h,p) → lastCopy h = some b →
    c.server.Begun b.metadata.uid ∧ ∃ l, some b::l <:+ c.server.log ∧ c.server.seen ≤ l.length+1

/-- What a step does to the log: nothing, what a user does, or a write of the running job. -/
inductive Written (c d : Config σ) : Prop
  | kept (log : d.server.log = c.server.log)
  | user (edited : Server.Edited c.server d.server) (job : d.job = c.job) (past : d.past = c.past)
  | status {h o next b l} (job : c.job = some (h,.call (.inl (.updateStatus o)) next))
      (copy : lastCopy h = some b) (latest : c.server.log = some b::l)
      (metadata : o.metadata = b.metadata) (spec : o.spec = b.spec)
      (admitted : K.admits o.status)
      (log : d.server.log = some (o.stored (c.server.log.length+1))::c.server.log)
      (after : d.job = some (⟨.inl (.updateStatus o),.ok (c.server.log.length+1)⟩::h,
        next (.ok (c.server.log.length+1)))) (past : d.past = c.past)
  | object {h o next b l x} (job : c.job = some (h,.call (.inl (.update o)) next))
      (copy : lastCopy h = some b) (latest : c.server.log = some b::l)
      (log : d.server.log = x::c.server.log)
      (gone : x = none → b.metadata.deletionTimestamp.isSome ∧ o.metadata.finalizers = [])
      (kept : ∀ o', x = some o' → o' = { b with metadata := { b.metadata with
        finalizers := o.metadata.finalizers, resourceVersion := c.server.log.length+1 } })
      (after : d.job = some (⟨.inl (.update o),.ok (c.server.log.length+1)⟩::h,
        next (.ok (c.server.log.length+1)))) (past : d.past = c.past)

variable {Φ : History (K.interface X) → (K.interface X).Call → Prop}
  {Ψ : History (K.interface X) → α → Prop}

/-- An accepted status write was made from the latest state. -/
theorem Config.Sound.updateStatus {c : Config σ} {h o next s' v} (hc : c.Sound Φ Ψ)
    (hΦ : ∀ h e, Φ h e → Disciplined h e)
    (hjob : c.job = some (h,.call (.inl (.updateStatus o)) next))
    (hw : c.server.updateStatus o = some (s',v)) :
    ∃ b l, lastCopy h = some b ∧ c.server.log = some b::l ∧ o.metadata = b.metadata ∧
      o.spec = b.spec ∧ (s' = c.server ∧ o.stored v = b ∨
        s' = c.server.push (some (o.stored v)) ∧ v = c.server.log.length+1) := by
  obtain ⟨b,hb,hm,hsp⟩ := hΦ _ _ (hc.obeys hjob).1
  obtain ⟨-,l,hl,-⟩ := hc.copy hjob hb
  obtain ⟨cur,hcur,hv,hcases⟩ := Server.write_cases (Server.updateStatus_eq_some.mp hw).2
  obtain ⟨hlog,rfl⟩ := hc.server.eq_of_version hcur hl (by rw [← hm,hv])
  refine ⟨cur,l,hb,hlog,hm,hsp,?_⟩
  have hst : ∀ n, o.stored n = { cur with
      metadata := { cur.metadata with resourceVersion := n }, status := K.encode o.status } := by
    intro n
    simp only [Object.stored,hm,hsp]
  rcases hcases with ⟨hf,rfl,rfl⟩ | ⟨-,hd,hfin,-,-⟩ | ⟨-,-,rfl,rfl⟩
  · refine .inl ⟨rfl,?_⟩
    rw [hst,hv]
    exact hf
  · have hheld := hc.server.held (Server.mem_of_current hcur)
    exact absurd hfin (hheld hd)
  · refine .inr ⟨?_,rfl⟩
    rw [hst]
    rfl

/-- An accepted write of the object was made from the latest state. -/
theorem Config.Sound.update {c : Config σ} {h o next s' v} (hc : c.Sound Φ Ψ)
    (hΦ : ∀ h e, Φ h e → Disciplined h e)
    (hjob : c.job = some (h,.call (.inl (.update o)) next))
    (hw : c.server.update o = some (s',v)) :
    ∃ b l, lastCopy h = some b ∧ c.server.log = some b::l ∧
      (s' = c.server ∨ v = c.server.log.length+1 ∧
        (b.metadata.deletionTimestamp.isSome ∧ o.metadata.finalizers = [] ∧
          s' = c.server.push none ∨
        s' = c.server.push (some { b with metadata := { b.metadata with
          finalizers := o.metadata.finalizers, resourceVersion := c.server.log.length+1 } }))) := by
  obtain ⟨b,hb,hsp,hm⟩ := hΦ _ _ (hc.obeys hjob).1
  obtain ⟨-,l,hl,-⟩ := hc.copy hjob hb
  obtain ⟨cur,hcur,hv,hcases⟩ := Server.write_cases hw
  obtain ⟨hlog,rfl⟩ := hc.server.eq_of_version hcur hl (by rw [← hm,hv])
  refine ⟨cur,l,hb,hlog,?_⟩
  rcases hcases with ⟨-,rfl,-⟩ | ⟨-,hd,hfin,rfl,rfl⟩ | ⟨-,-,rfl,rfl⟩
  · exact .inl rfl
  · exact .inr ⟨rfl,.inl ⟨hd,hfin,rfl⟩⟩
  · refine .inr ⟨rfl,.inr ?_⟩
    simp [Server.store,hsp]

theorem Server.Begun.see {s : Server K} {uid n : ℕ} (h : s.Begun uid) (hn : s.seen ≤ n) :
    Server.Begun { s with seen := n } uid := by
  obtain ⟨o,l,hl,hlt,hu⟩ := h
  exact ⟨o,l,hl,hlt.trans_le hn,hu⟩

/-- A failed read moves the cache at most. -/
theorem Server.answers_get_error {s s' : Server K} {e : ApiError} (hseen : s.seen ≤ s.log.length)
    (h : s.Answers (X := X) .get (.error e) s') :
    ∃ n, s.seen ≤ n ∧ n ≤ s.log.length ∧ s' = { s with seen := n } := by
  change if e.reason = .notFound then
    ∃ l, s.Readable l ∧ l.head?.join = none ∧ s' = { s with seen := l.length } else s' = s at h
  split at h
  · obtain ⟨l,⟨hl,hlen⟩,-,rfl⟩ := h
    exact ⟨l.length,hlen,hl.length_le,rfl⟩
  · exact ⟨s.seen,le_rfl,hseen,h⟩

/-- The copy of a job stays in the log whatever is pushed on it. -/
theorem Config.Sound.copy_push {c : Config σ} (hc : c.Sound Φ Ψ) {h p b} (x : Option K.Object)
    (hjob : c.job = some (h,p)) (hb : lastCopy h = some b) :
    (c.server.push x).Begun b.metadata.uid ∧
      ∃ l, some b::l <:+ (c.server.push x).log ∧ (c.server.push x).seen ≤ l.length+1 := by
  obtain ⟨hbeg,l,hl,hseen⟩ := hc.copy hjob hb
  exact ⟨hbeg.push x,l,hl.trans (List.suffix_cons x _),hseen⟩

theorem Server.Edited.push {s s' : Server K} (h : Server.Edited s s') : ∃ x, s' = s.push x := by
  cases h <;> exact ⟨_,rfl⟩

/-- A call has been answered: the rest of the job obeys, and only the server and the copy are to be
looked at. -/
theorem Config.Sound.answered {s s' : Server K} {w w' : σ.World} {past h e next r}
    (hc : Config.Sound (σ := σ) Φ Ψ ⟨s,w,past,some (h,.call e next)⟩) (hs : s'.Sound)
    (hcopy : ∀ b, lastCopy (⟨e,r⟩::h) = some b → s'.Begun b.metadata.uid ∧
      ∃ l, some b::l <:+ s'.log ∧ s'.seen ≤ l.length+1) :
    Config.Sound (σ := σ) Φ Ψ ⟨s',w',past,some (⟨e,r⟩::h,next r)⟩ := by
  refine ⟨hs,?_,?_⟩
  · rintro _ _ ⟨⟩
    exact (hc.obeys rfl).2 r
  · rintro _ _ b ⟨⟩ hb
    exact hcopy b hb

/-- An accepted status becomes the copy of the job. -/
theorem Config.Sound.statusWritten {s s' : Server K} {w : σ.World} {past h o next v}
    (hΦ : ∀ h e, Φ h e → Disciplined h e)
    (hc : Config.Sound (σ := σ) Φ Ψ ⟨s,w,past,some (h,.call (.inl (.updateStatus o)) next)⟩)
    (ha : s.updateStatus o = some (s',v)) :
    Config.Sound (σ := σ) Φ Ψ
      ⟨s',w,past,some (⟨.inl (.updateStatus o),.ok v⟩::h,next (.ok v))⟩ := by
  obtain ⟨b,l,hb,hlog,hm,hsp,hcases⟩ := hc.updateStatus hΦ rfl ha
  obtain ⟨hbeg,-⟩ := hc.copy rfl hb
  refine hc.answered ?_ fun b' hb' => ?_
  · refine hc.server.write (by simp) (by simp [K.encode_encode]) ?_
      (Server.updateStatus_eq_some.mp ha).2
    intro cur hcur _ _
    obtain ⟨l',hl'⟩ := Server.current_eq_some.mp hcur
    obtain ⟨hbc,-⟩ := List.cons.inj (hlog.symm.trans hl')
    rw [← Option.some.inj hbc]
    exact hbeg
  · obtain rfl : o.stored v = b' := by simpa using hb'
    have hu : (o.stored v).metadata.uid = b.metadata.uid := by simp [Object.stored,hm]
    rw [hu]
    rcases hcases with ⟨rfl,ho⟩ | ⟨rfl,-⟩
    · rw [ho]
      refine ⟨hbeg,l,hlog ▸ List.suffix_refl _,?_⟩
      have hle := hc.server.seen_le
      rw [hlog] at hle
      exact hle
    · refine ⟨hbeg.push _,s.log,List.suffix_refl _,?_⟩
      exact hc.server.seen_le.trans (Nat.le_succ _)

theorem Config.Sound.own {s s' : Server K} {w : σ.World} {past h e next r}
    (hΦ : ∀ h e, Φ h e → Disciplined h e)
    (hc : Config.Sound (σ := σ) Φ Ψ ⟨s,w,past,some (h,.call (.inl e) next)⟩)
    (ha : s.Answers (X := X) e r s') :
    Config.Sound (σ := σ) Φ Ψ ⟨s',w,past,some (⟨.inl e,r⟩::h,next r)⟩ := by
  cases e with
  | get =>
    cases r with
    | ok o =>
      obtain ⟨l,⟨hl,hlen⟩,rfl⟩ := ha
      have hle : s.seen ≤ l.length+1 := by simpa using hlen
      refine hc.answered (hc.server.see hle (by simpa using hl.length_le)) fun b hb => ?_
      obtain rfl : o = b := by simpa using hb
      exact ⟨⟨o,l,hl,Nat.lt_succ_self _,rfl⟩,l,hl,le_rfl⟩
    | error e =>
      obtain ⟨n,hn,hle,rfl⟩ := Server.answers_get_error hc.server.seen_le ha
      refine hc.answered (hc.server.see hn hle) fun b hb => ?_
      simp at hb
  | update o =>
    cases r with
    | ok v =>
      refine hc.answered (hc.server.write (by simp) (by simp) (by simp) ha) fun b hb => ?_
      simp at hb
    | error e =>
      cases (show s' = s from ha)
      exact hc.answered hc.server fun b hb => hc.copy rfl hb
  | updateStatus o =>
    cases r with
    | ok v => exact hc.statusWritten hΦ ha
    | error e =>
      cases (show s' = s from ha)
      exact hc.answered hc.server fun b hb => hc.copy rfl hb

/-- The step lemma of `Config.Sound`. -/
theorem Config.Sound.step {c d : Config σ} (hΦ : ∀ h e, Φ h e → Disciplined h e)
    (hmain : Program.Obeys Φ Ψ [] σ.main) (hc : c.Sound Φ Ψ) (hs : σ.Step c d) : d.Sound Φ Ψ := by
  cases hs with
  | user he =>
    obtain ⟨x,rfl⟩ := he.push
    exact ⟨hc.server.edited he,hc.obeys,hc.copy_push x⟩
  | others ha => exact ⟨hc.server,hc.obeys,hc.copy⟩
  | start =>
    refine ⟨hc.server,?_,?_⟩
    · rintro h p ⟨⟩
      exact hmain
    · rintro h p b ⟨⟩ hb
      simp [lastCopy] at hb
  | own ha => exact hc.own hΦ ha
  | outside ha => exact hc.answered hc.server fun b hb => hc.copy rfl hb
  | finish | crash =>
    refine ⟨hc.server,?_,?_⟩
    · rintro h p ⟨⟩
    · rintro h p b ⟨⟩

theorem System.Reachable.sound {c : Config σ} (hΦ : ∀ h e, Φ h e → Disciplined h e)
    (hmain : Program.Obeys Φ Ψ [] σ.main) (h : σ.Reachable c) : c.Sound Φ Ψ := by
  induction h with
  | init hw =>
    refine ⟨Server.sound_nil,?_,?_⟩
    · rintro h p ⟨⟩
    · rintro h p b ⟨⟩
  | step _ hm _ ih => exact ih.step hΦ hmain hm

/-- Every step does one of the four things to the log. -/
theorem Config.Sound.written {c d : Config σ} (hΦ : ∀ h e, Φ h e → Disciplined h e)
    (hc : c.Sound Φ Ψ) (hs : σ.Step c d) : Written c d := by
  cases hs with
  | user he => exact .user he rfl rfl
  | others ha => exact .kept rfl
  | start => exact .kept rfl
  | @own s s' w past h e next r ha =>
    cases e with
    | get =>
      cases r with
      | ok o =>
        obtain ⟨l,-,rfl⟩ := ha
        exact .kept rfl
      | error e =>
        obtain ⟨n,-,-,rfl⟩ := Server.answers_get_error hc.server.seen_le ha
        exact .kept rfl
    | update o =>
      cases r with
      | ok v =>
        obtain ⟨b,l,hb,hlog,rfl | ⟨rfl,⟨hd,hf,rfl⟩ | rfl⟩⟩ := hc.update hΦ rfl ha
        · exact .kept rfl
        · exact .object rfl hb hlog rfl (fun _ => ⟨hd,hf⟩) (by simp) rfl rfl
        · refine .object rfl hb hlog rfl (by simp) ?_ rfl rfl
          intro o' ho'
          exact (Option.some.inj ho').symm
      | error e =>
        cases (show s' = s from ha)
        exact .kept rfl
    | updateStatus o =>
      cases r with
      | ok v =>
        obtain ⟨b,l,hb,hlog,hm,hsp,⟨rfl,-⟩ | ⟨rfl,rfl⟩⟩ := hc.updateStatus hΦ rfl ha
        · exact .kept rfl
        · exact .status rfl hb hlog hm hsp (Server.updateStatus_eq_some.mp ha).1 rfl rfl rfl
      | error e =>
        cases (show s' = s from ha)
        exact .kept rfl
  | outside ha => exact .kept rfl
  | finish | crash => exact .kept rfl

end Kube

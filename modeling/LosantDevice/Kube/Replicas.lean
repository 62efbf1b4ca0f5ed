import LosantDevice.Kube.Provenance

/-!
# Any number of processes

Several jobs may work on the object at once: those of several replicas, of an old process and the
one that takes over from it, or of several workers. Each process has a cache of its own, so that
a job may read any state there has been. What the log and the histories of a single controller say
about each other still holds, because a write is accepted only from a copy of the latest state.
-/
namespace Kube
open Effect

variable {K : Kind} {X : Interface} {α : Type}

/-- The log and the world with the running jobs of all processes. -/
structure Replicas (σ : System K X α) where
  log : List (Option K.Object)
  world : σ.World
  past : List (History (K.interface X))
  jobs : List (History (K.interface X) × Program (K.interface X) α)

namespace Replicas
variable {σ : System K X α}

/-- In a call on the object `n` is how far the cache of the process has come. -/
inductive Step : Replicas σ → Replicas σ → Prop
  | user {l w past jobs s} (edited : Server.Edited (⟨l,l.length⟩ : Server K) s) :
      Step ⟨l,w,past,jobs⟩ ⟨s.log,w,past,jobs⟩
  | others {l w w' past jobs} (acted : σ.others w w') : Step ⟨l,w,past,jobs⟩ ⟨l,w',past,jobs⟩
  | start {l w past jobs} : Step ⟨l,w,past,jobs⟩ ⟨l,w,past,([],σ.main)::jobs⟩
  | own {l w past jobs jobs' h e next r n s} (answered : (⟨l,n⟩ : Server K).Answers e r s) :
      Step ⟨l,w,past,jobs ++ (h,.call (.inl e) next)::jobs'⟩
        ⟨s.log,w,past,jobs ++ (⟨.inl e,r⟩::h,next r)::jobs'⟩
  | outside {l w w' past jobs jobs' h e next r} (answered : σ.answers w e r w') :
      Step ⟨l,w,past,jobs ++ (h,.call (.inr e) next)::jobs'⟩
        ⟨l,w',past,jobs ++ (⟨.inr e,r⟩::h,next r)::jobs'⟩
  | finish {l w past jobs jobs' h a} :
      Step ⟨l,w,past,jobs ++ (h,.done a)::jobs'⟩ ⟨l,w,h::past,jobs ++ jobs'⟩
  | crash {l w past jobs jobs' h p} :
      Step ⟨l,w,past,jobs ++ (h,p)::jobs'⟩ ⟨l,w,h::past,jobs ++ jobs'⟩

variable (σ) in
inductive Reachable : Replicas σ → Prop
  | init {w} (started : σ.start w) : Reachable ⟨[],w,[],[]⟩
  | step {c d} (before : Reachable c) (moved : Step c d) : Reachable d

/-- All that was ever called and stored, as a configuration without a running job. -/
def merged (c : Replicas σ) : Config σ :=
  ⟨⟨c.log,c.log.length⟩,c.world,c.jobs.map Prod.fst ++ c.past,none⟩

theorem mem_histories {c : Replicas σ} {k : History (K.interface X)} :
    k ∈ c.merged.histories ↔ (∃ p, (k,p) ∈ c.jobs) ∨ k ∈ c.past := by
  simp [merged,Config.histories]

end Replicas

/-! ## Accepted writes -/

namespace Server
variable {l m : List (Option K.Object)} {n v : ℕ} {s : Server K} {o b : K.Object}

/-- A server whose cache is up to date is sound if its log is. -/
theorem Sound.upToDate (hs : s.Sound) : Sound (⟨s.log,s.log.length⟩ : Server K) :=
  hs.see hs.seen_le le_rfl

theorem begun_of_upToDate (hb : some b::m <:+ l) :
    Begun (⟨l,l.length⟩ : Server K) b.metadata.uid :=
  ⟨b,m,hb,hb.length_le,rfl⟩

/-- Users do not look at the cache. -/
theorem Edited.upToDate {s' : Server K} (he : Edited s s') :
    ∃ t, Edited (⟨s.log,s.log.length⟩ : Server K) t ∧ t.log = s'.log := by
  cases he with
  | create o ha hf hb => exact ⟨_,.create o ha hf hb,rfl⟩
  | edit spec hp => exact ⟨_,.edit spec hp,rfl⟩
  | annotate hp => exact ⟨_,.annotate hp,rfl⟩
  | remove hp hf => exact ⟨_,.remove hp hf,rfl⟩
  | markDeleted t hp hheld hlive => exact ⟨_,.markDeleted t hp hheld hlive,rfl⟩

/-- A status is accepted only from the latest state, whatever the cache holds. -/
theorem Sound.statusWrite (hs : Sound (⟨l,l.length⟩ : Server K)) (hb : some b::m <:+ l)
    (hm : o.metadata = b.metadata) (hsp : o.spec = b.spec)
    (hw : (⟨l,n⟩ : Server K).updateStatus o = some (s,v)) :
    l = some b::m ∧ K.admits o.status ∧ Sound (⟨s.log,s.log.length⟩ : Server K) ∧
      (s.log = l ∧ o.stored v = b ∨ s.log = some (o.stored v)::l) := by
  obtain ⟨hadmits,hw⟩ := updateStatus_eq_some.mp hw
  obtain ⟨cur,hcur,hv,hcases⟩ := write_cases hw
  obtain ⟨hlog,rfl⟩ := hs.eq_of_version hcur hb (by rw [← hm,hv])
  have hmem := mem_of_current hcur
  have hst : ∀ n, o.stored n = { cur with
      metadata := { cur.metadata with resourceVersion := n }, status := K.encode o.status } := by
    intro n
    simp only [Object.stored,hm,hsp]
  refine ⟨hlog,hadmits,?_⟩
  rcases hcases with ⟨hf,rfl,rfl⟩ | ⟨-,hd,hfin,-,-⟩ | ⟨-,hheld,rfl,rfl⟩
  · refine ⟨hs,.inl ⟨rfl,?_⟩⟩
    rw [hst,hv]
    exact hf
  · exact absurd hfin (hs.held (o := cur) hmem hd)
  · have hstored := hs.store (o := { cur with status := K.encode o.status })
      (K.encode_encode _) (.inl ⟨cur,hcur,rfl⟩) hheld (fun _ => begun_of_upToDate (b := cur) hb)
    refine ⟨hstored.upToDate,.inr ?_⟩
    rw [hst]
    rfl

/-- So is a change of the finalizers. -/
theorem Sound.objectWrite (hs : Sound (⟨l,l.length⟩ : Server K)) (hb : some b::m <:+ l)
    (hm : o.metadata.resourceVersion = b.metadata.resourceVersion) (hsp : o.spec = b.spec)
    (hw : (⟨l,n⟩ : Server K).update o = some (s,v)) :
    l = some b::m ∧ Sound (⟨s.log,s.log.length⟩ : Server K) ∧
      (s.log = l ∨ ∃ x, s.log = x::l ∧
        (x = none → b.metadata.deletionTimestamp.isSome ∧ o.metadata.finalizers = []) ∧
        ∀ o', x = some o' → o' = { b with metadata := { b.metadata with
          finalizers := o.metadata.finalizers, resourceVersion := v } }) := by
  obtain ⟨cur,hcur,hv,hcases⟩ := write_cases hw
  obtain ⟨hlog,rfl⟩ := hs.eq_of_version hcur hb (by rw [← hm,hv])
  refine ⟨hlog,?_⟩
  rcases hcases with ⟨-,rfl,-⟩ | ⟨-,hd,hfin,rfl,rfl⟩ | ⟨-,hheld,rfl,rfl⟩
  · exact ⟨hs,.inl rfl⟩
  · exact ⟨hs.push_none.upToDate,.inr ⟨none,rfl,fun _ => ⟨hd,hfin⟩,nofun⟩⟩
  · refine ⟨(hs.restate hcur ?_ ?_ hheld).upToDate,.inr ⟨_,rfl,nofun,?_⟩⟩
    · rfl
    · rfl
    · rintro o' ⟨⟩
      simp [hsp]

end Server

/-! ## Every run -/

namespace Replicas
variable {σ : System K X α} {Φ : History (K.interface X) → (K.interface X).Call → Prop}
  {Ψ : History (K.interface X) → α → Prop}

/-- The jobs that are running obey, and what was called and stored fits together. -/
structure Sound (Φ : History (K.interface X) → (K.interface X).Call → Prop)
    (Ψ : History (K.interface X) → α → Prop) (c : Replicas σ) : Prop where
  traced : c.merged.Traced Φ
  obeys {h p} : (h,p) ∈ c.jobs → Program.Obeys Φ Ψ h p

/-- A job among others. -/
theorem Sound.job {l : List (Option K.Object)} {w : σ.World}
    {past : List (History (K.interface X))}
    {jobs jobs' : List (History (K.interface X) × Program (K.interface X) α)}
    {h : History (K.interface X)} {p : Program (K.interface X) α}
    (hc : Sound Φ Ψ (⟨l,w,past,jobs ++ (h,p)::jobs'⟩ : Replicas σ)) :
    Program.Obeys Φ Ψ h p ∧
      ∀ b : K.Object, lastCopy h = some b → ∃ m, some b::m <:+ l := by
  have hj : (h,p) ∈ jobs ++ (h,p)::jobs' := List.mem_append_right _ List.mem_cons_self
  refine ⟨hc.obeys hj,fun b hb => ?_⟩
  exact hc.traced.copies (mem_histories.mpr (.inl ⟨p,hj⟩)) (List.suffix_refl h) hb

section call
variable {l l' : List (Option K.Object)} {w w' : σ.World} {past : List (History (K.interface X))}
  {jobs jobs' : List (History (K.interface X) × Program (K.interface X) α)}
  {h : History (K.interface X)} {e : (K.interface X).Call} {r : (K.interface X).Answer e}
  {next : (K.interface X).Answer e → Program (K.interface X) α}

theorem histories_call {k : History (K.interface X)}
    (hk : k ∈ (⟨l',w',past,jobs ++ (⟨e,r⟩::h,next r)::jobs'⟩ : Replicas σ).merged.histories) :
    k = ⟨e,r⟩::h ∨
      k ∈ (⟨l,w,past,jobs ++ (h,.call e next)::jobs'⟩ : Replicas σ).merged.histories := by
  rcases mem_histories.mp hk with ⟨p,hp⟩ | hp
  · rcases List.mem_append.mp hp with hp | hp
    · exact .inr (mem_histories.mpr (.inl ⟨p,List.mem_append_left _ hp⟩))
    · rcases List.mem_cons.mp hp with he | hp
      · exact .inl (congrArg Prod.fst he)
      · refine .inr (mem_histories.mpr (.inl ⟨p,List.mem_append_right _ ?_⟩))
        exact List.mem_cons_of_mem _ hp
  · exact .inr (mem_histories.mpr (.inr hp))

theorem extends_call :
    Extends (⟨l,w,past,jobs ++ (h,.call e next)::jobs'⟩ : Replicas σ).merged.histories
      (⟨l',w',past,jobs ++ (⟨e,r⟩::h,next r)::jobs'⟩ : Replicas σ).merged.histories := by
  intro k hk
  rcases mem_histories.mp hk with ⟨p,hp⟩ | hp
  · rcases List.mem_append.mp hp with hp | hp
    · exact ⟨k,mem_histories.mpr (.inl ⟨p,List.mem_append_left _ hp⟩),List.suffix_refl k⟩
    · rcases List.mem_cons.mp hp with he | hp
      · obtain rfl : k = h := congrArg Prod.fst he
        refine ⟨⟨e,r⟩::k,mem_histories.mpr (.inl ⟨next r,?_⟩),List.suffix_cons _ _⟩
        exact List.mem_append_right _ List.mem_cons_self
      · refine ⟨k,mem_histories.mpr (.inl ⟨p,List.mem_append_right _ ?_⟩),List.suffix_refl k⟩
        exact List.mem_cons_of_mem _ hp
  · exact ⟨k,mem_histories.mpr (.inr hp),List.suffix_refl k⟩

/-- One call of one job. -/
theorem Sound.call (hc : Sound Φ Ψ (⟨l,w,past,jobs ++ (h,.call e next)::jobs'⟩ : Replicas σ))
    (hsound : Server.Sound (⟨l',l'.length⟩ : Server K))
    (hcopy : ∀ b : K.Object, lastCopy (⟨e,r⟩::h) = some b → ∃ m, some b::m <:+ l')
    (hlog : l' = l ∨ ∃ x, l' = x::l ∧ Origin (⟨l',w',past,
      jobs ++ (⟨e,r⟩::h,next r)::jobs'⟩ : Replicas σ).merged.histories x l) :
    Sound Φ Ψ (⟨l',w',past,jobs ++ (⟨e,r⟩::h,next r)::jobs'⟩ : Replicas σ) := by
  have hjob : (h,Program.call e next) ∈ jobs ++ (h,.call e next)::jobs' :=
    List.mem_append_right _ List.mem_cons_self
  have hobeys := hc.obeys hjob
  have hmem := mem_histories (c := ⟨l,w,past,jobs ++ (h,.call e next)::jobs'⟩).mpr (.inl ⟨_,hjob⟩)
  have hsuf : l <:+ l' := by
    rcases hlog with rfl | ⟨x,rfl,-⟩
    · exact List.suffix_refl _
    · exact List.suffix_cons _ _
  refine ⟨⟨hsound,?_,?_,?_⟩,?_⟩
  · intro k m b hk hm hb
    rcases histories_call hk with rfl | hk
    · rcases List.suffix_cons_iff.mp hm with rfl | hm
      · exact hcopy b hb
      · obtain ⟨q,hq⟩ := hc.traced.copies hmem hm hb
        exact ⟨q,hq.trans hsuf⟩
    · obtain ⟨q,hq⟩ := hc.traced.copies hk hm hb
      exact ⟨q,hq.trans hsuf⟩
  · intro x m hm
    rcases hlog with rfl | ⟨y,rfl,hy⟩
    · exact (hc.traced.origin hm).mono extends_call
    · rcases List.suffix_cons_iff.mp hm with he | hm
      · obtain ⟨rfl,rfl⟩ := List.cons.inj he
        exact hy
      · exact (hc.traced.origin hm).mono extends_call
  · intro k m ev hk hm
    rcases histories_call hk with rfl | hk
    · rcases List.suffix_cons_iff.mp hm with he | hm
      · obtain ⟨rfl,rfl⟩ := List.cons.inj he
        exact hobeys.1
      · exact hc.traced.allowed hmem hm
    · exact hc.traced.allowed hk hm
  · intro k p hk
    rcases List.mem_append.mp hk with hk | hk
    · exact hc.obeys (List.mem_append_left _ hk)
    · rcases List.mem_cons.mp hk with he | hk
      · cases he
        exact hobeys.2 r
      · exact hc.obeys (List.mem_append_right _ (List.mem_cons_of_mem _ hk))

end call

variable {c d : Replicas σ}

/-- The log and the calls are all that matters. -/
theorem Sound.same (hc : c.Sound Φ Ψ) (hlog : d.log = c.log)
    (hmem : ∀ k, k ∈ d.merged.histories ↔ k ∈ c.merged.histories)
    (hjobs : ∀ j ∈ d.jobs, j ∈ c.jobs) : d.Sound Φ Ψ := by
  have hserver : d.merged.server = c.merged.server := by simp only [merged,hlog]
  refine ⟨⟨?_,?_,?_,?_⟩,fun hj => hc.obeys (hjobs _ hj)⟩
  · rw [hserver]
    exact hc.traced.server
  · intro k l b hk
    rw [hserver]
    exact hc.traced.copies ((hmem k).mp hk)
  · intro x l hl
    rw [hserver] at hl
    exact (hc.traced.origin hl).mono fun k hk => ⟨k,(hmem k).mpr hk,List.suffix_refl k⟩
  · intro k l ev hk
    exact hc.traced.allowed ((hmem k).mp hk)

/-- A job that has ended is remembered. -/
theorem Sound.ended {l : List (Option K.Object)} {w : σ.World}
    {past : List (History (K.interface X))}
    {jobs jobs' : List (History (K.interface X) × Program (K.interface X) α)}
    {h : History (K.interface X)} {p : Program (K.interface X) α}
    (hc : Sound Φ Ψ (⟨l,w,past,jobs ++ (h,p)::jobs'⟩ : Replicas σ)) :
    Sound Φ Ψ (⟨l,w,h::past,jobs ++ jobs'⟩ : Replicas σ) := by
  refine hc.same rfl (fun k => ?_) ?_
  · rw [mem_histories,mem_histories]
    simp only [List.mem_append,List.mem_cons,Prod.mk.injEq]
    aesop
  · intro j hj
    rcases List.mem_append.mp hj with hj | hj
    · exact List.mem_append_left _ hj
    · exact List.mem_append_right _ (List.mem_cons_of_mem _ hj)

theorem Sound.start {l : List (Option K.Object)} {w : σ.World}
    {past : List (History (K.interface X))}
    {jobs : List (History (K.interface X) × Program (K.interface X) α)}
    (hmain : Program.Obeys Φ Ψ [] σ.main) (hc : Sound Φ Ψ (⟨l,w,past,jobs⟩ : Replicas σ)) :
    Sound Φ Ψ (⟨l,w,past,([],σ.main)::jobs⟩ : Replicas σ) := by
  have hmem : ∀ {k}, k ∈ (⟨l,w,past,([],σ.main)::jobs⟩ : Replicas σ).merged.histories →
      k = [] ∨ k ∈ (⟨l,w,past,jobs⟩ : Replicas σ).merged.histories :=
    fun hk => List.mem_cons.mp hk
  refine ⟨⟨hc.traced.server,?_,?_,?_⟩,?_⟩
  · intro k m b hk hm hb
    rcases hmem hk with rfl | hk
    · rw [List.suffix_nil.mp hm] at hb
      cases hb
    · exact hc.traced.copies hk hm hb
  · intro x m hm
    exact (hc.traced.origin hm).mono fun k hk => ⟨k,List.mem_cons_of_mem _ hk,List.suffix_refl k⟩
  · intro k m ev hk hm
    rcases hmem hk with rfl | hk
    · simp at hm
    · exact hc.traced.allowed hk hm
  · intro h p hj
    rcases List.mem_cons.mp hj with he | hj
    · cases he
      exact hmain
    · exact hc.obeys hj

theorem Sound.edited {l : List (Option K.Object)} {w : σ.World} {s : Server K}
    {past : List (History (K.interface X))}
    {jobs : List (History (K.interface X) × Program (K.interface X) α)}
    (hc : Sound Φ Ψ (⟨l,w,past,jobs⟩ : Replicas σ))
    (he : Server.Edited (⟨l,l.length⟩ : Server K) s) :
    Sound Φ Ψ (⟨s.log,w,past,jobs⟩ : Replicas σ) := by
  obtain ⟨x,hlog,ho⟩ := he.origin (⟨l,w,past,jobs⟩ : Replicas σ).merged.histories
  refine ⟨⟨(hc.traced.server.edited he).upToDate,?_,?_,hc.traced.allowed⟩,hc.obeys⟩
  · intro k m b hk hm hb
    obtain ⟨q,hq⟩ := hc.traced.copies hk hm hb
    refine ⟨q,hq.trans ?_⟩
    change l <:+ s.log
    rw [hlog]
    exact List.suffix_cons _ _
  · intro y m hm
    change y::m <:+ s.log at hm
    rw [hlog] at hm
    rcases List.suffix_cons_iff.mp hm with he | hm
    · obtain ⟨rfl,rfl⟩ := List.cons.inj he
      exact ho
    · exact hc.traced.origin hm

theorem Sound.step (hΦ : ∀ h e, Φ h e → Disciplined h e) (hmain : Program.Obeys Φ Ψ [] σ.main)
    (hc : c.Sound Φ Ψ) (hs : Step c d) : d.Sound Φ Ψ := by
  cases hs with
  | user he => exact hc.edited he
  | others ha => exact hc.same rfl (fun _ => Iff.rfl) fun _ hj => hj
  | start => exact hc.start hmain
  | finish | crash => exact hc.ended
  | @outside l w w' past jobs jobs' h e next r ha =>
    exact hc.call hc.traced.server hc.job.2 (.inl rfl)
  | @own l w past jobs jobs' h e next r n s ha =>
    obtain ⟨hobeys,hcopy⟩ := hc.job
    have hdisc := hΦ _ _ hobeys.1
    have hsound : Server.Sound (⟨l,l.length⟩ : Server K) := hc.traced.server
    have hnew : ∀ {l' : List (Option K.Object)}, ⟨.inl e,r⟩::h ∈ (⟨l',w,past,
        jobs ++ (⟨.inl e,r⟩::h,next r)::jobs'⟩ : Replicas σ).merged.histories :=
      mem_histories.mpr (.inl ⟨_,List.mem_append_right _ List.mem_cons_self⟩)
    cases e with
    | get =>
      cases r with
      | ok o =>
        obtain ⟨m,⟨hm,-⟩,rfl⟩ := ha
        refine hc.call hsound (fun b hb => ?_) (.inl rfl)
        obtain rfl : o = b := by simpa using hb
        exact ⟨m,hm⟩
      | error err =>
        have hlog : s.log = l := by
          change if err.reason = .notFound then _ else _ at ha
          split at ha
          · obtain ⟨m,-,-,rfl⟩ := ha
            rfl
          · rw [ha]
        rw [hlog]
        refine hc.call hsound (fun b hb => ?_) (.inl rfl)
        simp at hb
    | update o =>
      cases r with
      | ok v =>
        obtain ⟨b,hb,hsp,hv⟩ := hdisc
        obtain ⟨m,hm⟩ := hcopy b hb
        obtain ⟨rfl,hs',hlog⟩ := hsound.objectWrite hm hv hsp ha
        refine hc.call hs' (fun b hb => ?_) ?_
        · simp at hb
        · rcases hlog with hlog | ⟨x,hlog,hg,hk⟩
          · exact .inl hlog
          · refine .inr ⟨x,hlog,?_⟩
            rw [hlog]
            exact .object hnew (List.suffix_refl _) hb hg hk
      | error err =>
        obtain rfl : s = _ := ha
        exact hc.call hsound hcopy (.inl rfl)
    | updateStatus o =>
      cases r with
      | ok v =>
        obtain ⟨b,hb,hmeta,hsp⟩ := hdisc
        obtain ⟨m,hm⟩ := hcopy b hb
        obtain ⟨rfl,hadm,hs',hlog⟩ := hsound.statusWrite hm hmeta hsp ha
        refine hc.call hs' (fun b' hb' => ?_) ?_
        · obtain rfl : o.stored v = b' := by simpa using hb'
          rcases hlog with ⟨hlog,ho⟩ | hlog
          · rw [hlog,ho]
            exact ⟨m,List.suffix_refl _⟩
          · rw [hlog]
            exact ⟨_,List.suffix_refl _⟩
        · rcases hlog with ⟨hlog,-⟩ | hlog
          · exact .inl hlog
          · refine .inr ⟨_,hlog,?_⟩
            rw [hlog]
            exact .status hnew (List.suffix_refl _) hb hmeta hsp hadm
      | error err =>
        obtain rfl : s = _ := ha
        exact hc.call hsound hcopy (.inl rfl)

/-- Whatever the number of jobs, every state comes from a user or from one call of one job that
worked on the state before it. -/
theorem Reachable.traced (hΦ : ∀ h e, Φ h e → Disciplined h e)
    (hmain : Program.Obeys Φ Ψ [] σ.main) (hc : Reachable σ c) : c.merged.Traced Φ := by
  have hsound : c.Sound Φ Ψ := by
    induction hc with
    | init hw =>
      refine ⟨⟨Server.sound_nil,?_,?_,?_⟩,nofun⟩
      · intro k l b hk
        cases hk
      · intro x l hl
        simp [merged] at hl
      · intro k l ev hk
        cases hk
    | step _ hs ih => exact ih.step hΦ hmain hs
  exact hsound.traced

/-! ## A single controller -/

/-- A controller with one job at a time. -/
def single (c : Config σ) : Replicas σ := ⟨c.server.log,c.world,c.past,c.job.toList⟩

theorem step_single {c d : Config σ} (hs : σ.Step c d) : Step (single c) (single d) := by
  cases hs with
  | user he =>
    obtain ⟨s,hs,hlog⟩ := he.upToDate
    rw [single,single,← hlog]
    exact .user hs
  | others ha => exact .others ha
  | start => exact .start
  | own ha => exact show Step ⟨_,_,_,[] ++ _::[]⟩ ⟨_,_,_,[] ++ _::[]⟩ from .own ha
  | outside ha => exact show Step ⟨_,_,_,[] ++ _::[]⟩ ⟨_,_,_,[] ++ _::[]⟩ from .outside ha
  | finish => exact show Step ⟨_,_,_,[] ++ _::[]⟩ ⟨_,_,_,[] ++ []⟩ from .finish
  | crash => exact show Step ⟨_,_,_,[] ++ _::[]⟩ ⟨_,_,_,[] ++ []⟩ from .crash

theorem reachable_single {c : Config σ} (hc : σ.Reachable c) : Reachable σ (single c) := by
  induction hc with
  | init hw => exact .init hw
  | step _ hs _ ih => exact .step ih (step_single hs)

end Replicas
end Kube

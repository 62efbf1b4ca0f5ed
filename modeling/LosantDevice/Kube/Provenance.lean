import LosantDevice.Kube.Controller

/-!
# Where a state comes from

Every state in the log of a reachable configuration was left there by a user or by one call
of one job, and every call of every job was one its program allows. A property of the states
can then be read off the calls that write them.
-/
namespace Kube
open Effect

variable {K : Kind} {X : Interface} {α : Type}

/-- How the state `x`, or the absence of one, came after the states `l`. -/
inductive Origin (hs : List (History (K.interface X))) :
    Option K.Object → List (Option K.Object) → Prop
  | created {o l} (fresh : ∀ o', some o' ∈ l → o'.metadata.uid ≠ o.metadata.uid)
      (bare : o.metadata.finalizers = [] ∧ o.metadata.deletionTimestamp = none ∧
        o.status = K.initial) : Origin hs (some o) l
  | user {o b l} (uid : o.metadata.uid = b.metadata.uid) (status : o.status = b.status)
      (finalizers : o.metadata.finalizers = b.metadata.finalizers)
      (deleting : b.metadata.deletionTimestamp.isSome → o.metadata.deletionTimestamp.isSome) :
      Origin hs (some o) (some b::l)
  | removed {b l} (free : b.metadata.finalizers = []) : Origin hs none (some b::l)
  | status {o b l h k v} (mem : h ∈ hs) (event : ⟨.inl (.updateStatus o),.ok v⟩::k <:+ h)
      (copy : lastCopy k = some b) (metadata : o.metadata = b.metadata) (spec : o.spec = b.spec)
      (admitted : K.admits o.status) : Origin hs (some (o.stored v)) (some b::l)
  | object {o b l h k v x} (mem : h ∈ hs) (event : ⟨.inl (.update o),.ok v⟩::k <:+ h)
      (copy : lastCopy k = some b)
      (gone : x = none → b.metadata.deletionTimestamp.isSome ∧ o.metadata.finalizers = [])
      (kept : ∀ o', x = some o' → o' = { b with metadata := { b.metadata with
        finalizers := o.metadata.finalizers, resourceVersion := v } }) :
      Origin hs x (some b::l)

/-- Every history of `hs` goes on in `hs'`. -/
def Extends (hs hs' : List (History (K.interface X))) : Prop :=
  ∀ h ∈ hs, ∃ h' ∈ hs', h <:+ h'

theorem Origin.mono {hs hs' : List (History (K.interface X))} (hle : Extends hs hs')
    {x : Option K.Object} {l : List (Option K.Object)} (ho : Origin hs x l) : Origin hs' x l := by
  cases ho with
  | created hf hb => exact .created hf hb
  | user hu hst hfin hd => exact .user hu hst hfin hd
  | removed hf => exact .removed hf
  | status hm he hc h1 h2 h3 =>
    obtain ⟨h',hm',hs'⟩ := hle _ hm
    exact .status hm' (he.trans hs') hc h1 h2 h3
  | object hm he hc hg hk =>
    obtain ⟨h',hm',hs'⟩ := hle _ hm
    exact .object hm' (he.trans hs') hc hg hk

variable {σ : System K X α}

theorem Config.mem_histories {c : Config σ} {h p} (hj : c.job = some (h,p)) : h ∈ c.histories := by
  simp [Config.histories,hj]

/-- A step forgets no call. -/
theorem System.Step.extends {c d : Config σ} (hs : σ.Step c d) :
    Extends c.histories d.histories := by
  have hself : ∀ hs : List (History (K.interface X)), Extends hs hs :=
    fun hs h hm => ⟨h,hm,List.suffix_refl h⟩
  have hcons : ∀ (ev : Event (K.interface X)) (h : History (K.interface X)) past,
      Extends (h::past) ((ev::h)::past) := by
    intro ev h past k hk
    rcases List.mem_cons.mp hk with rfl | hk
    · exact ⟨ev::k,by simp,List.suffix_cons ev k⟩
    · exact ⟨k,by simp [hk],List.suffix_refl k⟩
  cases hs with
  | user | others | finish | crash => exact hself _
  | start => exact fun h hm => ⟨h,List.mem_cons_of_mem _ hm,List.suffix_refl h⟩
  | own | outside => exact hcons _ _ _

variable {Φ : History (K.interface X) → (K.interface X).Call → Prop}
  {Ψ : History (K.interface X) → α → Prop}

/-- What a user leaves in the log. -/
theorem Server.Edited.origin {s s' : Server K} (h : Server.Edited s s')
    (hs : List (History (K.interface X))) : ∃ x, s'.log = x::s.log ∧ Origin hs x s.log := by
  have hlog : ∀ {cur : K.Object}, s.current = some cur → ∃ l, s.log = some cur::l :=
    fun hp => Server.current_eq_some.mp hp
  cases h with
  | create o ha hf hb => exact ⟨_,rfl,.created hf hb⟩
  | edit spec hp =>
    obtain ⟨l,hl⟩ := hlog hp
    refine ⟨_,rfl,?_⟩
    rw [hl]
    exact .user rfl rfl rfl (fun h => h)
  | annotate hp =>
    obtain ⟨l,hl⟩ := hlog hp
    refine ⟨_,rfl,?_⟩
    rw [hl]
    exact .user rfl rfl rfl (fun h => h)
  | remove hp hf =>
    obtain ⟨l,hl⟩ := hlog hp
    refine ⟨_,rfl,?_⟩
    rw [hl]
    exact .removed hf
  | markDeleted t hp hf hlive =>
    obtain ⟨l,hl⟩ := hlog hp
    refine ⟨_,rfl,?_⟩
    rw [hl]
    exact .user rfl rfl rfl (fun _ => rfl)

/-- What a step leaves in the log. -/
theorem Written.origin {c d : Config σ} (hw : Written c d) : d.server.log = c.server.log ∨
    ∃ x, d.server.log = x::c.server.log ∧ Origin d.histories x c.server.log := by
  cases hw with
  | kept hl => exact .inl hl
  | user he hj hp => exact .inr (he.origin _)
  | status hj hc hlat hm hsp had hl haft hp =>
    refine .inr ⟨_,hl,?_⟩
    have hmem := Config.mem_histories haft
    rw [hlat]
    rw [hlat] at hmem
    exact .status hmem (List.suffix_refl _) hc hm hsp had
  | object hj hc hlat hl hg hk haft hp =>
    refine .inr ⟨_,hl,?_⟩
    have hmem := Config.mem_histories haft
    rw [hlat]
    rw [hlat] at hmem hk
    exact .object hmem (List.suffix_refl _) hc hg hk

theorem System.Reachable.origin {c : Config σ} (hΦ : ∀ h e, Φ h e → Disciplined h e)
    (hmain : Program.Obeys Φ Ψ [] σ.main) (h : σ.Reachable c) {x : Option K.Object}
    {l : List (Option K.Object)} (hl : x::l <:+ c.server.log) : Origin c.histories x l := by
  induction h generalizing x l with
  | init hw => simp at hl
  | @step c d hb hm _ ih =>
    have hwr := (System.Reachable.sound hΦ hmain hb).written hΦ hm
    rcases hwr.origin with hlog | ⟨y,hlog,ho⟩
    · rw [hlog] at hl
      exact (ih hl).mono hm.extends
    · rw [hlog] at hl
      rcases List.suffix_cons_iff.mp hl with he | hl
      · obtain ⟨rfl,rfl⟩ := List.cons.inj he
        exact ho
      · exact (ih hl).mono hm.extends

/-- What holds of every call when it is answered holds of every call ever made. -/
theorem System.ReachableBy.events {P : Config σ → Config σ → Prop}
    {Q : History (K.interface X) → Event (K.interface X) → Prop}
    (hnew : ∀ {c d h e next r}, σ.ReachableBy P c → σ.Step c d → P c d →
      c.job = some (h,.call e next) → d.job = some (⟨e,r⟩::h,next r) → Q h ⟨e,r⟩)
    {c : Config σ} (h : σ.ReachableBy P c) {k l : History (K.interface X)}
    {ev : Event (K.interface X)} (hk : k ∈ c.histories) (hl : ev::l <:+ k) : Q l ev := by
  induction h generalizing k ev l with
  | init hw => simp [Config.histories] at hk
  | @step c d hb hm hp ih =>
    have hm' := hm
    cases hm with
    | user | others | finish | crash => exact ih hk hl
    | start =>
      rcases List.mem_cons.mp hk with rfl | hk
      · simp at hl
      · exact ih hk hl
    | own | outside =>
      rcases List.mem_cons.mp hk with rfl | hk
      · rcases List.suffix_cons_iff.mp hl with he | hl
        · obtain ⟨rfl,rfl⟩ := List.cons.inj he
          exact hnew hb hm' hp rfl rfl
        · exact ih List.mem_cons_self hl
      · exact ih (List.mem_cons_of_mem _ hk) hl

/-- Every call ever made was answered in some step of the run. -/
theorem System.ReachableBy.exists_step {P : Config σ → Config σ → Prop} {c : Config σ}
    (h : σ.ReachableBy P c) {k l : History (K.interface X)} {e : (K.interface X).Call}
    {r : (K.interface X).Answer e} (hk : k ∈ c.histories) (hl : ⟨e,r⟩::l <:+ k) :
    ∃ c' d' next, σ.ReachableBy P c' ∧ σ.Step c' d' ∧ P c' d' ∧
      c'.job = some (l,.call e next) ∧ d'.job = some (⟨e,r⟩::l,next r) := by
  refine System.ReachableBy.events (Q := fun l ev => ∃ c' d' next, σ.ReachableBy P c' ∧
    σ.Step c' d' ∧ P c' d' ∧ c'.job = some (l,.call ev.call next) ∧
      d'.job = some (ev::l,next ev.answer)) ?_ h hk hl
  intro c d h e next r hc hs hp hj hj'
  exact ⟨c,d,next,hc,hs,hp,hj,hj'⟩

/-- Every call ever made was allowed when it was made. -/
theorem System.Reachable.allowed {c : Config σ} (hΦ : ∀ h e, Φ h e → Disciplined h e)
    (hmain : Program.Obeys Φ Ψ [] σ.main) (h : σ.Reachable c) {k l : History (K.interface X)}
    {ev : Event (K.interface X)} (hk : k ∈ c.histories) (hl : ev::l <:+ k) : Φ l ev.call := by
  refine System.ReachableBy.events (Q := fun l ev => Φ l ev.call) ?_ h hk hl
  intro c d h e next r hc _ _ hj _
  exact ((System.Reachable.sound hΦ hmain hc).obeys hj).1

/-- The world answers a call from outside the server. -/
theorem System.Step.answers {c d : Config σ} (hs : σ.Step c d) {h e next r}
    (hj : c.job = some (h,.call (.inr e) next)) (hj' : d.job = some (⟨.inr e,r⟩::h,next r)) :
    σ.answers c.world e r d.world := by
  cases hs with
  | outside ha =>
    cases hj
    cases hj'
    exact ha
  | own =>
    cases hj
  | user | others =>
    rw [hj] at hj'
    simp at hj'
  | start | finish | crash => cases hj <;> cases hj'

/-- The server answers a call on the object. -/
theorem System.Step.replies {c d : Config σ} (hs : σ.Step c d) {h e next r}
    (hj : c.job = some (h,.call (.inl e) next)) (hj' : d.job = some (⟨.inl e,r⟩::h,next r)) :
    c.server.Answers e r d.server := by
  cases hs with
  | own ha =>
    cases hj
    cases hj'
    exact ha
  | outside =>
    cases hj
  | user | others =>
    rw [hj] at hj'
    simp at hj'
  | start | finish | crash => cases hj <;> cases hj'

/-- Every answer a job ever had was one the world gives. -/
theorem System.Reachable.answered {c : Config σ} (h : σ.Reachable c) {k : History (K.interface X)}
    {e : X.Call} {r : X.Answer e} (hk : k ∈ c.histories)
    (he : (⟨.inr e,r⟩ : Event (K.interface X)) ∈ k) : ∃ w w', σ.answers w e r w' := by
  obtain ⟨l₁,l,rfl⟩ := List.append_of_mem he
  refine System.ReachableBy.events (Q := fun _ ev => ∀ (e : X.Call) (r : X.Answer e),
    ev = ⟨.inr e,r⟩ → ∃ w w', σ.answers w e r w') ?_ h hk (List.suffix_append l₁ _) e r rfl
  intro c d h e next r _ hs _ hj hj' e' r' hev
  cases hev
  exact ⟨_,_,hs.answers hj hj'⟩

/-- What holds of every object when it is read holds of every object ever read. -/
theorem System.ReachableBy.reads {P : Config σ → Config σ → Prop} {Q : K.Object → Prop}
    (hP : ∀ {c d b}, P c d → σ.Read c d b → Q b) {c : Config σ} (h : σ.ReachableBy P c)
    {k : History (K.interface X)} {b : K.Object} (hk : k ∈ c.histories)
    (hb : (⟨.inl .get,.ok b⟩ : Event (K.interface X)) ∈ k) : Q b := by
  obtain ⟨l₁,l,rfl⟩ := List.append_of_mem hb
  refine System.ReachableBy.events (Q := fun _ ev => ∀ b : K.Object,
    ev = ⟨.inl .get,.ok b⟩ → Q b) ?_ h hk (List.suffix_append l₁ _) b rfl
  intro c d h e next r _ _ hp hj hj' b hev
  cases hev
  exact hP hp ⟨h,next,hj,hj'⟩

/-- A step only adds to the log. -/
theorem Written.suffix {c d : Config σ} (hw : Written c d) : c.server.log <:+ d.server.log := by
  rcases hw.origin with hlog | ⟨x,hlog,-⟩
  · rw [hlog]
  · rw [hlog]
    exact List.suffix_cons x _

/-- Every copy a job ever worked on is a state of the log. -/
theorem System.Reachable.copies {c : Config σ} (hΦ : ∀ h e, Φ h e → Disciplined h e)
    (hmain : Program.Obeys Φ Ψ [] σ.main) (h : σ.Reachable c) {k l : History (K.interface X)}
    {b : K.Object} (hk : k ∈ c.histories) (hl : l <:+ k) (hb : lastCopy l = some b) :
    ∃ m, some b::m <:+ c.server.log := by
  induction h generalizing k with
  | init hw => simp [Config.histories] at hk
  | @step c d hbefore hm _ ih =>
    have hsound := System.Reachable.sound hΦ hmain hbefore
    have hsuf := (hsound.written hΦ hm).suffix
    have hold : ∀ {k}, k ∈ c.histories → l <:+ k → ∃ m, some b::m <:+ d.server.log := by
      intro k hk hl
      obtain ⟨m,hm⟩ := ih hk hl
      exact ⟨m,hm.trans hsuf⟩
    -- A call adds one event to the history of the job; its copy is the one of the new job.
    have hnew : ∀ {h : History (K.interface X)} {p q ev}, c.job = some (h,p) →
        d.job = some (ev::h,q) → l <:+ ev::h → ∃ m, some b::m <:+ d.server.log := by
      intro h p q ev hc hd hl
      rcases List.suffix_cons_iff.mp hl with rfl | hl
      · obtain ⟨-,m,hm,-⟩ := (hsound.step hΦ hmain hm).copy hd hb
        exact ⟨m,hm⟩
      · exact hold (Config.mem_histories hc) hl
    cases hm with
    | user | others | finish | crash => exact hold hk hl
    | start =>
      rcases List.mem_cons.mp hk with rfl | hk
      · rw [List.suffix_nil.mp hl] at hb
        cases hb
      · exact hold hk hl
    | own | outside =>
      rcases List.mem_cons.mp hk with rfl | hk
      · exact hnew rfl rfl hl
      · exact hold (List.mem_cons_of_mem _ hk) hl

/-- What the log and the histories of a reachable configuration say about each other. -/
structure Config.Traced (Φ : History (K.interface X) → (K.interface X).Call → Prop)
    (c : Config σ) : Prop where
  server : c.server.Sound
  copies {k l b} : k ∈ c.histories → l <:+ k → lastCopy l = some b → ∃ m, some b::m <:+ c.server.log
  origin {x l} : x::l <:+ c.server.log → Origin c.histories x l
  allowed {k l ev} : k ∈ c.histories → ev::l <:+ k → Φ l ev.call

theorem System.Reachable.traced {c : Config σ} (hΦ : ∀ h e, Φ h e → Disciplined h e)
    (hmain : Program.Obeys Φ Ψ [] σ.main) (h : σ.Reachable c) : c.Traced Φ :=
  ⟨(System.Reachable.sound hΦ hmain h).server,System.Reachable.copies hΦ hmain h,
    System.Reachable.origin hΦ hmain h,
    System.Reachable.allowed hΦ hmain h⟩

theorem Config.Traced.mono {Φ' : History (K.interface X) → (K.interface X).Call → Prop}
    {c : Config σ} (hc : c.Traced Φ) (hΦ : ∀ h e, Φ h e → Φ' h e) : c.Traced Φ' :=
  ⟨hc.server,hc.copies,hc.origin,fun hk hl => hΦ _ _ (hc.allowed hk hl)⟩

/-- A call on record was allowed by the calls before it. -/
theorem Config.Traced.allowed_of_mem {c : Config σ} (hc : c.Traced Φ) {h : History (K.interface X)}
    {ev : Event (K.interface X)} (hh : h ∈ c.histories) (hev : ev ∈ h) :
    ∃ l, l <:+ h ∧ Φ l ev.call := by
  obtain ⟨p,l,rfl⟩ := List.append_of_mem hev
  have hl : ev::l <:+ p ++ ev::l := List.suffix_append _ _
  exact ⟨l,(List.suffix_cons _ _).trans hl,hc.allowed hh hl⟩

/-- What each state of an object takes over from the one before it holds from then on. -/
theorem Config.Traced.inherits {c : Config σ} (hc : c.Traced Φ) {P : K.Object → Prop}
    (hstep : ∀ {o b l}, some o::some b::l <:+ c.server.log →
      o.metadata.uid = b.metadata.uid → P b → P o)
    {o o' : K.Object} {l : List (Option K.Object)} (hl : some o::l <:+ c.server.log)
    (ho' : some o' ∈ l) (hu : o'.metadata.uid = o.metadata.uid) (hp : P o') : P o := by
  induction l generalizing o with
  | nil => simp at ho'
  | cons x l ih =>
    obtain ⟨b,l',hx,hbu⟩ := hc.server.life hl ho' hu
    obtain ⟨rfl,rfl⟩ := List.cons.inj hx
    refine hstep hl hbu.symm ?_
    rcases List.mem_cons.mp ho' with he | ho'
    · rw [← Option.some.inj he]
      exact hp
    · exact ih ((List.suffix_cons _ _).trans hl) ho' (hu.trans hbu.symm)

/-- A status that differs from the one before it was written by a job that worked on that one. -/
theorem Config.Traced.status_step {c : Config σ} (hc : c.Traced Φ) {o b : K.Object}
    {l : List (Option K.Object)} (hl : some o::some b::l <:+ c.server.log)
    (hu : o.metadata.uid = b.metadata.uid) : o.status = b.status ∨ ∃ h ∈ c.histories, ∃ a v k,
      (⟨.inl (.updateStatus a),.ok v⟩::k : History (K.interface X)) <:+ h ∧ lastCopy k = some b ∧
        o = a.stored v := by
  cases hc.origin hl with
  | created hf _ => exact absurd hu.symm (hf b List.mem_cons_self)
  | user _ hst _ _ => exact .inl hst
  | status hm he hcopy _ _ _ => exact .inr ⟨_,hm,_,_,_,he,hcopy,rfl⟩
  | object _ _ _ _ hk =>
    rw [hk o rfl]
    exact .inl rfl

/-- A status is the initial one or was written by a job. -/
theorem Config.Traced.status_written {c : Config σ} (hc : c.Traced Φ) {o : K.Object}
    {l : List (Option K.Object)} (hl : l <:+ c.server.log) (ho : some o ∈ l) :
    o.status = K.initial ∨ ∃ h ∈ c.histories, ∃ a v k,
      (⟨.inl (.updateStatus a),.ok v⟩::k : History (K.interface X)) <:+ h ∧
        o.status = K.encode a.status := by
  induction l generalizing o with
  | nil => simp at ho
  | cons x l ih =>
    have ih := fun {o} => @ih o ((List.suffix_cons _ _).trans hl)
    rcases List.mem_cons.mp ho with rfl | ho
    · cases hc.origin hl with
      | created _ hb => exact .inl hb.2.2
      | user _ hst _ _ =>
        rw [hst]
        exact ih List.mem_cons_self
      | status hm he _ _ _ _ => exact .inr ⟨_,hm,_,_,_,he,rfl⟩
      | object _ _ _ _ hk =>
        have hst := congrArg Object.status (hk o rfl)
        dsimp only at hst
        rw [hst]
        exact ih List.mem_cons_self
    · exact ih ho

end Kube

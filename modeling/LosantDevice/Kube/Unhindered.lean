import LosantDevice.Kube.Provenance
import LosantDevice.Kube.Replay

/-!
# Jobs that nothing hinders

The cache of such a job is up to date, its writes are accepted, its other calls are answered as
`good` says, and nobody else acts meanwhile. What it leaves behind can be read off the calls it has
made.
-/
namespace Kube
open Effect

variable {K : Kind} {X : Interface} {α : Type} {σ : System K X α}

/-- The latest state is read, and no write is refused. -/
def Prompt (s : Server K) : (e : OwnCall K) → (K.interface X).Answer (.inl e) → Prop
  | .get,r => ∃ o : K.Object, s.current = some o ∧ r = .ok o
  | .update _,r => ∃ v : ℕ, r = .ok v
  | .updateStatus _,r => ∃ v : ℕ, r = .ok v

variable (good : (e : X.Call) → X.Answer e → Prop)

/-- One call of such a job. -/
inductive Calm : Config σ → Config σ → Prop
  | own {s s' w past h e next r} (answered : s.Answers e r s') (prompt : Prompt s e r) :
      Calm ⟨s,w,past,some (h,.call (.inl e) next)⟩ ⟨s',w,past,some (⟨.inl e,r⟩::h,next r)⟩
  | outside {s w w' past h e next r} (answered : σ.answers w e r w') (favour : good e r) :
      Calm ⟨s,w,past,some (h,.call (.inr e) next)⟩ ⟨s,w',past,some (⟨.inr e,r⟩::h,next r)⟩

/-- A whole job. -/
def Unhindered (c d : Config σ) : Prop :=
  ∃ e h a, c.job = none ∧
    Relation.ReflTransGen (Calm good) ⟨c.server,c.world,c.past,some ([],σ.main)⟩ e ∧
    e.job = some (h,.done a) ∧ d = ⟨e.server,e.world,h::e.past,none⟩

/-- That many jobs, one after another. -/
def Rounds : ℕ → Config σ → Config σ → Prop
  | 0,c,d => d = c
  | n+1,c,d => ∃ e, Unhindered good c e ∧ Rounds n e d

/-- The answer is not an error of the server, and as `good` says if it comes from elsewhere. -/
def Favoured : Event (K.interface X) → Prop
  | ⟨.inl .get,r⟩ => ∃ o : K.Object, r = .ok o
  | ⟨.inl (.update _),r⟩ => ∃ v : ℕ, r = .ok v
  | ⟨.inl (.updateStatus _),r⟩ => ∃ v : ℕ, r = .ok v
  | ⟨.inr e,r⟩ => good e r

/-- The program ends with `Q` if all answers are favourable. -/
abbrev Leads (Q : History (K.interface X) → α → Prop) (h : History (K.interface X))
    (p : Program (K.interface X) α) : Prop :=
  Program.Obeys (fun _ _ => True) (fun h a => (∀ ev ∈ h, Favoured good ev) → Q h a) h p

variable {good}

theorem Calm.step {c d : Config σ} (hs : Calm good c d) : σ.Step c d := by
  cases hs with
  | own ha _ => exact .own ha
  | outside ha _ => exact .outside ha

theorem reachable_calm {c d : Config σ} (hc : σ.Reachable c)
    (hs : Relation.ReflTransGen (Calm good) c d) : σ.Reachable d := by
  induction hs with
  | refl => exact hc
  | tail _ hs ih => exact .step ih hs.step trivial

theorem reachable_started {c : Config σ} (hc : σ.Reachable c) (hj : c.job = none) :
    σ.Reachable ⟨c.server,c.world,c.past,some ([],σ.main)⟩ := by
  obtain ⟨s,w,past,job⟩ := c
  cases hj
  exact .step hc .start trivial

theorem Unhindered.reachable {c d : Config σ} (hc : σ.Reachable c) (hd : Unhindered good c d) :
    σ.Reachable d := by
  obtain ⟨⟨s,w,past,job⟩,h,a,hj,hs,hdone,rfl⟩ := hd
  have he := reachable_calm (reachable_started hc hj) hs
  cases hdone
  exact .step he .finish trivial

section leads
variable {Q : History (K.interface X) → α → Prop} {h : History (K.interface X)}
  {p : Program (K.interface X) α}

/-- After an unfavourable answer there is nothing to show. -/
theorem Leads.spoiled (hbad : ¬∀ ev ∈ h, Favoured good ev) : Leads good Q h p := by
  induction p generalizing h with
  | done a => exact fun hall => absurd hall hbad
  | call e next ih =>
    refine ⟨trivial,fun r => ih r fun hall => hbad fun ev hev => ?_⟩
    exact hall ev (List.mem_cons_of_mem _ hev)

/-- The calls that do not go to the server. -/
def Outer : (K.interface X).Call → Prop
  | .inl _ => False
  | .inr _ => True

theorem Outer.keeps {β : Type} {Ψ : History (K.interface X) → β → Prop}
    {p : Program (K.interface X) β} (hp : p.Obeys (fun _ e => Outer e) Ψ h) :
    p.Obeys (fun _ _ => True) (fun h' a => Ψ h' a ∧ lastCopy h' = lastCopy h) h := by
  induction p generalizing h with
  | done a => exact ⟨hp,rfl⟩
  | call e next ih =>
    match e with
    | .inl e => exact hp.1.elim
    | .inr e => exact ⟨trivial,fun r => ih r (hp.2 r)⟩

/-- A part of the job makes no call on the object. -/
theorem leads_bind {β : Type} {Ψ : History (K.interface X) → β → Prop}
    {p : Program (K.interface X) β} {f : β → Program (K.interface X) α}
    (hp : p.Obeys (fun _ e => Outer e) Ψ h)
    (hf : ∀ h' a, Ψ h' a → lastCopy h' = lastCopy h → Leads good Q h' (f a)) :
    Leads good Q h (p >>= f) :=
  (Outer.keeps hp).bind fun h' a hq => hf h' a hq.1 hq.2

end leads

/-! ## What is left behind -/

/-- The same object, but for its version and its status. -/
structure Object.Same (b o : K.Object) : Prop where
  metadata : ∃ n, o.metadata = { b.metadata with resourceVersion := n }
  spec : o.spec = b.spec

theorem Object.same_refl (b : K.Object) : b.Same b := ⟨⟨_,rfl⟩,rfl⟩

theorem Object.Same.stored {b o : K.Object} (hs : b.Same o) (v : ℕ) : b.Same (o.stored v) := by
  obtain ⟨⟨n,hm⟩,hsp⟩ := hs
  exact ⟨⟨v,by simp only [Object.stored,hm]⟩,hsp⟩

/-- The job leaves `b` with such a status, given the calls it has made. -/
def Leaves (b : K.Object) (S : History (K.interface X) → K.Status → Prop)
    (h : History (K.interface X)) (_ : α) : Prop :=
  ∃ o, lastCopy h = some o ∧ b.Same o ∧ S h o.status

/-- The job ends with a write of the finalizers of `b`, which has such a status by then. -/
def Refinalizes (b : K.Object) (S : K.Status → Prop) (finalizers : List String)
    (h : History (K.interface X)) (_ : α) : Prop :=
  ∃ o v k b', h = ⟨.inl (.update o),.ok v⟩::k ∧ lastCopy k = some b' ∧ b.Same b' ∧ S b'.status ∧
    o.metadata.finalizers = finalizers

section writes
variable {h : History (K.interface X)} {b o : K.Object}
  {next : Except ApiError ℕ → Program (K.interface X) α}

theorem leads_updateStatus {Q : History (K.interface X) → α → Prop}
    (hf : ∀ v, Leads good Q (⟨.inl (.updateStatus o),.ok v⟩::h) (next (.ok v))) :
    Leads good Q h (.call (.inl (.updateStatus o)) next) := by
  refine ⟨trivial,?_⟩
  rintro (err | v)
  · refine Leads.spoiled fun hall => ?_
    obtain ⟨_,⟨⟩⟩ := hall _ List.mem_cons_self
  · exact hf v

/-- The last write of the status. -/
theorem leads_leave {S : History (K.interface X) → K.Status → Prop} (hs : b.Same o)
    (hS : ∀ h', h <:+ h' → S h' (K.encode o.status))
    (hf : ∀ v, (next (.ok v)).Obeys (fun _ e => Outer e) (fun _ _ => True)
      (⟨.inl (.updateStatus o),.ok v⟩::h)) :
    Leads good (Leaves b S) h (.call (.inl (.updateStatus o)) next) := by
  refine leads_updateStatus fun v =>
    ((Outer.keeps (hf v)).later (List.suffix_cons _ h)).mono (fun _ _ _ => trivial) ?_
  rintro h' a ⟨⟨-,hc⟩,hlater⟩ -
  exact ⟨o.stored v,hc,hs.stored v,hS h' hlater⟩

/-- A write of the finalizers, after which nothing is done. -/
theorem leads_update {S : K.Status → Prop}
    (hb : ∃ b', lastCopy h = some b' ∧ b.Same b' ∧ S b'.status)
    (hnext : ∀ v, ∃ a, next (.ok v) = .done a) :
    Leads good (Refinalizes b S o.metadata.finalizers) h (.call (.inl (.update o)) next) := by
  obtain ⟨b',hb,hs,hS⟩ := hb
  refine ⟨trivial,?_⟩
  rintro (err | v)
  · refine Leads.spoiled fun hall => ?_
    obtain ⟨_,⟨⟩⟩ := hall _ List.mem_cons_self
  · obtain ⟨a,ha⟩ := hnext v
    rw [ha]
    exact fun _ => ⟨o,v,h,b',rfl,hb,hs,hS,rfl⟩

end writes

/-- After a write of the finalizers of `b`: it is gone, or it has them. -/
def Rewritten (s : Server K) (b : K.Object) (finalizers : List String) : Prop :=
  b.metadata.deletionTimestamp.isSome ∧ finalizers = [] ∧ s.current = none ∨
    ∃ n, s.current = some { b with metadata := { b.metadata with
      finalizers := finalizers, resourceVersion := n } }

/-- What holds of the running job: its copy is the latest state, and so is what it makes of it. -/
structure Underway (good : (e : X.Call) → X.Answer e → Prop)
    (Q : History (K.interface X) → α → Prop) (c : Config σ) : Prop where
  leads {h p} : c.job = some (h,p) → Leads good Q h p
  favoured {h p} : c.job = some (h,p) → ∀ ev ∈ h, Favoured good ev
  current {h p b} : c.job = some (h,p) → lastCopy h = some b → c.server.current = some b
  updated {o v k p b} : c.job = some (⟨.inl (.update o),.ok v⟩::k,p) → lastCopy k = some b →
    Rewritten c.server b o.metadata.finalizers

theorem rewritten_of_update {s s' : Server K} {o b : K.Object} {v : ℕ} (hb : s.current = some b)
    (hsp : o.spec = b.spec) (hw : s.update o = some (s',v)) :
    Rewritten s' b o.metadata.finalizers := by
  obtain ⟨cur,hcur,hv,hcases⟩ := Server.write_cases hw
  obtain rfl := Option.some.inj (hb.symm.trans hcur)
  rcases hcases with ⟨hf,rfl,-⟩ | ⟨-,hd,hfin,rfl,-⟩ | ⟨-,-,rfl,-⟩
  · refine .inr ⟨b.metadata.resourceVersion,?_⟩
    have hfin := congrArg (fun x : K.Object => x.metadata.finalizers) hf
    dsimp only at hfin
    rw [hb,hfin]
  · exact .inl ⟨hd,hfin,rfl⟩
  · refine .inr ⟨s.log.length+1,?_⟩
    simp [Server.store,Server.push,Server.current,hsp]

variable {Q : History (K.interface X) → α → Prop} {c d : Config σ}
  {Φ : History (K.interface X) → (K.interface X).Call → Prop}
  {Ψ : History (K.interface X) → α → Prop}

theorem Underway.calm (hΦ : ∀ h e, Φ h e → Disciplined h e) (hc : c.Sound Φ Ψ)
    (hu : Underway good Q c) (hs : Calm good c d) : Underway good Q d := by
  cases hs with
  | @outside s w w' past h e next r ha hg =>
    refine ⟨?_,?_,?_,?_⟩
    · rintro h p ⟨⟩
      exact (hu.leads rfl).2 r
    · rintro h p ⟨⟩ ev hev
      rcases List.mem_cons.mp hev with rfl | hev
      · exact hg
      · exact hu.favoured rfl ev hev
    · rintro h p b ⟨⟩ hb
      exact hu.current rfl hb
    · rintro o v k p b ⟨⟩
  | @own s s' w past h e next r ha hp =>
    have hdisc := hΦ _ _ (hc.obeys rfl).1
    have hleads : Leads good Q (⟨.inl e,r⟩::h) (next r) := (hu.leads rfl).2 r
    have hfav : ∀ ev ∈ ⟨.inl e,r⟩::h, Favoured good ev := by
      intro ev hev
      rcases List.mem_cons.mp hev with rfl | hev
      · cases e with
        | get =>
          obtain ⟨o,-,hr⟩ := hp
          exact ⟨o,hr⟩
        | update o => exact hp
        | updateStatus o => exact hp
      · exact hu.favoured rfl ev hev
    refine ⟨?_,?_,?_,?_⟩
    · rintro h p ⟨⟩
      exact hleads
    · rintro h p ⟨⟩
      exact hfav
    · rintro h p b ⟨⟩ hb
      cases e with
      | get =>
        obtain ⟨o,ho,rfl⟩ := hp
        obtain ⟨l,-,rfl⟩ := ha
        obtain rfl : o = b := by simpa using hb
        exact ho
      | update o =>
        obtain ⟨v,rfl⟩ := hp
        simp at hb
      | updateStatus o =>
        obtain ⟨v,rfl⟩ := hp
        obtain rfl : o.stored v = b := by simpa using hb
        obtain ⟨b,l,-,hlog,-,-,⟨rfl,ho⟩ | ⟨rfl,-⟩⟩ := hc.updateStatus hΦ rfl ha
        · rw [ho]
          exact Server.current_eq_some.mpr ⟨l,hlog⟩
        · rfl
    · rintro o v k p b hj hb
      obtain ⟨hev,-⟩ := Prod.mk.inj (Option.some.inj hj)
      obtain ⟨hev,rfl⟩ := List.cons.inj hev
      cases hev
      obtain ⟨b',hb',hsp,-⟩ := hdisc
      obtain rfl := Option.some.inj (hb.symm.trans hb')
      exact rewritten_of_update (hu.current rfl hb) hsp ha

theorem Underway.run (hΦ : ∀ h e, Φ h e → Disciplined h e)
    (hobeys : Program.Obeys Φ Ψ [] σ.main) (hc : σ.Reachable c) (hu : Underway good Q c)
    (hs : Relation.ReflTransGen (Calm good) c d) : Underway good Q d := by
  induction hs with
  | refl => exact hu
  | tail hs hcalm ih =>
    exact ih.calm hΦ (System.Reachable.sound hΦ hobeys (reachable_calm hc hs)) hcalm

/-- The job has read the object. -/
theorem underway_read {next : Except ApiError K.Object → Program (K.interface X) α} {o : K.Object}
    (hmain : σ.main = .call (.inl .get) next)
    (hQ : Leads good Q [⟨.inl .get,.ok o⟩] (next (.ok o))) (ho : c.server.current = some o)
    (hs : Calm good ⟨c.server,c.world,c.past,some ([],σ.main)⟩ d) : Underway good Q d := by
  rw [hmain] at hs
  cases hs with
  | own ha hp =>
    obtain ⟨o',ho',rfl⟩ := hp
    obtain rfl := Option.some.inj (ho.symm.trans ho')
    obtain ⟨l,-,rfl⟩ := ha
    refine ⟨?_,?_,?_,?_⟩
    · rintro h p ⟨⟩
      exact hQ
    · rintro h p ⟨⟩ ev hev
      obtain rfl := List.mem_singleton.mp hev
      exact ⟨o,rfl⟩
    · rintro h p b ⟨⟩ hb
      obtain rfl : o = b := by simpa using hb
      exact ho
    · rintro o' v k p b ⟨⟩

/-- A job that nothing hinders ends as its program promises for favourable answers. -/
theorem Unhindered.result {next : Except ApiError K.Object → Program (K.interface X) α}
    {o : K.Object} (hΦ : ∀ h e, Φ h e → Disciplined h e)
    (hobeys : Program.Obeys Φ Ψ [] σ.main) (hmain : σ.main = .call (.inl .get) next)
    (hQ : Leads good Q [⟨.inl .get,.ok o⟩] (next (.ok o)))
    (hc : σ.Reachable c) (ho : c.server.current = some o) (hd : Unhindered good c d) :
    ∃ h a, d.past.head? = some h ∧ Q h a ∧
      (∀ b, lastCopy h = some b → d.server.current = some b) ∧
      ∀ o' v k b, h = ⟨.inl (.update o'),.ok v⟩::k → lastCopy k = some b →
        Rewritten d.server b o'.metadata.finalizers := by
  obtain ⟨e,h,a,hj,hs,hdone,rfl⟩ := hd
  have hstart := reachable_started hc hj
  rcases hs.cases_head with rfl | ⟨e',hcalm,hs⟩
  · rw [hmain] at hdone
    cases hdone
  · have hu := (underway_read hmain hQ ho hcalm).run hΦ hobeys (.step hstart hcalm.step trivial) hs
    refine ⟨h,a,rfl,hu.leads hdone (hu.favoured hdone),fun b hb => hu.current hdone hb,?_⟩
    rintro o' v k b rfl hb
    exact hu.updated hdone hb

section left
variable {next : Except ApiError K.Object → Program (K.interface X) α} {o b : K.Object}

theorem Unhindered.leaves {S : History (K.interface X) → K.Status → Prop}
    (hΦ : ∀ h e, Φ h e → Disciplined h e) (hobeys : Program.Obeys Φ Ψ [] σ.main)
    (hmain : σ.main = .call (.inl .get) next)
    (hQ : Leads good (Leaves b S) [⟨.inl .get,.ok o⟩] (next (.ok o)))
    (hc : σ.Reachable c) (ho : c.server.current = some o) (hd : Unhindered good c d) :
    ∃ h o', d.past.head? = some h ∧ d.server.current = some o' ∧ b.Same o' ∧ S h o'.status := by
  obtain ⟨h,a,hpast,⟨o',hcopy,hs,hS⟩,hcur,-⟩ := hd.result hΦ hobeys hmain hQ hc ho
  exact ⟨h,o',hpast,hcur o' hcopy,hs,hS⟩

theorem Unhindered.rewrites {S : K.Status → Prop} {finalizers : List String}
    (hΦ : ∀ h e, Φ h e → Disciplined h e) (hobeys : Program.Obeys Φ Ψ [] σ.main)
    (hmain : σ.main = .call (.inl .get) next)
    (hQ : Leads good (Refinalizes b S finalizers) [⟨.inl .get,.ok o⟩] (next (.ok o)))
    (hc : σ.Reachable c) (ho : c.server.current = some o) (hd : Unhindered good c d) :
    ∃ b', b.Same b' ∧ S b'.status ∧ Rewritten d.server b' finalizers := by
  obtain ⟨h,a,-,⟨o',v,k,b',rfl,hcopy,hs,hS,rfl⟩,-,hcur⟩ := hd.result hΦ hobeys hmain hQ hc ho
  exact ⟨b',hs,hS,hcur o' v k b' rfl hcopy⟩

end left

/-! ## Evaluated jobs -/

def succeeded : Event (K.interface X) → Bool
  | ⟨.inl .get,r⟩ => Except.isOk (r : Except ApiError K.Object)
  | ⟨.inl (.update _),r⟩ => Except.isOk (r : Except ApiError ℕ)
  | ⟨.inl (.updateStatus _),r⟩ => Except.isOk (r : Except ApiError ℕ)
  | ⟨.inr _,_⟩ => true

/-- The latest call of the job has succeeded. -/
def obliging (_ d : Config σ) : Bool :=
  match d.job with
  | some (ev::_,_) => succeeded ev
  | _ => true

theorem Server.prompt_of_reply {s : Server K} {refuse : Option ApiError} {e : OwnCall K}
    (hok : succeeded (X := X) ⟨.inl e,(s.reply refuse e).1⟩ = true) :
    Prompt s e (s.reply (X := X) refuse e).1 := by
  have hread : Except.isOk s.read.1 = true → Prompt (X := X) s .get s.read.1 := by
    unfold Server.read
    split
    · rename_i o ho
      exact fun _ => ⟨o,ho,rfl⟩
    · exact fun h => by cases h
  have hnumber : ∀ r : Except ApiError ℕ, Except.isOk r = true → ∃ v, r = .ok v := by
    rintro (err | v) h
    · cases h
    · exact ⟨v,rfl⟩
  cases e with
  | get =>
    cases refuse with
    | none => exact hread hok
    | some err =>
      change Prompt s .get (s.unread err).1
      have hok : Except.isOk (s.unread err).1 = true := hok
      unfold Server.unread at hok ⊢
      split at hok
      · rename_i herr
        rw [if_pos herr]
        exact hread hok
      · cases hok
  | update o => exact hnumber _ hok
  | updateStatus o => exact hnumber _ hok

theorem calm_of_play {f : σ.Script} (hf : ∀ {h w e r w'}, f.serve h w e = some (r,w') → good e r)
    {p : Program (K.interface X) α} {s w h past} (hp : f.play obliging past s w h p = some d) :
    ∃ e h' a, Relation.ReflTransGen (Calm good) ⟨s,w,past,some (h,p)⟩ e ∧
      e.job = some (h',.done a) ∧ d = ⟨e.server,e.world,h'::e.past,none⟩ := by
  induction p generalizing s w h with
  | done a =>
    obtain ⟨-,⟨⟩⟩ := Option.ite_none_right_eq_some.mp hp
    exact ⟨_,h,a,.refl,rfl,rfl⟩
  | call e next ih =>
    cases e with
    | inl e =>
      obtain ⟨⟨hs,hok⟩,hp⟩ := Option.ite_none_right_eq_some.mp hp
      obtain ⟨e',h',a,hrun,hend⟩ := ih _ hp
      exact ⟨e',h',a,
        .head (.own (Server.reply_answers hs e) (Server.prompt_of_reply hok)) hrun,hend⟩
    | inr e =>
      unfold System.Script.play at hp
      split at hp
      · rename_i r w' hserve
        obtain ⟨-,hp⟩ := Option.ite_none_right_eq_some.mp hp
        obtain ⟨e',h',a,hrun,hend⟩ := ih r hp
        exact ⟨e',h',a,.head (.outside (f.sound hserve) (hf hserve)) hrun,hend⟩
      · cases hp

theorem unhindered_of_job {f : σ.Script}
    (hf : ∀ {h w e r w'}, f.serve h w e = some (r,w') → good e r)
    (hd : (System.Act.job f).act obliging c = some d) : Unhindered good c d := by
  obtain ⟨s,w,past,_ | _⟩ := c
  · unfold System.Act.job at hd
    dsimp only at hd
    obtain ⟨-,hp⟩ := Option.ite_none_right_eq_some.mp hd
    obtain ⟨e,h,a,hrun,hend⟩ := calm_of_play hf hp
    exact ⟨e,h,a,rfl,hrun,hend⟩
  · cases hd

theorem rounds_of_replay {f : σ.Script}
    (hf : ∀ {h w e r w'}, f.serve h w e = some (r,w') → good e r) {n : ℕ}
    (hd : System.replay obliging (List.replicate n (.job f)) c = some d) : Rounds good n c d := by
  induction n generalizing c with
  | zero =>
    cases hd
    rfl
  | succ n ih =>
    obtain ⟨e,he,hd⟩ := Option.bind_eq_some_iff.mp hd
    exact ⟨e,unhindered_of_job hf he,ih hd⟩

/-- A run, and then that many jobs that nothing hinders. -/
theorem System.exists_rounds {w : σ.World} (hw : σ.start w) (as : List σ.Act) {f : σ.Script}
    (hf : ∀ {h w e r w'}, f.serve h w e = some (r,w') → good e r) (n : ℕ)
    (p : Config σ → Bool)
    (h : ((System.replay (fun _ _ => true) as ⟨⟨[],0⟩,w,[],none⟩).filter p).any (fun c =>
      (System.replay obliging (List.replicate n (.job f)) c).isSome) = true) :
    ∃ c d, σ.Reachable c ∧ p c = true ∧ Rounds good n c d := by
  obtain ⟨c,hc,h⟩ := (Option.any_eq_true _ _).mp h
  obtain ⟨hc,hp⟩ := Option.filter_eq_some_iff.mp hc
  obtain ⟨d,hd⟩ := Option.isSome_iff_exists.mp h
  exact ⟨c,d,(System.replay_reachable (.init hw) hc).reachable,hp,rounds_of_replay hf hd⟩

end Kube

import LosantDevice.Kube.Manager

/-!
# No change is lost

At rest the last job has read a state of the object that is the same as the latest one, as far as
the predicate tells them apart, and was done with it.
-/
namespace Kube
open Effect

variable {K : Kind} {X : Interface}

/-! ## What a job has changed -/

section changes
variable {α : Type} {σ : System K X α} {Φ : History (K.interface X) → (K.interface X).Call → Prop}
  {Ψ : History (K.interface X) → α → Prop}

/-- What holds of every call when it is answered, and is kept by what happens later. -/
theorem System.ReachableBy.eventsIn {P : Config σ → Config σ → Prop}
    {Q : Config σ → History (K.interface X) → Event (K.interface X) → Prop}
    (hnew : ∀ {c d h e next r}, σ.ReachableBy P c → σ.Step c d → P c d →
      c.job = some (h,.call e next) → d.job = some (⟨e,r⟩::h,next r) → Q d h ⟨e,r⟩)
    (hold : ∀ {c d l ev}, σ.ReachableBy P c → σ.Step c d → Q c l ev → Q d l ev)
    {c : Config σ} (h : σ.ReachableBy P c) {k l : History (K.interface X)}
    {ev : Event (K.interface X)} (hk : k ∈ c.histories) (hl : ev::l <:+ k) : Q c l ev := by
  induction h generalizing k ev l with
  | init hw => simp [Config.histories] at hk
  | @step c d hb hm hp ih =>
    have hm' := hm
    cases hm with
    | user | others | finish | crash => exact hold hb hm' (ih hk hl)
    | start =>
      rcases List.mem_cons.mp hk with rfl | hk
      · simp at hl
      · exact hold hb hm' (ih hk hl)
    | own | outside =>
      rcases List.mem_cons.mp hk with rfl | hk
      · rcases List.suffix_cons_iff.mp hl with he | hl
        · obtain ⟨rfl,rfl⟩ := List.cons.inj he
          exact hnew hb hm' hp rfl rfl
        · exact hold hb hm' (ih List.mem_cons_self hl)
      · exact hold hb hm' (ih (List.mem_cons_of_mem _ hk) hl)

/-- The state `b` is no longer the latest. -/
def Server.Past (s : Server K) (b : K.Object) : Prop := b.metadata.resourceVersion < s.log.length

/-- An accepted write after the calls `l` leaves `b` as it is, or has been the end of it. -/
def Server.Leaves (s : Server K) (b : K.Object) (l : History (K.interface X)) :
    Event (K.interface X) → Prop
  | ⟨.inl (.update o),r⟩ => ∀ v, (r : Except ApiError ℕ) = .ok v →
      lastCopy l = some b ∧ o.metadata.finalizers = b.metadata.finalizers ∨ s.Past b
  | ⟨.inl (.updateStatus o),r⟩ => ∀ v, (r : Except ApiError ℕ) = .ok v → o.stored v = b ∨ s.Past b
  | _ => True

theorem Server.Leaves.later {s s' : Server K} (hs : s.log <:+ s'.log) {b : K.Object}
    {l : History (K.interface X)} {ev : Event (K.interface X)} (h : s.Leaves b l ev) :
    s'.Leaves b l ev := by
  have hpast : s.Past b → s'.Past b := fun hp => lt_of_lt_of_le hp hs.length_le
  obtain ⟨e,r⟩ := ev
  match e with
  | .inl (.update o) => exact fun v hv => (h v hv).imp id hpast
  | .inl (.updateStatus o) => exact fun v hv => (h v hv).imp id hpast
  | .inl .get | .inr _ => trivial

/-- A state of the log is the latest one or past. -/
theorem Server.Sound.latest_or_past {s : Server K} (hs : s.Sound) {b cur : K.Object}
    {l m : List (Option K.Object)} (hcur : s.log = some cur::l) (hb : some b::m <:+ s.log) :
    b = cur ∨ s.Past b := by
  have hv := hs.version hb
  rcases hb.length_le.lt_or_eq with hlt | heq
  · exact .inr (by rw [Server.Past,hv]; simpa using hlt)
  · have he := (hb.eq_of_length heq).trans hcur
    exact .inl (Option.some.inj (List.cons.inj he).1)

/-- Every write that a job had accepted after it read `b` left it as it is, unless it is past. -/
theorem System.Reachable.leaves {c : Config σ} (hΦ : ∀ h e, Φ h e → Disciplined h e)
    (hmain : Program.Obeys Φ Ψ [] σ.main) (h : σ.Reachable c) {k l : History (K.interface X)}
    {ev : Event (K.interface X)} (hk : k ∈ c.histories) (hl : ev::l <:+ k) {b : K.Object}
    (hb : [⟨.inl .get,.ok b⟩] <:+ l) : c.server.Leaves b l ev := by
  refine System.ReachableBy.eventsIn (Q := fun c l ev => [⟨.inl .get,.ok b⟩] <:+ l →
    c.server.Leaves b l ev) ?_ ?_ h hk hl hb
  · intro c d h e next r hc hs _ hj hj' hb
    have hsound := System.Reachable.sound hΦ hmain hc
    obtain ⟨m,hm⟩ := System.Reachable.copies hΦ hmain hc (Config.mem_histories hj) hb rfl
    -- Accepted or not, the write goes to the latest state, which is `b` or comes after it.
    have hpast : ∀ x, d.server = c.server.push x → d.server.Past b := by
      intro x hx
      rw [Server.Past,hx,hsound.server.version hm]
      exact Nat.lt_succ_of_le hm.length_le
    match e with
    | .inl (.update o) =>
      rintro v rfl
      have ha : c.server.update o = some (d.server,v) := hs.replies hj hj'
      obtain ⟨copy,l,hcopy,hlog,-⟩ := hsound.update hΦ hj ha
      obtain ⟨cur,hcur,-,⟨hf,hsame,-⟩ | ⟨-,-,-,hx,-⟩ | ⟨-,-,hx,-⟩⟩ := Server.write_cases ha
      · obtain rfl := Option.some.inj ((Server.current_eq_some.mpr ⟨l,hlog⟩).symm.trans hcur)
        rw [hsame]
        refine (hsound.server.latest_or_past hlog hm).imp ?_ id
        rintro rfl
        exact ⟨hcopy,congrArg (fun o => o.metadata.finalizers) hf⟩
      · exact .inr (hpast _ hx)
      · exact .inr (hpast _ hx)
    | .inl (.updateStatus o) =>
      rintro v rfl
      have ha : c.server.updateStatus o = some (d.server,v) := hs.replies hj hj'
      obtain ⟨cur,l,-,hlog,-,-,⟨hsame,ho⟩ | ⟨hx,-⟩⟩ := hsound.updateStatus hΦ hj ha
      · rw [hsame]
        exact (hsound.server.latest_or_past hlog hm).imp (fun he => ho.trans he.symm) id
      · exact .inr (hpast _ hx)
    | .inl .get | .inr _ => trivial
  · intro c d l ev hc hs hq hb
    have hsound := System.Reachable.sound hΦ hmain hc
    exact (hq hb).later (hsound.written hΦ hs).suffix

/-- The latest state is not past. -/
theorem Server.Sound.not_past {s : Server K} (hs : s.Sound) {b : K.Object}
    (hb : s.current = some b) : ¬s.Past b := by
  obtain ⟨l,hl⟩ := Server.current_eq_some.mp hb
  have hv := hs.version (l := l) (o := b) (hl ▸ List.suffix_refl _)
  rw [Server.Past,hv,hl]
  exact lt_irrefl _

/-- What comes after the first call of a job comes after it alone. -/
theorem first_suffix {I : Interface} {k l : History I} {first ev : Event I} (hf : [first] <:+ k)
    (hl : ev::l <:+ k) (hne : ev ≠ first) : [first] <:+ l := by
  have hl' : l <:+ k := (List.suffix_cons ev l).trans hl
  cases l with
  | nil =>
    have he := List.suffix_of_suffix_length_le hl hf le_rfl
    exact absurd (List.cons.inj (he.eq_of_length rfl)).1 hne
  | cons x l => exact List.suffix_of_suffix_length_le hf hl' (by simp)

/-- The writes accepted of a job that has read what is still the latest state have left it as it
is. -/
theorem System.Reachable.leaves_current {c : Config σ} (hΦ : ∀ h e, Φ h e → Disciplined h e)
    (hmain : Program.Obeys Φ Ψ [] σ.main) (h : σ.Reachable c) {k : History (K.interface X)}
    (hk : k ∈ c.histories) {b : K.Object} (hb : [⟨.inl .get,.ok b⟩] <:+ k)
    (hcur : c.server.current = some b) :
    (∀ o v, (⟨.inl (.updateStatus o),.ok v⟩ : Event (K.interface X)) ∈ k → o.stored v = b) ∧
    ∀ o v, (⟨.inl (.update o),.ok v⟩ : Event (K.interface X)) ∈ k →
      ∃ l, Φ l (.inl (.update o)) ∧ lastCopy l = some b ∧
        o.metadata.finalizers = b.metadata.finalizers := by
  have hlatest := (System.Reachable.sound hΦ hmain h).server.not_past hcur
  have hleaves : ∀ {ev : Event (K.interface X)}, ev ∈ k → ev ≠ ⟨.inl .get,.ok b⟩ →
      ∃ l, Φ l ev.call ∧ c.server.Leaves b l ev := by
    intro ev hev hne
    obtain ⟨p,l,rfl⟩ := List.append_of_mem hev
    have hl : ev::l <:+ p ++ ev::l := List.suffix_append _ _
    exact ⟨l,System.Reachable.allowed hΦ hmain h hk hl,
      System.Reachable.leaves hΦ hmain h hk hl (first_suffix hb hl hne)⟩
  constructor
  · intro o v hev
    obtain ⟨l,-,hl⟩ := hleaves hev (fun he => nomatch congrArg Event.call he)
    exact (hl v rfl).resolve_right hlatest
  · intro o v hev
    obtain ⟨l,hp,hl⟩ := hleaves hev (fun he => nomatch congrArg Event.call he)
    exact ⟨l,hp,(hl v rfl).resolve_right hlatest⟩

end changes

namespace Manager
variable {σ : System K X (Except String Result)}
  {passes : Option K.Object → Option K.Object → Bool} {m m' : Manager σ}

/-! ## What a job has read -/

/-- What a read says about the object; a failed one says nothing. -/
def readEvent : Event (K.interface X) → Option (Option K.Object)
  | ⟨.inl .get,r⟩ =>
    match (r : Except ApiError K.Object) with
    | .ok o => some (some o)
    | .error e => if e.reason = .notFound then some none else none
  | _ => none

/-- What a job has read of its object with its first call. -/
def readOf : History (K.interface X) → Option (Option K.Object)
  | [] => none
  | [ev] => readEvent ev
  | _::ev::h => readOf (ev::h)

section readOf
variable {h : History (K.interface X)}

theorem readOf_cons (ev : Event (K.interface X)) (hh : h ≠ []) : readOf (ev::h) = readOf h := by
  cases h with
  | nil => exact absurd rfl hh
  | cons ev' h => rfl

theorem readOf_of_suffix {ev : Event (K.interface X)} (hs : [ev] <:+ h) :
    readOf h = readEvent ev := by
  obtain ⟨l,rfl⟩ := hs
  induction l with
  | nil => rfl
  | cons ev' l ih =>
    rw [List.cons_append,readOf_cons _ (by simp)]
    exact ih

/-- A call that is not a read says nothing about the object. -/
theorem readOf_other {e : (K.interface X).Call} {r : (K.interface X).Answer e}
    (he : e ≠ .inl .get) : readOf (⟨e,r⟩::h) = readOf h := by
  cases h with
  | nil =>
    match e with
    | .inl .get => exact absurd rfl he
    | .inl (.update _) | .inl (.updateStatus _) | .inr _ => rfl
  | cons ev' h => rfl

theorem readOf_served {cache : List (Option K.Object)} {s s' : Server K}
    {r : Except ApiError K.Object} (hs : Served cache s r s') {x : Option K.Object}
    (hx : readOf ([⟨.inl .get,r⟩] : History (K.interface X)) = some x) : x = cache.head?.join := by
  cases r with
  | ok o =>
    cases hx
    exact hs.1.symm
  | error e =>
    change (if e.reason = .notFound then some none else none) = some x at hx
    split at hx
    · rename_i he
      cases hx
      change if e.reason = .notFound then cache.head?.join = none ∧ _ else _ at hs
      rw [if_pos he] at hs
      exact hs.1.symm
    · cases hx

end readOf

/-! ## What the last job has read -/

/-- A change of the object that the predicate does not let through leaves it the same, in a sense
that the results of jobs depend on. The first state of an object always gets through. -/
structure Sifts (σ : System K X (Except String Result))
    (passes : Option K.Object → Option K.Object → Bool)
    (Same : Option K.Object → Option K.Object → Prop) : Prop where
  refl : ∀ x, Same x x
  trans : ∀ {x y z}, Same x y → Same y z → Same x z
  created : ∀ o, passes none (some o) = true
  dropped : ∀ {c : Config σ} {x l}, σ.Reachable c → x::l <:+ c.server.log →
    passes l.head?.join x = false → Same l.head?.join x

/-- A change is on its way that asks for a job, or a job is. -/
def Waits (passes : Option K.Object → Option K.Object → Bool) (m : Manager σ) : Prop :=
  (∃ n ∈ m.notices, passes n.1 n.2 = true) ∨ m.queue.Pending

/-- The last job was done with what it read, which is the same as what the cache holds. -/
def Settled (Same : Option K.Object → Option K.Object → Prop) (m : Manager σ) : Prop :=
  ∃ h res x, m.last = some (h,.ok res) ∧ ¬res.AsksAgain ∧ readOf h = some x ∧ Same x m.cached

structure Covered (passes : Option K.Object → Option K.Object → Bool)
    (Same : Option K.Object → Option K.Object → Prop)
    (Ψ : History (K.interface X) → Except String Result → Prop) (m : Manager σ) : Prop where
  last {h r} : m.last = some (h,r) → h ∈ m.config.past ∧ Ψ h r
  fresh : m.Waits passes ∨
    (∀ h p, m.config.job = some (h,p) → ∀ x, readOf h = some x → Same x m.cached) ∧
    (m.config.job = none → m.last = none ∧ m.cached = none ∨ m.Settled Same)

variable {Same : Option K.Object → Option K.Object → Prop}
  {Φ : History (K.interface X) → (K.interface X).Call → Prop}
  {Ψ : History (K.interface X) → Except String Result → Prop}

theorem Covered.step (hsifts : Sifts σ passes Same) (hread : ∀ h res, Ψ h (.ok res) →
    ∃ x, readOf h = some x) (hreach : σ.Reachable m.config)
    (hobeys : ∀ h p, m.config.job = some (h,p) → Program.Obeys Φ Ψ h p)
    (hc : m.Covered passes Same Ψ) (hs : Step passes m m') : m'.Covered passes Same Ψ := by
  cases hs with
  | user he => exact ⟨hc.last,hc.fresh⟩
  | others ha => exact ⟨hc.last,hc.fresh⟩
  | @deliver x hn =>
    refine ⟨hc.last,?_⟩
    cases hp : passes m.cached x with
    | true => exact .inl (.inl ⟨(m.cached,x),by simp,hp⟩)
    | false =>
      have hsame : Same m.cached x := hsifts.dropped hreach hn hp
      rcases hc.fresh with (⟨n,hn,hpn⟩ | hq) | ⟨hjob,hidle⟩
      · exact .inl (.inl ⟨n,List.mem_append_left _ hn,hpn⟩)
      · exact .inl (.inr hq)
      · refine .inr ⟨fun h p hj y hy => hsifts.trans (hjob h p hj y hy) hsame,fun hj => ?_⟩
        rcases hidle hj with ⟨hlast,hnone⟩ | ⟨h,res,y,hlast,hres,hy,hsy⟩
        · -- Without an object in the cache the next state, if there is one, gets through.
          rw [hnone] at hp
          cases x with
          | none => exact .inl ⟨hlast,rfl⟩
          | some o => exact absurd (hsifts.created o) (by simp [hp])
        · exact .inr ⟨h,res,y,hlast,hres,hy,hsifts.trans hsy hsame⟩
  | resync hheld =>
    refine ⟨hc.last,hc.fresh.imp (fun hw => ?_) id⟩
    rcases hw with ⟨n,hn,hpn⟩ | hq
    · exact .inl ⟨n,List.mem_append_left _ hn,hpn⟩
    · exact .inr hq
  | @handle old new rest ht =>
    refine ⟨hc.last,?_⟩
    cases hp : passes old new with
    | true => exact .inl (.inr Queue.pending_add)
    | false =>
      refine hc.fresh.imp (fun hw => ?_) id
      rcases hw with ⟨n,hn,hpn⟩ | hq
      · rw [ht] at hn
        rcases List.mem_cons.mp hn with rfl | hn
        · rw [hp] at hpn
          cases hpn
        · exact .inl ⟨n,hn,hpn⟩
      · exact .inr hq
  | take hidle hg =>
    refine ⟨hc.last,.inr ⟨?_,(fun hj => nomatch hj)⟩⟩
    rintro h p ⟨⟩ x hx
    cases hx
  | @read h next r s hj hserved =>
    refine ⟨hc.last,hc.fresh.imp id fun hf => ⟨?_,(fun hj => nomatch hj)⟩⟩
    rintro _ _ ⟨⟩ x hx
    by_cases hh : h = []
    · subst hh
      rw [readOf_served hserved hx]
      exact hsifts.refl _
    · rw [readOf_cons _ hh] at hx
      exact hf.1 h _ hj x hx
  | @write h e next r s hj he ha =>
    refine ⟨hc.last,hc.fresh.imp id fun hf => ⟨?_,(fun hj => nomatch hj)⟩⟩
    rintro _ _ ⟨⟩ x hx
    exact hf.1 h _ hj x ((readOf_other (fun h => he (Sum.inl.inj h))).symm.trans hx)
  | @outside h e next r w hj ha =>
    refine ⟨hc.last,hc.fresh.imp id fun hf => ⟨?_,(fun hj => nomatch hj)⟩⟩
    rintro _ _ ⟨⟩ x hx
    exact hf.1 h _ hj x ((readOf_other Sum.inr_ne_inl).symm.trans hx)
  | @finish h r hj =>
    have hend : Ψ h r := hobeys h _ hj
    refine ⟨?_,?_⟩
    · rintro _ _ ⟨⟩
      exact ⟨List.mem_cons_self,hend⟩
    · rcases hc.fresh with (hn | hq) | ⟨hjob,-⟩
      · exact .inl (.inl hn)
      · exact .inl (.inr (hq.finish () (asksAgain r)))
      · cases hagain : asksAgain r with
        | true => exact .inl (.inr Queue.pending_finish)
        | false =>
          refine .inr ⟨(fun _ _ hj => nomatch hj),fun _ => .inr ?_⟩
          cases r with
          | error err => cases hagain
          | ok res =>
            obtain ⟨x,hx⟩ := hread h res hend
            exact ⟨h,res,x,rfl,of_decide_eq_false hagain,hx,hjob h _ hj x hx⟩
  | fire hw => exact ⟨hc.last,.inl (.inr Queue.pending_fire)⟩
  | restart =>
    refine ⟨(fun hl => nomatch hl),?_⟩
    cases hcur : m.config.server.current with
    | none => exact .inr ⟨(fun _ _ hj => nomatch hj),fun _ => .inl ⟨rfl,hcur⟩⟩
    | some o =>
      refine .inl (.inl ⟨(none,some o),?_,hsifts.created o⟩)
      simp [relisted]

/-- At rest the object is not there, or the last job read a state of it that is the same as the
latest and asked for nothing more. -/
theorem Reachable.settled (hsifts : Sifts σ passes Same)
    (hΦ : ∀ h e, Φ h e → Disciplined h e) (hmain : Program.Obeys Φ Ψ [] σ.main)
    (hread : ∀ h res, Ψ h (.ok res) → ∃ x, readOf h = some x) (h : Reachable passes m)
    (hrests : m.Rests) : m.config.server.current = none ∨
      ∃ h res x, m.last = some (h,.ok res) ∧ h ∈ m.config.past ∧ Ψ h (.ok res) ∧
        ¬res.AsksAgain ∧ readOf h = some x ∧ Same x m.config.server.current := by
  have hcovered : m.Covered passes Same Ψ := by
    clear hrests
    induction h with
    | init =>
      exact ⟨(fun hl => nomatch hl),.inr ⟨(fun _ _ hj => nomatch hj),fun _ => .inl ⟨rfl,rfl⟩⟩⟩
    | step hb hs ih =>
      have hreach := hb.config
      exact ih.step hsifts hread hreach
        (fun _ _ hj => (System.Reachable.sound hΦ hmain hreach).obeys hj) hs
  have hcached : m.cached = m.config.server.current := by
    unfold cached Server.current
    rw [hrests.cache]
  rcases hcovered.fresh with (⟨n,hn,-⟩ | hq) | ⟨-,hidle⟩
  · rw [hrests.notices] at hn
    cases hn
  · exact absurd hq hrests.queue
  · rw [← hcached]
    rcases hidle hrests.job with ⟨-,hnone⟩ | ⟨h,res,x,hlast,hres,hx,hsame⟩
    · exact .inl hnone
    · obtain ⟨hmem,hend⟩ := hcovered.last hlast
      exact .inr ⟨h,res,x,hlast,hmem,hend,hres,hx,hsame⟩

/-- Without a predicate every change gets through. -/
theorem sifts_all : Sifts σ (fun _ _ => true) Eq where
  refl _ := rfl
  trans := Eq.trans
  created _ := rfl
  dropped _ _ hp := nomatch hp

/-! ## The generation of an object -/

/-- `GenerationChangedPredicate`: an update gets through if it is of the spec or marks the object
deleted. -/
def generationChanged : Option K.Object → Option K.Object → Bool
  | some old,some new => old.metadata.generation ≠ new.metadata.generation
  | _,_ => true

/-- Two states of one object with the same spec, or no object twice. -/
def SameSpec : Option K.Object → Option K.Object → Prop
  | none,none => True
  | some a,some b => a.metadata.uid = b.metadata.uid ∧ a.spec = b.spec ∧
      a.metadata.deletionTimestamp = b.metadata.deletionTimestamp
  | _,_ => False

/-- The next state of an object is of the same spec unless its generation is another. -/
theorem sameSpec_of_generation {c : Config σ} (hΦ : ∀ h e, Φ h e → Disciplined h e)
    (hmain : Program.Obeys Φ Ψ [] σ.main) (h : σ.Reachable c) {o b : K.Object}
    {l : List (Option K.Object)} (hl : some o::some b::l <:+ c.server.log)
    (hg : b.metadata.generation = o.metadata.generation) : SameSpec (some b) (some o) := by
  induction h with
  | init => simp at hl
  | @step c d hb hm _ ih =>
    have hnew : ∀ {x}, d.server.log = x::c.server.log →
        (∀ b' l', c.server.log = some b'::l' → x = some o →
          b'.metadata.generation = o.metadata.generation → SameSpec (some b') (some o)) →
        SameSpec (some b) (some o) := by
      intro x hlog hx
      rw [hlog] at hl
      rcases List.suffix_cons_iff.mp hl with he | hl
      · obtain ⟨ho,hprev⟩ := List.cons.inj he
        exact hx b l hprev.symm ho.symm hg
      · exact ih hl
    cases (System.Reachable.sound hΦ hmain hb).written hΦ hm with
    | kept hlog =>
      rw [hlog] at hl
      exact ih hl
    | user he =>
      have hcur : ∀ {cur : K.Object} {b' : K.Object} {l'}, c.server.current = some cur →
          c.server.log = some b'::l' → cur = b' := by
        intro cur b' l' hp hl'
        obtain ⟨l'',hl''⟩ := Server.current_eq_some.mp hp
        exact Option.some.inj (List.cons.inj (hl''.symm.trans hl')).1
      have hbump : ∀ {n : ℕ} {p : Prop}, n = n+1 → p := fun hn => absurd hn (Nat.ne_add_one _)
      generalize hs : d.server = s' at he
      cases he with
      | create o' ha =>
        refine hnew (congrArg Server.log hs) fun b' l' hl' _ _ => ?_
        rw [Server.current,hl'] at ha
        cases ha
      | edit spec hp =>
        refine hnew (congrArg Server.log hs) fun b' l' hl' ho hg => ?_
        obtain rfl := hcur hp hl'
        cases ho
        exact hbump hg
      | annotate hp =>
        refine hnew (congrArg Server.log hs) fun b' l' hl' ho _ => ?_
        obtain rfl := hcur hp hl'
        cases ho
        exact ⟨rfl,rfl,rfl⟩
      | remove hp => exact hnew (congrArg Server.log hs) fun b' l' _ ho _ => nomatch ho
      | markDeleted t hp =>
        refine hnew (congrArg Server.log hs) fun b' l' hl' ho hg => ?_
        obtain rfl := hcur hp hl'
        cases ho
        exact hbump hg
    | status _ _ hlat hmeta hspec _ hlog =>
      refine hnew hlog fun b' l' hl' ho _ => ?_
      obtain ⟨hb',-⟩ := List.cons.inj (hlat.symm.trans hl')
      obtain rfl := Option.some.inj hb'
      cases ho
      simp [SameSpec,Object.stored,hmeta,hspec]
    | object _ _ hlat hlog _ hkept =>
      refine hnew hlog fun b' l' hl' ho _ => ?_
      obtain ⟨hb',-⟩ := List.cons.inj (hlat.symm.trans hl')
      obtain rfl := Option.some.inj hb'
      rw [hkept o ho]
      exact ⟨rfl,rfl,rfl⟩

theorem sifts_generationChanged (hΦ : ∀ h e, Φ h e → Disciplined h e)
    (hmain : Program.Obeys Φ Ψ [] σ.main) : Sifts σ generationChanged SameSpec where
  refl x := by
    cases x with
    | none => trivial
    | some o => exact ⟨rfl,rfl,rfl⟩
  trans {x y z} hxy hyz := by
    match x,y,z with
    | none,none,none => trivial
    | some a,some b,some c =>
      exact ⟨hxy.1.trans hyz.1,hxy.2.1.trans hyz.2.1,hxy.2.2.trans hyz.2.2⟩
    | none,some _,_ | some _,none,_ => exact hxy.elim
    | none,none,some _ | some _,some _,none => exact hyz.elim
  created _ := rfl
  dropped {c x l} hc hl hp := by
    cases hold : l.head?.join with
    | none =>
      rw [hold] at hp
      cases hp
    | some b =>
      rw [hold] at hp
      cases x with
      | none => cases hp
      | some o =>
        obtain ⟨l',rfl⟩ : ∃ l', l = some b::l' := by
          cases l with
          | nil => cases hold
          | cons y l' => exact ⟨l',by rw [show y = some b from hold]⟩
        exact sameSpec_of_generation hΦ hmain hc hl (by simpa [generationChanged] using hp)

end Manager
end Kube

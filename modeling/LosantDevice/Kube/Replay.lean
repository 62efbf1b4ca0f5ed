import LosantDevice.Kube.Controller

/-!
# Evaluating jobs

A job alone with an up-to-date server, and whole runs built job by job: a script says how the
calls of a job are answered, the job is evaluated, and what comes out is a configuration the
system can reach.
-/
namespace Kube
open Effect

variable {K : Kind} {X : Interface} {α : Type}

/-- A read through a cache that is up to date. -/
def Server.read (s : Server K) : Except ApiError K.Object × Server K :=
  match s.current with
  | some o => (.ok o,{ s with seen := s.log.length })
  | none => (.error ⟨.notFound,"not found"⟩,{ s with seen := s.log.length })

/-- A read that fails. That the object is missing is said only when it is. -/
def Server.unread (s : Server K) (err : ApiError) : Except ApiError K.Object × Server K :=
  if err.reason = .notFound then s.read else (.error err,s)

/-- The answer to a write, given what the server makes of it. -/
def Server.wrote (s : Server K) : Option (Server K × ℕ) → Except ApiError ℕ × Server K
  | some (s',v) => (.ok v,s')
  | none => (.error ⟨.other,"refused"⟩,s)

/-- The answer of an up-to-date server, or the error the call is refused with. -/
def Server.reply (refuse : Option ApiError) (s : Server K) :
    (e : OwnCall K) → (K.interface X).Answer (.inl e) × Server K
  | .get =>
    match refuse with
    | some err => s.unread err
    | none => s.read
  | .update o =>
    match refuse with
    | some err => (.error err,s)
    | none => s.wrote (s.update o)
  | .updateStatus o =>
    match refuse with
    | some err => (.error err,s)
    | none => s.wrote (s.updateStatus o)

/-! ## One job alone -/

variable (K X) in
/-- What the outside does to a job: which calls on the object are refused, and how the other
calls are answered. -/
structure Env where
  refuse : History (K.interface X) → Option ApiError
  answer : History (K.interface X) → (e : X.Call) → X.Answer e

/-- The server after the calls of a job that nobody interferes with. -/
def Env.server (env : Env K X) (s : Server K) : History (K.interface X) → Server K
  | [] => s
  | ⟨.inl e,_⟩::h => ((env.server s h).reply (X := X) (env.refuse h) e).2
  | ⟨.inr _,_⟩::h => env.server s h

def Env.strategy (env : Env K X) (s : Server K) : Program.Strategy (K.interface X)
  | h,.inl e => ((env.server s h).reply (env.refuse h) e).1
  | h,.inr e => env.answer h e

/-- Only calls on the object touch the server. -/
theorem Env.server_append (env : Env K X) (s : Server K) {k h : History (K.interface X)}
    (hk : ∀ e ∈ k, e.call.isRight = true) : env.server s (k ++ h) = env.server s h := by
  induction k with
  | nil => rfl
  | cons ev k ih =>
    obtain ⟨e | e,r⟩ := ev
    · cases hk _ List.mem_cons_self
    · exact ih (fun e he => hk e (List.mem_cons_of_mem _ he))

/-- An object that is stored is read, unless the call fails. -/
theorem Env.strategy_get_ok (env : Env K X) {s : Server K} {b : K.Object} (hb : s.current = some b)
    (hread : ∀ err, env.refuse [] = some err → err.reason = .notFound) :
    env.strategy s [] (.inl .get) = .ok b := by
  have hok : s.read.1 = .ok b := by rw [Server.read,hb]
  change (s.reply (X := X) (env.refuse []) .get).1 = _
  cases href : env.refuse [] with
  | none => exact hok
  | some err =>
    change (s.unread err).1 = _
    rw [Server.unread,if_pos (hread err href)]
    exact hok

theorem Env.strategy_get_error (env : Env K X) {s : Server K} {err : ApiError}
    (href : env.refuse [] = some err) (hne : err.reason ≠ .notFound) :
    env.strategy s [] (.inl .get) = .error err := by
  change (s.reply (X := X) (env.refuse []) .get).1 = _
  rw [href]
  change (s.unread err).1 = _
  rw [Server.unread,if_neg hne]

theorem Env.strategy_get (env : Env K X) {s : Server K} {b : K.Object} (hb : s.current = some b) :
    env.strategy s [] (.inl .get) = .ok b ∨
      ∃ err : ApiError, err.reason ≠ .notFound ∧ env.strategy s [] (.inl .get) = .error err := by
  by_cases hread : ∀ err, env.refuse [] = some err → err.reason = .notFound
  · exact .inl (env.strategy_get_ok hb hread)
  · simp only [not_forall] at hread
    obtain ⟨err,href,hne⟩ := hread
    exact .inr ⟨err,hne,env.strategy_get_error href hne⟩

theorem Server.current_wrote {s : Server K} {version : ℕ} {f : K.Object → K.Object} {o : K.Object}
    (h : (s.wrote (s.write version f)).2.current = some o) :
    s.current = some o ∨ ∃ cur, s.current = some cur ∧ o.status = (f cur).status := by
  cases hw : s.write version f with
  | none =>
    rw [hw] at h
    exact .inl h
  | some x =>
    rw [hw] at h
    obtain ⟨cur,hcur,-,⟨-,rfl,-⟩ | ⟨-,-,-,hs,-⟩ | ⟨-,-,hs,-⟩⟩ := Server.write_cases hw
    · exact .inl h
    · change x.1.current = some o at h
      rw [hs] at h
      cases h
    · change x.1.current = some o at h
      rw [hs] at h
      cases h
      exact .inr ⟨cur,hcur,rfl⟩

theorem Server.current_read (s : Server K) : s.read.2.current = s.current := by
  unfold Server.read
  split <;> rfl

/-- One call leaves the status alone or writes it. -/
theorem Server.reply_status {s : Server K} {refuse : Option ApiError} {e : OwnCall K}
    {o : K.Object} (h : (s.reply (X := X) refuse e).2.current = some o) :
    (∃ o₀, s.current = some o₀ ∧ o.status = o₀.status) ∨
      ∃ a, e = .updateStatus a ∧ o.status = K.encode a.status := by
  cases e with
  | get =>
    have hcur : (s.reply (X := X) refuse .get).2.current = s.current := by
      cases refuse with
      | none => exact s.current_read
      | some err =>
        change (s.unread err).2.current = _
        unfold Server.unread
        split
        · exact s.current_read
        · rfl
    exact .inl ⟨o,hcur ▸ h,rfl⟩
  | update a =>
    cases refuse with
    | none =>
      rcases Server.current_wrote h with h | ⟨cur,hcur,hst⟩
      · exact .inl ⟨o,h,rfl⟩
      · exact .inl ⟨cur,hcur,hst⟩
    | some err => exact .inl ⟨o,h,rfl⟩
  | updateStatus a =>
    cases refuse with
    | none =>
      change (s.wrote (if _ then _ else none)).2.current = some o at h
      split at h
      · rcases Server.current_wrote h with h | ⟨cur,hcur,hst⟩
        · exact .inl ⟨o,h,rfl⟩
        · exact .inr ⟨a,rfl,hst⟩
      · exact .inl ⟨o,h,rfl⟩
    | some err => exact .inl ⟨o,h,rfl⟩

/-- After a job the stored status is the one from before or one that the job wrote. -/
theorem Env.status_written (env : Env K X) (s : Server K) {h : History (K.interface X)}
    {o : K.Object} (ho : (env.server s h).current = some o) :
    (∃ o₀, s.current = some o₀ ∧ o.status = o₀.status) ∨
      ∃ a, (∃ r, (⟨.inl (.updateStatus a),r⟩ : Event (K.interface X)) ∈ h) ∧
        o.status = K.encode a.status := by
  induction h generalizing o with
  | nil => exact .inl ⟨o,ho,rfl⟩
  | cons ev h ih =>
    have hcons : ∀ {o' : K.Object}, (env.server s h).current = some o' → o.status = o'.status →
        (∃ o₀, s.current = some o₀ ∧ o.status = o₀.status) ∨
          ∃ a, (∃ r, (⟨.inl (.updateStatus a),r⟩ : Event (K.interface X)) ∈ ev::h) ∧
            o.status = K.encode a.status := by
      intro o' ho' hst
      rw [hst]
      exact (ih ho').imp id (fun ⟨a,⟨r,hm⟩,ha⟩ => ⟨a,⟨r,List.mem_cons_of_mem _ hm⟩,ha⟩)
    obtain ⟨e,r⟩ := ev
    rcases e with e | e
    · rcases Server.reply_status ho with ⟨o₀,ho₀,hst⟩ | ⟨a,rfl,ha⟩
      · exact hcons ho₀ hst
      · exact .inr ⟨a,⟨r,List.mem_cons_self⟩,ha⟩
    · exact hcons ho rfl

theorem Server.write_suffix {s s' : Server K} {version v : ℕ} {f : K.Object → K.Object}
    (h : s.write version f = some (s',v)) : s.log <:+ s'.log := by
  obtain ⟨cur,-,-,⟨-,rfl,-⟩ | ⟨-,-,-,rfl,-⟩ | ⟨-,-,rfl,-⟩⟩ := Server.write_cases h
  · exact List.suffix_refl _
  · exact List.suffix_cons _ _
  · exact List.suffix_cons _ _

theorem Server.wrote_suffix {s : Server K} {x : Option (Server K × ℕ)}
    (h : ∀ y, x = some y → s.log <:+ y.1.log) : s.log <:+ (s.wrote x).2.log := by
  cases x with
  | none => exact List.suffix_refl _
  | some y => exact h y rfl

theorem Server.log_read (s : Server K) : s.read.2.log = s.log := by
  unfold Server.read
  split <;> rfl

theorem Server.log_reply_get {s : Server K} {refuse : Option ApiError} :
    (s.reply (X := X) refuse .get).2.log = s.log := by
  cases refuse with
  | none => exact s.log_read
  | some err =>
    change (s.unread err).2.log = _
    unfold Server.unread
    split
    · exact s.log_read
    · rfl

/-- A read leaves the log alone. -/
theorem Env.log_get (env : Env K X) (s : Server K) (r : Except ApiError K.Object) :
    (env.server s [⟨.inl .get,r⟩]).log = s.log := Server.log_reply_get

/-- A call only adds to the log. -/
theorem Server.reply_suffix {s : Server K} {refuse : Option ApiError} {e : OwnCall K} :
    s.log <:+ (s.reply (X := X) refuse e).2.log := by
  cases e with
  | get => rw [Server.log_reply_get]
  | update o =>
    cases refuse with
    | none => exact Server.wrote_suffix fun y hy => Server.write_suffix hy
    | some err => exact List.suffix_refl _
  | updateStatus o =>
    cases refuse with
    | none =>
      refine Server.wrote_suffix fun y hy => ?_
      exact Server.write_suffix (Server.updateStatus_eq_some.mp hy).2
    | some err => exact List.suffix_refl _

theorem Env.log_suffix (env : Env K X) (s : Server K) {h k : History (K.interface X)}
    (hk : h <:+ k) : (env.server s h).log <:+ (env.server s k).log := by
  obtain ⟨l,rfl⟩ := hk
  induction l with
  | nil => exact List.suffix_refl _
  | cons ev l ih =>
    obtain ⟨e | e,r⟩ := ev
    · exact ih.trans Server.reply_suffix
    · exact ih

/-- What becomes of a status write from the latest copy: it is refused, it changes nothing, or
the log grows. -/
theorem Server.reply_updateStatus {s : Server K} {o b : K.Object} (hb : s.current = some b)
    (hv : o.metadata.resourceVersion = b.metadata.resourceVersion) (refuse : Option ApiError) :
    (∃ err, s.reply (X := X) refuse (.updateStatus o) = (.error err,s)) ∨
    (refuse = none ∧ K.admits o.status ∧ K.encode o.status = b.status ∧
      s.reply (X := X) refuse (.updateStatus o) = (.ok b.metadata.resourceVersion,s)) ∨
    ∃ v s', s.reply (X := X) refuse (.updateStatus o) = (.ok v,s') ∧
      s.log.length < s'.log.length := by
  cases refuse with
  | some err => exact .inl ⟨err,rfl⟩
  | none =>
    cases hx : s.updateStatus o with
    | none => exact .inl ⟨_,by simp only [Server.reply,hx]; rfl⟩
    | some x =>
      obtain ⟨s',v⟩ := x
      have hreply : s.reply (X := X) none (.updateStatus o) = (.ok v,s') := by
        simp only [Server.reply,hx]
        rfl
      obtain ⟨had,hw⟩ := Server.updateStatus_eq_some.mp hx
      obtain ⟨cur,hcur,-,⟨hf,hs,hv'⟩ | ⟨-,-,-,hs,-⟩ | ⟨-,-,hs,-⟩⟩ := Server.write_cases hw
      · obtain rfl := Option.some.inj (hb.symm.trans hcur)
        subst hs
        refine .inr (.inl ⟨rfl,had,congrArg Object.status hf,?_⟩)
        rw [hreply,hv',hv]
      · exact .inr (.inr ⟨v,s',hreply,by rw [hs]; exact Nat.lt_succ_self _⟩)
      · exact .inr (.inr ⟨v,s',hreply,by rw [hs]; exact Nat.lt_succ_self _⟩)

/-- An accepted write that changes the finalizers makes the log grow. -/
theorem Server.length_lt_of_update {s : Server K} {o b : K.Object}
    {refuse : Option ApiError} {v : ℕ}
    (hb : s.current = some b) (hr : (s.reply (X := X) refuse (.update o)).1 = .ok v)
    (hne : o.metadata.finalizers ≠ b.metadata.finalizers) :
    s.log.length < (s.reply (X := X) refuse (.update o)).2.log.length := by
  cases refuse with
  | some err => cases hr
  | none =>
    cases hx : s.update o with
    | none =>
      simp only [Server.reply,hx] at hr
      cases hr
    | some x =>
      have hreply : (s.reply (X := X) none (.update o)).2 = x.1 := by
        simp only [Server.reply,hx]
        rfl
      rw [hreply]
      obtain ⟨cur,hcur,-,⟨hf,-,-⟩ | ⟨-,-,-,hs,-⟩ | ⟨-,-,hs,-⟩⟩ := Server.write_cases hx
      · obtain rfl := Option.some.inj (hb.symm.trans hcur)
        exact absurd (congrArg (fun o => o.metadata.finalizers) hf) hne
      · rw [hs]
        exact Nat.lt_succ_self _
      · rw [hs]
        exact Nat.lt_succ_self _

/-- A status write that changes nothing is accepted. -/
theorem Server.reply_unchanged {s : Server K} {o b : K.Object} (hb : s.current = some b)
    (hv : o.metadata.resourceVersion = b.metadata.resourceVersion) (had : K.admits o.status)
    (henc : K.encode o.status = b.status) :
    s.reply (X := X) none (.updateStatus o) = (.ok b.metadata.resourceVersion,s) := by
  have hw : s.updateStatus o = some (s,b.metadata.resourceVersion) := by
    refine Server.updateStatus_eq_some.mpr ⟨had,?_⟩
    simp [Server.write,hb,hv,henc]
  simp only [Server.reply,hw]
  rfl

/-! ## Runs -/

theorem Server.read_answers {s : Server K} (hs : s.seen ≤ s.log.length) :
    s.Answers (X := X) .get s.read.1 s.read.2 := by
  unfold Server.read
  split
  · rename_i o ho
    obtain ⟨l,hl⟩ := Server.current_eq_some.mp ho
    refine ⟨l,⟨hl ▸ List.suffix_refl _,by simpa [hl] using hs⟩,?_⟩
    simp [hl]
  · rename_i ho
    exact ⟨s.log,⟨List.suffix_refl _,hs⟩,ho,rfl⟩

theorem Server.unread_answers {s : Server K} (hs : s.seen ≤ s.log.length) (err : ApiError) :
    s.Answers (X := X) .get (s.unread err).1 (s.unread err).2 := by
  unfold Server.unread
  split
  · exact Server.read_answers hs
  · rename_i herr
    change if err.reason = .notFound then _ else _
    rw [if_neg herr]

theorem Server.reply_answers {refuse : Option ApiError} {s : Server K}
    (hs : s.seen ≤ s.log.length) (e : OwnCall K) :
    s.Answers e (s.reply (X := X) refuse e).1 (s.reply (X := X) refuse e).2 := by
  cases refuse with
  | none =>
    cases e with
    | get => exact Server.read_answers hs
    | update o =>
      cases hx : s.update o <;> simp only [Server.reply,hx,Server.wrote]
      · rfl
      · exact hx
    | updateStatus o =>
      cases hx : s.updateStatus o <;> simp only [Server.reply,hx,Server.wrote]
      · rfl
      · exact hx
  | some err =>
    cases e with
    | get => exact Server.unread_answers hs err
    | update o => rfl
    | updateStatus o => rfl

variable (σ : System K X α)

/-- How the calls of a job are answered, given those before. -/
structure System.Script where
  refuse : History (K.interface X) → Option ApiError
  serve : History (K.interface X) → σ.World → (e : X.Call) → Option (X.Answer e × σ.World)
  sound : ∀ {h w e r w'}, serve h w e = some (r,w') → σ.answers w e r w'

variable {σ}

/-- Evaluate a job to its end, as long as its steps pass the test. -/
def System.Script.play (f : σ.Script) (test : Config σ → Config σ → Bool)
    (past : List (History (K.interface X))) : Server K → σ.World → History (K.interface X) →
    Program (K.interface X) α → Option (Config σ)
  | s,w,h,.done a =>
    if test ⟨s,w,past,some (h,.done a)⟩ ⟨s,w,h::past,none⟩ then some ⟨s,w,h::past,none⟩ else none
  | s,w,h,.call (.inl e) next =>
    let (r,s') := s.reply (X := X) (f.refuse h) e
    if s.seen ≤ s.log.length ∧ test ⟨s,w,past,some (h,.call (.inl e) next)⟩
        ⟨s',w,past,some (⟨.inl e,r⟩::h,next r)⟩ then f.play test past s' w (⟨.inl e,r⟩::h) (next r)
    else none
  | s,w,h,.call (.inr e) next =>
    match f.serve h w e with
    | some (r,w') =>
      if test ⟨s,w,past,some (h,.call (.inr e) next)⟩ ⟨s,w',past,some (⟨.inr e,r⟩::h,next r)⟩ then
        f.play test past s w' (⟨.inr e,r⟩::h) (next r)
      else none
    | none => none

/-- Reachable by steps that pass the test. -/
abbrev System.Tested (σ : System K X α) (test : Config σ → Config σ → Bool) : Config σ → Prop :=
  σ.ReachableBy (fun c d => test c d = true)

theorem System.Script.play_reachable (f : σ.Script) {test : Config σ → Config σ → Bool}
    {p : Program (K.interface X) α} {s w h past d} (hr : σ.Tested test ⟨s,w,past,some (h,p)⟩)
    (hp : f.play test past s w h p = some d) : σ.Tested test d := by
  induction p generalizing s w h with
  | done a =>
    unfold System.Script.play at hp
    split at hp
    · rename_i htest
      cases hp
      exact .step hr .finish htest
    · cases hp
  | call e next ih =>
    cases e with
    | inl e =>
      unfold System.Script.play at hp
      dsimp only at hp
      split at hp
      · rename_i hs
        exact ih _ (.step hr (.own (Server.reply_answers hs.1 e)) hs.2) hp
      · cases hp
    | inr e =>
      unfold System.Script.play at hp
      split at hp
      · rename_i r w₁ hs
        split at hp
        · rename_i htest
          exact ih r (.step hr (.outside (f.sound hs)) htest) hp
        · cases hp
      · cases hp

/-- A part of a run that can be evaluated. -/
structure System.Act (σ : System K X α) where
  act : (Config σ → Config σ → Bool) → Config σ → Option (Config σ)
  sound : ∀ {test c d}, σ.Tested test c → act test c = some d → σ.Tested test d

/-- One step, if it passes the test. -/
def System.Act.single (next : Config σ → Option (Config σ))
    (hstep : ∀ {c d}, next c = some d → σ.Step c d) : σ.Act where
  act test c := (next c).filter (test c)
  sound {test c d} hr hd := by
    obtain ⟨hn,htest⟩ := Option.filter_eq_some_iff.mp hd
    exact .step hr (hstep hn) htest

/-- One job, from its start to its end. -/
def System.Act.job (f : σ.Script) : σ.Act where
  act test
    | ⟨s,w,past,none⟩ =>
      if test ⟨s,w,past,none⟩ ⟨s,w,past,some ([],σ.main)⟩ then f.play test past s w [] σ.main
      else none
    | ⟨_,_,_,some _⟩ => none
  sound {test c d} hr hd := by
    obtain ⟨s,w,past,_ | _⟩ := c
    · change (if _ then _ else none) = some d at hd
      split at hd
      · rename_i htest
        exact f.play_reachable (.step hr .start htest) hd
      · cases hd
    · cases hd

/-- The next step of a job: its start, one call, or its end. -/
def System.Script.tick (f : σ.Script) : Config σ → Option (Config σ)
  | ⟨s,w,past,none⟩ => some ⟨s,w,past,some ([],σ.main)⟩
  | ⟨s,w,past,some (h,.done _)⟩ => some ⟨s,w,h::past,none⟩
  | ⟨s,w,past,some (h,.call (.inl e) next)⟩ =>
    let (r,s') := s.reply (X := X) (f.refuse h) e
    if s.seen ≤ s.log.length then some ⟨s',w,past,some (⟨.inl e,r⟩::h,next r)⟩ else none
  | ⟨s,w,past,some (h,.call (.inr e) next)⟩ =>
    match f.serve h w e with
    | some (r,w') => some ⟨s,w',past,some (⟨.inr e,r⟩::h,next r)⟩
    | none => none

theorem System.Script.tick_step (f : σ.Script) {c d : Config σ} (h : f.tick c = some d) :
    σ.Step c d := by
  obtain ⟨s,w,past,_ | ⟨hist,a | ⟨e | e,next⟩⟩⟩ := c
  · cases h
    exact .start
  · cases h
    exact .finish
  · unfold System.Script.tick at h
    dsimp only at h
    split at h
    · rename_i hs
      cases h
      exact .own (Server.reply_answers hs e)
    · cases h
  · unfold System.Script.tick at h
    dsimp only at h
    split at h
    · rename_i r w' hs
      cases h
      exact .outside (f.sound hs)
    · cases h

def System.Act.tick (f : σ.Script) : σ.Act := .single f.tick f.tick_step

/-- A user creates the object. -/
def System.Act.create (o : K.Object) : σ.Act := .single
  (fun c =>
    if c.server.current = none ∧ (∀ x ∈ c.server.log, ∀ o' ∈ x, o'.metadata.uid ≠ o.metadata.uid) ∧
        o.metadata.finalizers = [] ∧ o.metadata.deletionTimestamp = none ∧ o.status = K.initial then
      some { c with server := c.server.store o }
    else none)
  (by
    intro c d hd
    split at hd
    · rename_i hc
      cases hd
      exact .user (.create o hc.1 (fun o' hm => hc.2.1 _ hm _ rfl) hc.2.2)
    · cases hd)

/-- A user edits the spec. -/
def System.Act.edit (f : K.Spec → K.Spec) : σ.Act := .single
  (fun c => c.server.current.map fun cur => { c with server := c.server.store { cur with
    metadata := { cur.metadata with generation := cur.metadata.generation+1 }
    spec := f cur.spec } })
  (by
    intro c d hd
    obtain ⟨cur,hcur,rfl⟩ := Option.map_eq_some_iff.mp hd
    exact .user (.edit (f cur.spec) hcur))

/-- A user deletes an object that is held. -/
def System.Act.markDeleted (t : Time) : σ.Act := .single
  (fun c =>
    match c.server.current with
    | none => none
    | some cur =>
      if cur.metadata.finalizers ≠ [] ∧ cur.metadata.deletionTimestamp = none then
        some { c with server := c.server.store { cur with
          metadata := { cur.metadata with
            deletionTimestamp := some t
            generation := cur.metadata.generation+1 } } }
      else none)
  (by
    intro c d hd
    split at hd
    · cases hd
    · rename_i cur hcur
      split at hd
      · rename_i hc
        cases hd
        exact .user (.markDeleted t hcur hc.1 hc.2)
      · cases hd)

/-- Others change the world. -/
def System.Act.others (f : σ.World → Option σ.World)
    (hf : ∀ {w w'}, f w = some w' → σ.others w w') :
    σ.Act := .single (fun c => (f c.world).map fun w => { c with world := w })
  (by
    intro c d hd
    obtain ⟨w,hw,rfl⟩ := Option.map_eq_some_iff.mp hd
    exact .others (hf hw))

/-- Evaluate a run. -/
def System.replay (test : Config σ → Config σ → Bool) : List σ.Act → Config σ → Option (Config σ)
  | [],c => some c
  | a::as,c => (a.act test c).bind (System.replay test as)

theorem System.replay_reachable {test : Config σ → Config σ → Bool} {as : List σ.Act}
    {c d : Config σ} (hc : σ.Tested test c) (hd : System.replay test as c = some d) :
    σ.Tested test d := by
  induction as generalizing c with
  | nil =>
    cases hd
    exact hc
  | cons a as ih =>
    obtain ⟨e,he,hd⟩ := Option.bind_eq_some_iff.mp hd
    exact ih (a.sound hc he) hd

/-- A run whose steps pass a test and that ends in a configuration that passes another. -/
theorem System.exists_tested (test : Config σ → Config σ → Bool) {w : σ.World} (hw : σ.start w)
    (as : List σ.Act) (p : Config σ → Bool)
    (h : (System.replay test as ⟨⟨[],0⟩,w,[],none⟩).map p = some true) :
    ∃ c, σ.Tested test c ∧ p c = true := by
  obtain ⟨c,hc,hp⟩ := Option.map_eq_some_iff.mp h
  exact ⟨c,System.replay_reachable (.init hw) hc,hp⟩

/-- A run that ends in a configuration that passes a test. -/
theorem System.exists_config {w : σ.World} (hw : σ.start w) (as : List σ.Act)
    (p : Config σ → Bool)
    (h : (System.replay (fun _ _ => true) as ⟨⟨[],0⟩,w,[],none⟩).map p = some true) :
    ∃ c, σ.Reachable c ∧ p c = true := by
  obtain ⟨c,hc,hp⟩ := System.exists_tested _ hw as p h
  exact ⟨c,hc.reachable,hp⟩

/-- A run that ends with an object that passes a test. -/
theorem System.exists_reachable {w : σ.World} (hw : σ.start w) (as : List σ.Act)
    (p : Config σ → K.Object → Bool)
    (h : (System.replay (fun _ _ => true) as ⟨⟨[],0⟩,w,[],none⟩).map
      (fun c => c.server.current.any (p c)) = some true) :
    ∃ c o, σ.Reachable c ∧ c.server.current = some o ∧ p c o = true := by
  obtain ⟨c,hc,hp⟩ := System.exists_config hw as _ h
  obtain ⟨o,ho,hp⟩ := (Option.any_eq_true _ _).mp hp
  exact ⟨c,o,hc,ho,hp⟩

/-- A run whose steps pass a test, and one more step of a job that passes another. -/
theorem System.exists_tick (test : Config σ → Config σ → Bool) {w : σ.World} (hw : σ.start w)
    (as : List σ.Act) (f : σ.Script) (p : Config σ → Config σ → Bool)
    (h : (System.replay test as ⟨⟨[],0⟩,w,[],none⟩).bind (fun c => (f.tick c).map (p c)) =
      some true) :
    ∃ c d, σ.Tested test c ∧ σ.Step c d ∧ p c d = true := by
  obtain ⟨c,hc,h⟩ := Option.bind_eq_some_iff.mp h
  obtain ⟨d,hd,hp⟩ := Option.map_eq_some_iff.mp h
  exact ⟨c,d,System.replay_reachable (.init hw) hc,f.tick_step hd,hp⟩

/-- The latest accepted status write of a job, with the calls before it. -/
def accepted : History (K.interface X) → Option (K.Object × ℕ × History (K.interface X))
  | [] => none
  | ⟨.inl (.updateStatus o),r⟩::k =>
    match (r : Except ApiError ℕ) with
    | .ok v => some (o,v,k)
    | .error _ => accepted k
  | _::k => accepted k

theorem suffix_of_accepted {h k : History (K.interface X)} {o : K.Object} {v : ℕ}
    (ha : accepted h = some (o,v,k)) : ⟨.inl (.updateStatus o),.ok v⟩::k <:+ h := by
  induction h with
  | nil => cases ha
  | cons ev h ih =>
    obtain ⟨e,r⟩ := ev
    match e with
    | .inl (.updateStatus o') =>
      cases r with
      | ok v' =>
        cases ha
        exact List.suffix_refl _
      | error err => exact (ih ha).trans (List.suffix_cons _ _)
    | .inl .get | .inl (.update _) | .inr _ => exact (ih ha).trans (List.suffix_cons _ _)

/-- The latest state of the object and the one before it. -/
def Server.lastTwo (s : Server K) : Option (K.Object × K.Object) :=
  match s.log with
  | some o::some b::_ => some (o,b)
  | _ => none

theorem Server.lastTwo_eq_some {s : Server K} {o b : K.Object} (h : s.lastTwo = some (o,b)) :
    ∃ l, s.log = some o::some b::l := by
  unfold Server.lastTwo at h
  split at h
  · rename_i o' b' l hl
    cases h
    exact ⟨l,hl⟩
  · cases h

/-- A run whose last two states of the object pass a test. -/
theorem System.exists_lastTwo {w : σ.World} (hw : σ.start w) (as : List σ.Act)
    (p : K.Object → K.Object → Bool)
    (h : (System.replay (fun _ _ => true) as ⟨⟨[],0⟩,w,[],none⟩).map
      (fun c => c.server.lastTwo.any (fun x => p x.1 x.2)) = some true) :
    ∃ c o b l, σ.Reachable c ∧ c.server.log = some o::some b::l ∧ p o b = true := by
  obtain ⟨c,hc,hp⟩ := System.exists_config hw as _ h
  obtain ⟨⟨o,b⟩,ho,hp⟩ := (Option.any_eq_true _ _).mp hp
  obtain ⟨l,hl⟩ := Server.lastTwo_eq_some ho
  exact ⟨c,o,b,l,hc,hl,hp⟩

end Kube

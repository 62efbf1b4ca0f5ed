import LosantDevice.Kube.Provenance

/-!
# What becomes of the stored object

The ways in which the latest state changes, by a user and by a call of the job. Only the
controller writes the status, and an object held by a finalizer does not go away under it. A job
whose status write was accepted therefore knows the stored status: it is the one of its copy until
it writes again. An object is retired once a job has read that it is being deleted; no later job
works on it as on a live one.
-/
namespace Kube
open Effect

variable {K : Kind} {X : Interface} {α : Type}

/-- The state `o` is one of the same object as `b`, with the same status and finalizers. -/
structure Object.Alike (o b : K.Object) : Prop where
  uid : o.metadata.uid = b.metadata.uid
  name : o.metadata.name = b.metadata.name
  status : o.status = b.status
  finalizers : o.metadata.finalizers = b.metadata.finalizers
  deleting : b.metadata.deletionTimestamp.isSome → o.metadata.deletionTimestamp.isSome

/-- What a user does to the latest state. -/
inductive Server.EditedCurrent (s s' : Server K) : Prop
  | created {o} (absent : s.current = none) (current : s'.current = some o)
      (initial : o.status = K.initial) (free : o.metadata.finalizers = [])
      (fresh : ∀ o', some o' ∈ s.log → o'.metadata.uid ≠ o.metadata.uid)
  | changed {b o} (latest : s.current = some b) (current : s'.current = some o) (alike : o.Alike b)
  | removed {b} (latest : s.current = some b) (free : b.metadata.finalizers = [])
      (gone : s'.current = none)

theorem Server.Edited.current_cases {s s' : Server K} (h : Server.Edited s s') :
    s.EditedCurrent s' := by
  cases h with
  | create o ha hf hb => exact .created ha rfl hb.2.2 hb.1 hf
  | edit spec hp => exact .changed hp rfl ⟨rfl,rfl,rfl,rfl,fun h => h⟩
  | annotate hp => exact .changed hp rfl ⟨rfl,rfl,rfl,rfl,fun h => h⟩
  | remove hp hf => exact .removed hp hf rfl
  | markDeleted t hp hf hl => exact .changed hp rfl ⟨rfl,rfl,rfl,rfl,fun _ => rfl⟩

/-- The job has had a status write accepted and has not read or written the object since. -/
def owned : History (K.interface X) → Bool
  | [] => false
  | ⟨.inl .get,_⟩::_ => false
  | ⟨.inl (.update _),r⟩::h =>
    match (r : Except ApiError ℕ) with
    | .ok _ => false
    | .error _ => owned h
  | ⟨.inl (.updateStatus _),r⟩::h =>
    match (r : Except ApiError ℕ) with
    | .ok _ => true
    | .error _ => owned h
  | ⟨.inr _,_⟩::h => owned h

section owned
variable {h : History (K.interface X)}

/-- A copy that is not owned was read. -/
theorem read_of_lastCopy {b : K.Object} (hb : lastCopy h = some b) (ho : owned h = false) :
    (⟨.inl .get,.ok b⟩ : Event (K.interface X)) ∈ h := by
  induction h with
  | nil => cases hb
  | cons ev h ih =>
    obtain ⟨e,r⟩ := ev
    match e with
    | .inl .get =>
      cases r with
      | ok o =>
        cases hb
        exact List.mem_cons_self
      | error err => cases hb
    | .inl (.update o) =>
      cases r with
      | ok v => cases hb
      | error err => exact List.mem_cons_of_mem _ (ih hb ho)
    | .inl (.updateStatus o) =>
      cases r with
      | ok v => cases ho
      | error err => exact List.mem_cons_of_mem _ (ih hb ho)
    | .inr e => exact List.mem_cons_of_mem _ (ih hb ho)

/-- Before each call to the outside a job that has written nothing had the copy it has now. -/
theorem lastCopy_before {b : K.Object} {k : History (K.interface X)} {e : X.Call} {r : X.Answer e}
    (hget : ∀ x l, (⟨.inl .get,x⟩::l : History (K.interface X)) <:+ h → l = [])
    (hb : lastCopy h = some b) (ho : owned h = false) (hk : ⟨.inr e,r⟩::k <:+ h) :
    lastCopy k = some b ∧ owned k = false := by
  induction h with
  | nil => cases hb
  | cons ev h ih =>
    have ih := ih fun x l hl => hget x l (hl.trans (List.suffix_cons _ _))
    rcases List.suffix_cons_iff.mp hk with he | hrest
    · cases he
      exact ⟨hb,ho⟩
    · obtain ⟨e',r'⟩ := ev
      match e' with
      | .inl .get =>
        rw [hget r' h (List.suffix_refl _)] at hrest
        simp at hrest
      | .inl (.update o) =>
        cases r' with
        | ok v => cases hb
        | error err => exact ih hb ho hrest
      | .inl (.updateStatus o) =>
        cases r' with
        | ok v => cases ho
        | error err => exact ih hb ho hrest
      | .inr e' => exact ih hb ho hrest

/-- A job that has owned its object owns it as long as it has a copy. -/
theorem owned_later {k : History (K.interface X)}
    (hget : ∀ x l, (⟨.inl .get,x⟩::l : History (K.interface X)) <:+ h → l = [])
    (hk : k <:+ h) (ho : owned k = true) : owned h = true ∨ lastCopy h = none := by
  induction h with
  | nil =>
    rw [List.suffix_nil.mp hk] at ho
    cases ho
  | cons ev h ih =>
    have ih := ih fun x l hl => hget x l (hl.trans (List.suffix_cons _ _))
    rcases List.suffix_cons_iff.mp hk with rfl | hrest
    · exact .inl ho
    · obtain ⟨e,r⟩ := ev
      match e with
      | .inl .get =>
        rw [hget r h (List.suffix_refl _)] at hrest
        rw [List.suffix_nil.mp hrest] at ho
        cases ho
      | .inl (.update o) =>
        cases r with
        | ok v => exact .inr rfl
        | error err => exact ih hrest
      | .inl (.updateStatus o) =>
        cases r with
        | ok v => exact .inl rfl
        | error err => exact ih hrest
      | .inr e => exact ih hrest

end owned

/-- The object is stored with the status and the finalizers of the copy `b`. -/
def Server.Keeps (s : Server K) (b : K.Object) : Prop :=
  ∃ o, s.current = some o ∧ o.metadata.uid = b.metadata.uid ∧
    o.metadata.finalizers = b.metadata.finalizers ∧ o.status = b.status

/-- No user takes away an object that is held. -/
theorem Server.Keeps.edited {s s' : Server K} {b : K.Object} (hk : s.Keeps b)
    (hheld : b.metadata.finalizers ≠ []) (he : Server.Edited s s') : s'.Keeps b := by
  obtain ⟨o,ho,hu,hf,hst⟩ := hk
  cases he.current_cases with
  | created ha => rw [ho] at ha; cases ha
  | changed hp hcur halike =>
    obtain rfl := Option.some.inj (ho.symm.trans hp)
    exact ⟨_,hcur,halike.uid.trans hu,halike.finalizers.trans hf,halike.status.trans hst⟩
  | removed hp hfree =>
    obtain rfl := Option.some.inj (ho.symm.trans hp)
    exact absurd (hf.symm.trans hfree) hheld

variable {σ : System K X α} {Φ : History (K.interface X) → (K.interface X).Call → Prop}
  {Ψ : History (K.interface X) → α → Prop}

/-- Where the object `o` that is stored after a step comes from. -/
inductive Successor (c d : Config σ) (o : K.Object) : Prop
  | created (initial : o.status = K.initial)
      (fresh : ∀ o', some o' ∈ c.server.log → o'.metadata.uid ≠ o.metadata.uid)
  | kept {b : K.Object} (latest : c.server.current = some b)
      (uid : o.metadata.uid = b.metadata.uid) (status : o.status = b.status)
  | written {h a next b v} (job : c.job = some (h,.call (.inl (.updateStatus a)) next))
      (copy : lastCopy h = some b) (latest : c.server.current = some b)
      (metadata : a.metadata = b.metadata) (spec : a.spec = b.spec) (stored : o = a.stored v)
      (after : d.job = some (⟨.inl (.updateStatus a),.ok v⟩::h,next (.ok v)))

theorem Config.Sound.successor {c d : Config σ} (hΦ : ∀ h e, Φ h e → Disciplined h e)
    (hc : c.Sound Φ Ψ) (hs : σ.Step c d) {o : K.Object} (ho : d.server.current = some o) :
    Successor c d o := by
  have hsame : c.server.current = some o → Successor c d o := fun h => .kept h rfl rfl
  cases hc.written hΦ hs with
  | kept hlog =>
    refine hsame ?_
    rw [Server.current,← hlog]
    exact ho
  | user he =>
    cases he.current_cases with
    | created _ hcur hi _ hf =>
      obtain rfl := Option.some.inj (ho.symm.trans hcur)
      exact .created hi hf
    | changed hlat hcur ha =>
      obtain rfl := Option.some.inj (ho.symm.trans hcur)
      exact .kept hlat ha.uid ha.status
    | removed _ _ hg =>
      rw [hg] at ho
      cases ho
  | status hj hcopy hlat hm hsp _ hlog hafter =>
    obtain ⟨l,hl⟩ := Server.current_eq_some.mp ho
    have hx := (List.cons.inj (hl.symm.trans hlog)).1
    exact .written hj hcopy (Server.current_eq_some.mpr ⟨_,hlat⟩) hm hsp (Option.some.inj hx) hafter
  | object hj hcopy hlat hlog hg hk =>
    obtain ⟨l,hl⟩ := Server.current_eq_some.mp ho
    have hx := (List.cons.inj (hl.symm.trans hlog)).1
    have heq := hk o hx.symm
    refine .kept (Server.current_eq_some.mpr ⟨_,hlat⟩) ?_ ?_
    · rw [heq]
    · rw [heq]

/-- A state in the log after a step was there before it or is the stored one. -/
theorem Written.mem_or_current {c d : Config σ} (hw : Written c d) {o : K.Object}
    (ho : some o ∈ d.server.log) : some o ∈ c.server.log ∨ d.server.current = some o := by
  rcases hw.origin with hlog | ⟨x,hlog,-⟩
  · exact .inl (hlog ▸ ho)
  · rw [hlog] at ho
    rcases List.mem_cons.mp ho with rfl | ho
    · exact .inr (Server.current_eq_some.mpr ⟨_,hlog⟩)
    · exact .inl ho

/-- What an owning job has in its copy is what is stored. -/
def Config.Owns (c : Config σ) : Prop :=
  ∀ h p b, c.job = some (h,p) → owned h = true → lastCopy h = some b →
    b.metadata.finalizers ≠ [] → c.server.Keeps b

theorem Config.Owns.step {c d : Config σ} (hΦ : ∀ h e, Φ h e → Disciplined h e)
    (hc : c.Sound Φ Ψ) (ho : c.Owns) (hs : σ.Step c d) : d.Owns := by
  cases hs with
  | user he => exact fun h p b hj hown hb hf => (ho h p b hj hown hb hf).edited hf he
  | others => exact ho
  | start =>
    rintro h p b ⟨⟩ hown
    cases hown
  | @own s s' w past h e next r ha =>
    rintro _ _ b ⟨⟩ hown hb hf
    cases e with
    | get => cases hown
    | update o =>
      cases r with
      | ok v => cases hown
      | error e =>
        cases (show s' = s from ha)
        exact ho h _ b rfl hown hb hf
    | updateStatus o =>
      cases r with
      | ok v =>
        obtain rfl := Option.some.inj hb
        obtain ⟨b₀,l,-,hlog,-,-,⟨rfl,heq⟩ | ⟨rfl,-⟩⟩ := hc.updateStatus hΦ rfl ha
        · exact ⟨b₀,Server.current_eq_some.mpr ⟨l,hlog⟩,by rw [heq],by rw [heq],by rw [heq]⟩
        · exact ⟨_,rfl,rfl,rfl,rfl⟩
      | error e =>
        cases (show s' = s from ha)
        exact ho h _ b rfl hown hb hf
  | @outside s w w' past h e next r ha =>
    rintro _ _ b ⟨⟩ hown hb hf
    exact ho h _ b rfl hown hb hf
  | finish | crash => rintro h p b ⟨⟩

theorem System.Reachable.owns {c : Config σ} (hΦ : ∀ h e, Φ h e → Disciplined h e)
    (hmain : Program.Obeys Φ Ψ [] σ.main) (h : σ.Reachable c) : c.Owns := by
  refine System.ReachableBy.invariant (J := fun c => c.Sound Φ Ψ)
    (fun c hc => System.Reachable.sound hΦ hmain hc) ?_ ?_ h
  · rintro w hw h p b ⟨⟩
  · exact fun c d hc ho hs _ => ho.step hΦ hc hs

/-! ## Retired objects -/

/-- The cache has served a state of the object with this uid in which it is being deleted. -/
def Server.Retired (s : Server K) (uid : ℕ) : Prop :=
  ∃ o l, some o::l <:+ s.log ∧ l.length < s.seen ∧ o.metadata.uid = uid ∧
    o.metadata.deletionTimestamp.isSome

theorem Server.Retired.later {s s' : Server K} {uid : ℕ} (h : s.Retired uid)
    (hlog : s.log <:+ s'.log) (hseen : s.seen ≤ s'.seen) : s'.Retired uid := by
  obtain ⟨o,l,hl,hlt,hu,hd⟩ := h
  exact ⟨o,l,hl.trans hlog,hlt.trans_le hseen,hu,hd⟩

/-- The cache does not move backward. -/
theorem Config.Sound.seen_le_step {c d : Config σ} (hc : c.Sound Φ Ψ) (hs : σ.Step c d) :
    c.server.seen ≤ d.server.seen := by
  have hwrite : ∀ {s s' : Server K} {version v : ℕ} {f : K.Object → K.Object},
      s.write version f = some (s',v) → s.seen ≤ s'.seen := by
    intro s s' version v f hw
    obtain ⟨cur,-,-,⟨-,rfl,-⟩ | ⟨-,-,-,rfl,-⟩ | ⟨-,-,rfl,-⟩⟩ := Server.write_cases hw
    · exact le_rfl
    · exact le_rfl
    · exact le_rfl
  cases hs with
  | user he =>
    obtain ⟨x,rfl⟩ := he.push
    exact le_rfl
  | @own s s' w past h e next r ha =>
    cases e with
    | get =>
      cases r with
      | ok o =>
        obtain ⟨l,⟨-,hlen⟩,rfl⟩ := ha
        exact hlen
      | error err =>
        obtain ⟨n,hn,-,rfl⟩ := Server.answers_get_error hc.server.seen_le ha
        exact hn
    | update o =>
      cases r with
      | ok v => exact hwrite ha
      | error err =>
        cases (show s' = s from ha)
        exact le_rfl
    | updateStatus o =>
      cases r with
      | ok v => exact hwrite (Server.updateStatus_eq_some.mp ha).2
      | error err =>
        cases (show s' = s from ha)
        exact le_rfl
  | others | start | outside | finish | crash => exact le_rfl

theorem Server.Retired.step {c d : Config σ} {uid : ℕ} (hΦ : ∀ h e, Φ h e → Disciplined h e)
    (hc : c.Sound Φ Ψ) (hs : σ.Step c d) (h : c.server.Retired uid) : d.server.Retired uid :=
  h.later (hc.written hΦ hs).suffix (hc.seen_le_step hs)

/-- An object whose copy says that it is being deleted is retired. -/
def Config.Retires (c : Config σ) : Prop :=
  ∀ h p b, c.job = some (h,p) → lastCopy h = some b → b.metadata.deletionTimestamp.isSome →
    c.server.Retired b.metadata.uid

theorem Config.Retires.step {c d : Config σ} (hΦ : ∀ h e, Φ h e → Disciplined h e)
    (hc : c.Sound Φ Ψ) (hr : c.Retires) (hs : σ.Step c d) : d.Retires := by
  have hlater : ∀ {uid}, c.server.Retired uid → d.server.Retired uid :=
    fun h => h.step hΦ hc hs
  cases hs with
  | user he => exact fun h p b hj hb hd => hlater (hr h p b hj hb hd)
  | others => exact hr
  | start =>
    intro h p b hj hb
    cases hj
    cases hb
  | @own s s' w past h e next r ha =>
    intro h' p b hj hb hd
    cases hj
    cases e with
    | get =>
      cases r with
      | ok o =>
        obtain rfl : o = b := by simpa using hb
        obtain ⟨l,⟨hl,-⟩,rfl⟩ := ha
        exact ⟨o,l,hl,Nat.lt_succ_self _,rfl,hd⟩
      | error err => cases hb
    | update o =>
      cases r with
      | ok v => cases hb
      | error err => exact hlater (hr h _ b rfl hb hd)
    | updateStatus o =>
      cases r with
      | ok v =>
        -- The written copy has the metadata of the one before it.
        cases hb
        obtain ⟨b₀,hb₀,hm,-⟩ := hΦ _ _ (hc.obeys rfl).1
        have hm' : (o.stored v).metadata.uid = b₀.metadata.uid := by simp [Object.stored,hm]
        have hd' : b₀.metadata.deletionTimestamp.isSome := by simpa [Object.stored,hm] using hd
        rw [hm']
        exact hlater (hr h _ b₀ rfl hb₀ hd')
      | error err => exact hlater (hr h _ b rfl hb hd)
  | @outside s w w' past h e next r ha =>
    intro h' p b hj hb hd
    cases hj
    exact hr h _ b rfl hb hd
  | finish | crash =>
    intro h p b hj
    cases hj

theorem System.Reachable.retires {c : Config σ} (hΦ : ∀ h e, Φ h e → Disciplined h e)
    (hmain : Program.Obeys Φ Ψ [] σ.main) (h : σ.Reachable c) : c.Retires := by
  refine System.ReachableBy.invariant (J := fun c => c.Sound Φ Ψ)
    (fun c hc => System.Reachable.sound hΦ hmain hc) ?_ ?_ h
  · intro w hw h p b hj
    cases hj
  · exact fun c d hc hr hs _ => hr.step hΦ hc hs

/-- Once an object is being deleted it stays so. -/
theorem Config.Traced.deleting {c : Config σ} (hc : c.Traced Φ) {o o' : K.Object}
    {l : List (Option K.Object)} (hl : some o::l <:+ c.server.log) (ho' : some o' ∈ l)
    (hu : o'.metadata.uid = o.metadata.uid) (hd : o'.metadata.deletionTimestamp.isSome) :
    o.metadata.deletionTimestamp.isSome := by
  refine hc.inherits (P := fun o => o.metadata.deletionTimestamp.isSome) ?_ hl ho' hu hd
  intro o b l hl hu hb
  cases hc.origin hl with
  | created hf _ => exact absurd hu.symm (hf b List.mem_cons_self)
  | user _ _ _ hdel => exact hdel hb
  | status _ _ _ hm _ _ =>
    simp only [Object.stored,hm]
    exact hb
  | object _ _ _ _ hk =>
    rw [hk o rfl]
    exact hb

/-- If some state of the stored object is being deleted, so is the stored one. -/
theorem Config.Traced.current_deleting {c : Config σ} (hc : c.Traced Φ) {o b : K.Object}
    {l : List (Option K.Object)} (ho : c.server.current = some o) (hb : some b::l <:+ c.server.log)
    (hu : b.metadata.uid = o.metadata.uid) (hd : b.metadata.deletionTimestamp.isSome) :
    o.metadata.deletionTimestamp.isSome := by
  obtain ⟨m,hm⟩ := Server.current_eq_some.mp ho
  have hsuf : some b::l <:+ some o::m := hm ▸ hb
  rcases List.suffix_cons_iff.mp hsuf with he | he
  · cases he
    exact hd
  · exact hc.deleting (hm ▸ List.suffix_refl _) (he.subset List.mem_cons_self) hu hd

/-- A job that works on a live copy works on an object that is not retired. -/
theorem Config.Sound.not_retired {c : Config σ} (hc : c.Sound Φ Ψ) (ht : c.Traced Φ) {h p b}
    (hj : c.job = some (h,p)) (hb : lastCopy h = some b)
    (hlive : b.metadata.deletionTimestamp = none) : ¬c.server.Retired b.metadata.uid := by
  rintro ⟨o,l,hl,hlt,hu,hd⟩
  obtain ⟨-,m,hm,hseen⟩ := hc.copy hj hb
  have hle : (some o::l).length ≤ (some b::m).length := by
    simp only [List.length_cons]
    omega
  have hsuf : some o::l <:+ some b::m := List.suffix_of_suffix_length_le hl hm hle
  have hdel : b.metadata.deletionTimestamp.isSome := by
    rcases List.suffix_cons_iff.mp hsuf with he | he
    · cases he
      exact hd
    · exact ht.deleting hm (he.subset List.mem_cons_self) hu hd
  rw [hlive] at hdel
  cases hdel

/-- If the stored object has been served, it is the one the running job works on. -/
theorem Config.Sound.copy_uid {c : Config σ} (hc : c.Sound Φ Ψ) {h p b o}
    (hj : c.job = some (h,p)) (hb : lastCopy h = some b) (ho : c.server.current = some o)
    (hbegun : c.server.Begun o.metadata.uid) : b.metadata.uid = o.metadata.uid := by
  obtain ⟨o',l',hl',hlt,hu⟩ := hbegun
  obtain ⟨-,m,hm,hseen⟩ := hc.copy hj hb
  obtain ⟨l,hl⟩ := Server.current_eq_some.mp ho
  have hsuf : some o::l <:+ c.server.log := by rw [hl]
  have hm' : some b::m <:+ some o::l := hl ▸ hm
  have hlen : l'.length < (some b::m).length := by
    simp only [List.length_cons]
    omega
  obtain ⟨x,k,hk,hx⟩ := hc.server.between hsuf hl' hu hm' hlen
  cases hk
  exact hx

end Kube

import LosantDevice.Session.Completion
import LosantDevice.Trigger.Lifetime

/-!
# What comes of a request

A connect that is served leads to a session that is connected for the time that was asked for, and a
disconnect that is served to the end of the session it was served on, as soon as the reconciler gets
to work without hindrance.
-/
namespace LosantDevice.Trigger
open Effect Kube Program

/-! ## Sessions are created as asked -/

/-- The session that a connect asks for. -/
def sessionSpec (srv : Server) (ttlSeconds : ℤ) : RancherSessionSpec :=
  { credentialsSecretRef := ⟨"rancher-credentials",srv.namespace_⟩
    ttlSeconds := intendedTTL ttlSeconds }

/-- Only a connect creates a session, and only the one it was asked for. -/
def Heeds (srv : Server) (q : Request) : interface.Call → Prop
  | .create _ spec => ∃ req, q.body = some req ∧ q.asks "connect" ∧
      spec = sessionSpec srv req.ttlSeconds
  | _ => True

/-- A Delete was accepted. -/
def Accepted (h : History interface) : Prop := ∃ key, (⟨.delete key,.ok ()⟩ : Event interface) ∈ h

/-- A disconnect is answered 202 only after that. -/
def Deserves (q : Request) (h : History interface) (a : Response) : Prop :=
  q.asks "disconnect" → a.status = 202 → Accepted h

/-- So it will be in what is left to do for a request; and a Delete of it is on record. -/
def Heedful (srv : Server) (x : Handling) : Prop :=
  ∃ h, Obeys (fun _ e => Heeds srv x.request e) (Deserves x.request) h x.rest ∧
    (Accepted h → x.deleted ≠ [])

variable {lib : Externals} {srv : Server} {n : String}

theorem deserves_error {q : Request} {h : History interface} {text : String} {status : ℕ}
    (hs : status ≠ 202) : Deserves q h (httpError text status) := fun _ h => absurd h hs

theorem handleConnect_heeds {q : Request} {req : RancherRequest} {name : String}
    {h : History interface} (hbody : q.body = some req) (hasks : q.asks "connect") :
    Obeys (fun _ e => Heeds srv q e) (Deserves q) h (srv.handleConnect name req.ttlSeconds) := by
  have hbranches : (if req.ttlSeconds ≤ 0 then 3600 else req.ttlSeconds) =
      intendedTTL req.ttlSeconds := by
    unfold intendedTTL
    split_ifs <;> omega
  refine ⟨⟨req,hbody,hasks,?_⟩,?_⟩
  · rw [sessionSpec,← hbranches]
  · rintro (err | ⟨⟩)
    · exact .ite (deserves_error (by decide)) (deserves_error (by decide))
    · intro hd
      exact absurd (Request.asks_unique hasks hd) (by decide)

theorem handleDisconnect_heeds {q : Request} {name : String} {h : History interface} :
    Obeys (fun _ e => Heeds srv q e) (Deserves q) h (srv.handleDisconnect name) := by
  refine ⟨trivial,?_⟩
  rintro (err | rs)
  · exact .ite (deserves_error (by decide)) (deserves_error (by decide))
  · refine ⟨trivial,?_⟩
    rintro (err | ⟨⟩)
    · exact .ite (deserves_error (by decide)) (deserves_error (by decide))
    · exact fun _ _ => ⟨_,List.mem_cons_self⟩

theorem handleAction_heeds {q : Request} {req : RancherRequest} {h : History interface}
    (hpost : q.method = "POST") (hbody : q.body = some req) (x : Except String String) :
    Obeys (fun _ e => Heeds srv q e) (Deserves q) h (srv.handleAction lib req x) := by
  rcases x with err | name
  · exact deserves_error (by decide)
  · change Obeys _ _ _ (if req.action = "connect" then _ else _)
    split
    · rename_i hconnect
      exact handleConnect_heeds hbody ⟨hpost,req,hbody,hconnect⟩
    · exact .ite handleDisconnect_heeds (deserves_error (by decide))

theorem heedful_arrived (lib : Externals) (srv : Server) (q : Request) :
    Heedful srv ⟨q,srv.handleRancher lib q,[]⟩ := by
  refine ⟨[],?_,?_⟩
  · change Obeys _ _ _ (srv.handleRancher lib q)
    unfold Server.handleRancher
    split
    · exact deserves_error (by decide)
    · rename_i hpost
      cases hbody : q.body with
      | none => exact deserves_error (by decide)
      | some req =>
        refine ⟨trivial,?_⟩
        rintro (err | _ | ⟨ls,l⟩)
        all_goals exact handleAction_heeds (not_not.mp hpost) hbody _
  · rintro ⟨key,h⟩
    cases h

theorem Heedful.next {q : Request} {e : Call} {next : interface.Answer e → M Response}
    {old : List ℕ} (hx : Heedful srv ⟨q,.call e next,old⟩) (r : interface.Answer e) (new : List ℕ)
    (hnew : Accepted [⟨e,r⟩] → new ≠ []) : Heedful srv ⟨q,next r,new++old⟩ := by
  obtain ⟨h,hobeys,hold⟩ := hx
  refine ⟨⟨e,r⟩::h,hobeys.2 r,?_⟩
  rintro ⟨key,hk⟩
  rcases List.mem_cons.mp hk with hk | hk
  · exact List.append_ne_nil_of_left_ne_nil (hnew ⟨key,hk ▸ List.mem_cons_self⟩) _
  · exact List.append_ne_nil_of_right_ne_nil _ (hold ⟨key,hk⟩)

/-- The Delete of a request is of the session, so a session is recorded with it. -/
theorem Stage.recorded {s s' : Kube.Server rancherSession} {q : Request} {e : Call}
    {next : interface.Answer e → M Response} {old new : List ℕ} {r : interface.Answer e}
    (hx : Stage lib srv n ⟨q,.call e next,old⟩) (hs : Served srv n s e r s' new)
    (ha : Accepted [⟨e,r⟩]) : new ≠ [] := by
  obtain ⟨key,hk⟩ := ha
  cases List.mem_singleton.mp hk
  cases hx with
  | listing _ _ h | connecting _ h | looking _ h | answered h => cases h
  | deleting _ h _ =>
    cases h
    cases hs with
    | removed | marked | terminating => simp
    | elsewhere hkey _ => exact absurd rfl (hkey _ rfl)

/-! ## What a disconnect was served on -/

section state
variable {σ : System rancherSession Session.calls (Except String Result)} {c d : State σ}

/-- A session that a Delete was accepted for was there, and if it still is, it is being deleted. -/
def Doomed (s : Kube.Server rancherSession) (uid : ℕ) : Prop :=
  (∃ o, some o ∈ s.log ∧ o.metadata.uid = uid) ∧
    ∀ o, s.current = some o → o.metadata.uid = uid → o.metadata.deletionTimestamp.isSome

/-- What can become of a session that is being deleted. -/
inductive Persists (s s' : Kube.Server rancherSession) : Prop
  | kept (log : s'.log = s.log)
  | created {o : RancherSession} (log : s'.log = some o::s.log)
      (fresh : ∀ o', some o' ∈ s.log → o'.metadata.uid ≠ o.metadata.uid)
  | stored {o b : RancherSession} (log : s'.log = some o::s.log) (present : s.current = some b)
      (uid : o.metadata.uid = b.metadata.uid)
      (marked : b.metadata.deletionTimestamp.isSome → o.metadata.deletionTimestamp.isSome)
  | removed (log : s'.log = none::s.log)

theorem Persists.doomed {s s' : Kube.Server rancherSession} {uid : ℕ} (hp : Persists s s')
    (hd : Doomed s uid) : Doomed s' uid := by
  obtain ⟨⟨o₀,ho₀,hu₀⟩,hcur⟩ := hd
  cases hp with
  | kept hlog =>
    refine ⟨⟨o₀,hlog ▸ ho₀,hu₀⟩,fun o ho => hcur o ?_⟩
    rwa [Server.current,hlog] at ho
  | @created o hlog hfresh =>
    refine ⟨⟨o₀,by rw [hlog]; exact List.mem_cons_of_mem _ ho₀,hu₀⟩,fun o' ho' hu => ?_⟩
    rw [Server.current,hlog] at ho'
    obtain rfl : o = o' := Option.some.inj ho'
    exact absurd (hu₀.trans hu.symm) (hfresh o₀ ho₀)
  | @stored o b hlog hb hu hm =>
    refine ⟨⟨o₀,by rw [hlog]; exact List.mem_cons_of_mem _ ho₀,hu₀⟩,fun o' ho' hu' => ?_⟩
    rw [Server.current,hlog] at ho'
    obtain rfl : o = o' := Option.some.inj ho'
    exact hm (hcur b hb (hu.symm.trans hu'))
  | removed hlog =>
    refine ⟨⟨o₀,by rw [hlog]; exact List.mem_cons_of_mem _ ho₀,hu₀⟩,fun o' ho' => ?_⟩
    rw [Server.current,hlog] at ho'
    cases ho'

theorem persists_of_edited {s s' : Kube.Server rancherSession} (he : Server.Edited s s') :
    Persists s s' := by
  cases he with
  | create o _ hfresh _ => exact .created rfl hfresh
  | edit _ hp | annotate hp => exact .stored rfl hp rfl (fun h => h)
  | remove => exact .removed rfl
  | markDeleted _ hp => exact .stored rfl hp rfl (fun _ => rfl)

theorem persists_of_written {a b : Config σ} (hw : Written a b) : Persists a.server b.server := by
  cases hw with
  | kept hlog => exact .kept hlog
  | user he => exact persists_of_edited he
  | @status h o next b l hjob hb hlatest hm hsp hadm hlog hafter hpast =>
    refine .stored hlog (Server.current_eq_some.mpr ⟨_,hlatest⟩) ?_ ?_
    · change o.metadata.uid = _
      rw [hm]
    · intro hdel
      change o.metadata.deletionTimestamp.isSome
      rw [hm]
      exact hdel
  | @object h o next b l x hjob hb hlatest hlog hgone hkept hafter hpast =>
    cases x with
    | none => exact .removed hlog
    | some o' =>
      obtain rfl := hkept o' rfl
      exact .stored hlog (Server.current_eq_some.mpr ⟨_,hlatest⟩) rfl (fun h => h)

/-- A call of a request keeps what is doomed so, and dooms what it says it was served on. -/
theorem persists_of_served {s s' : Kube.Server rancherSession} {e : Call} {r : interface.Answer e}
    {new : List ℕ} (hs : Served srv n s e r s' new) :
    Persists s s' ∧ ∀ uid ∈ new, Doomed s' uid := by
  cases hs with
  | listed | taken | found | notFound | gone | elsewhere => exact ⟨.kept rfl,by simp⟩
  | created o _ hfresh => exact ⟨.created rfl hfresh,by simp⟩
  | @removed cur hp _ =>
    refine ⟨.removed rfl,fun uid hu => ?_⟩
    obtain rfl := List.mem_singleton.mp hu
    refine ⟨⟨cur,List.mem_cons_of_mem _ (Server.mem_of_current hp),rfl⟩,fun o ho _ => ?_⟩
    cases ho
  | @marked cur t hp _ _ =>
    refine ⟨.stored rfl hp rfl (fun _ => rfl),fun uid hu => ?_⟩
    obtain rfl := List.mem_singleton.mp hu
    refine ⟨⟨cur,List.mem_cons_of_mem _ (Server.mem_of_current hp),rfl⟩,fun o ho _ => ?_⟩
    obtain rfl := Option.some.inj ho
    rfl
  | @terminating cur hp _ hm =>
    refine ⟨.kept rfl,fun uid hu => ?_⟩
    obtain rfl := List.mem_singleton.mp hu
    refine ⟨⟨cur,Server.mem_of_current hp,rfl⟩,fun o ho _ => ?_⟩
    obtain rfl := Option.some.inj (hp.symm.trans ho)
    exact hm

/-- What holds of every request in every state. -/
structure Obliged (srv : Server) (s : Kube.Server rancherSession) (x : Handling) : Prop where
  heedful : Heedful srv x
  doomed : ∀ uid ∈ x.deleted, Doomed s uid

theorem Obliged.persists {s s' : Kube.Server rancherSession} {x : Handling} (hx : Obliged srv s x)
    (hp : Persists s s') : Obliged srv s' x :=
  ⟨hx.heedful,fun uid hu => hp.doomed (hx.doomed uid hu)⟩

theorem Obliged.served {s s' : Kube.Server rancherSession} {q : Request} {e : Call}
    {next : interface.Answer e → M Response} {old new : List ℕ} {r : interface.Answer e}
    (hx : Obliged srv s ⟨q,.call e next,old⟩) (hst : Stage lib srv n ⟨q,.call e next,old⟩)
    (hs : Served srv n s e r s' new) : Obliged srv s' ⟨q,next r,new++old⟩ := by
  obtain ⟨hp,hnew⟩ := persists_of_served hs
  refine ⟨hx.heedful.next r new (hst.recorded hs),fun uid hu => ?_⟩
  rcases List.mem_append.mp hu with hu | hu
  · exact hnew uid hu
  · exact hp.doomed (hx.doomed uid hu)

theorem Obliged.step (hc : ∀ x ∈ c.requests, Obliged srv c.controller.server x)
    (hst : ∀ x ∈ c.requests, Stage lib srv n x)
    (hs : c.controller.Sound (Session.Permits lib) Session.Returns) (h : Step lib srv n σ c d) :
    ∀ x ∈ d.requests, Obliged srv d.controller.server x := by
  cases h with
  | arrive q =>
    refine List.forall_mem_cons.mpr ⟨⟨heedful_arrived lib srv q,?_⟩,hc⟩
    simp
  | controller hm _ =>
    intro x hx
    exact (hc x hx).persists (persists_of_written (hs.written Session.Permits.disciplined hm))
  | @served c l l' q e next old r s' new hserved =>
    have hp : Persists c.server s' := (persists_of_served hserved).1
    simp only [List.forall_mem_append,List.forall_mem_cons] at hc ⊢
    obtain ⟨hl,hx,hl'⟩ := hc
    exact ⟨fun x hx => (hl x hx).persists hp,hx.served (hst _ (by simp)) hserved,
      fun x hx => (hl' x hx).persists hp⟩
  | @refused c l l' q e next old err hr =>
    simp only [List.forall_mem_append,List.forall_mem_cons] at hc ⊢
    obtain ⟨hl,hx,hl'⟩ := hc
    refine ⟨hl,⟨hx.heedful.next (Trigger.refused err e) [] ?_,hx.doomed⟩,hl'⟩
    rintro ⟨key,hk⟩
    cases List.mem_singleton.mp hk

theorem Reachable.obliged (hmain : σ.main = Session.reconcile lib) (h : Reachable lib srv n σ c) :
    ∀ x ∈ c.requests, Obliged srv c.controller.server x := by
  induction h with
  | init hw => simp
  | step hr hm ih =>
    refine Obliged.step ih (hr.inv hmain).stages ?_ hm
    exact System.Reachable.sound Session.Permits.disciplined (hmain ▸ Session.reconcile_obeys lib)
      (hr.inv hmain).controller

/-- In every state of the protocol: a Create that is accepted makes the session that the request
asks for, and three jobs that nothing hinders make it connected for that long; and the session that
a disconnect was answered 202 for is gone, or will be after the next such job. -/
theorem requests_fulfilled (lib : Externals) (srv : Server) (n : String)
    (σ : System rancherSession Session.calls (Except String Result))
    (hmain : σ.main = Session.reconcile lib) (c : State σ) (h : Reachable lib srv n σ c) :
    (∀ l l' q spec next old s' new,
      c.requests = l++⟨q,.call (.create ⟨srv.namespace_,n⟩ spec) next,old⟩::l' →
      Served srv n c.controller.server (.create ⟨srv.namespace_,n⟩ spec) (.ok ()) s' new →
      ∃ req o, q.body = some req ∧ q.asks "connect" ∧ s'.current = some o ∧
        o.spec.ttlSeconds = intendedTTL req.ttlSeconds ∧
        ∀ start d, Rounds (Session.Smooth lib o.spec (Session.window start) fun _ => True) 3
          { c.controller with server := s' } d →
        ∃ h o', d.past.head? = some h ∧ d.server.current = some o' ∧
          o'.metadata.uid = o.metadata.uid ∧
          Session.Established (Session.window start) o.spec h o'.status) ∧
    (∀ x ∈ c.requests, x.request.asks "disconnect" → x.answered 202 →
      ∃ uid ∈ x.deleted, (∃ o, some o ∈ c.controller.server.log ∧ o.metadata.uid = uid) ∧
        ∀ o clock found d, c.controller.server.current = some o → o.metadata.uid = uid →
          Unhindered (Session.Smooth lib o.spec clock found) c.controller d →
          d.server.current = none) := by
  have hinv := h.inv hmain
  have hobliged := h.obliged hmain
  constructor
  · intro l l' q spec next old s' new hreq hs
    obtain ⟨c,_⟩ := c
    obtain rfl := hreq
    have hmem : (⟨q,.call (.create ⟨srv.namespace_,n⟩ spec) next,old⟩ : Handling) ∈
        l++⟨q,.call (.create ⟨srv.namespace_,n⟩ spec) next,old⟩::l' := by simp
    obtain ⟨_,⟨⟨req,hbody,hasks,rfl⟩,-⟩,-⟩ := (hobliged _ hmem).heedful
    cases hs with
    | created o habsent hfresh hbare hasked =>
      have hstep := Step.controller_reachable (.served (.created o habsent hfresh hbare hasked))
        hinv.stages hinv.controller
      have hphase : o.status.phase = .unset := by
        rw [hbare.2.2]
        rfl
      refine ⟨req,_,hbody,hasks,rfl,?_,fun start d hd => ?_⟩
      · change o.spec.ttlSeconds = _
        rw [hasked.2]
        rfl
      have hwanted : o.spec.suspend = false := by
        rw [hasked.2]
        rfl
      obtain ⟨h,o',hpast,ho',huid,-,hconn⟩ :=
        Session.established_of_rounds hmain hstep rfl hbare.2.1
        hwanted (.inl hphase) (by simp [Session.remaining,hbare.1,hphase]) hd
      exact ⟨h,o',hpast,ho',huid,hconn⟩
    | elsewhere hkey _ => exact absurd rfl (hkey _ rfl)
  · intro x hx hq ha
    obtain ⟨⟨past,hobeys,hrec⟩,hdoomed⟩ := hobliged x hx
    have haccepted : Accepted past := by
      cases hrest : x.rest with
      | call e next => simp [Handling.answered,hrest] at ha
      | done a =>
        rw [hrest] at hobeys
        exact hobeys hq (by simpa [Handling.answered,hrest] using ha)
    obtain ⟨uid,hu⟩ := List.exists_mem_of_ne_nil _ (hrec haccepted)
    obtain ⟨hthere,hdel⟩ := hdoomed uid hu
    refine ⟨uid,hu,hthere,fun o clock found d ho hou hd => ?_⟩
    exact Session.gone_of_unhindered hmain hinv.controller ho (hdel o ho hou) hd

/-! ## A connect and a disconnect -/

/-- The jobs of the reconciler are steps of the protocol. -/
theorem Reachable.unhindered {good : (e : Session.calls.Call) → Session.calls.Answer e → Prop}
    {d : Config σ} (h : Reachable lib srv n σ c) (hd : Unhindered good c.controller d) :
    Reachable lib srv n σ ⟨d,c.requests⟩ := by
  obtain ⟨⟨s,w,past,job⟩,l⟩ := c
  obtain ⟨e,k,a,rfl,hrun,hdone,rfl⟩ := hd
  have halone : ∀ {c d : Config σ}, d.job ≠ c.job → Alone c d := fun hne he => absurd he hne
  have hstart : Reachable lib srv n σ ⟨⟨s,w,past,some ([],σ.main)⟩,l⟩ :=
    h.step (.controller .start (halone (by simp)))
  have hend : Reachable lib srv n σ ⟨e,l⟩ := by
    clear hdone
    induction hrun with
    | refl => exact hstart
    | tail _ hs ih =>
      refine ih.step (.controller hs.step (halone ?_))
      cases hs with
      | own | outside => simp
  obtain ⟨s',w',past',job'⟩ := e
  cases hdone
  exact hend.step (.controller .finish (halone (by simp)))

theorem Reachable.rounds {good : (e : Session.calls.Call) → Session.calls.Answer e → Prop} {k : ℕ}
    {d : Config σ} (h : Reachable lib srv n σ c) (hd : Rounds good k c.controller d) :
    Reachable lib srv n σ ⟨d,c.requests⟩ := by
  induction k generalizing c with
  | zero =>
    cases hd
    exact h
  | succ k ih =>
    obtain ⟨e,he,hd⟩ := hd
    exact ih (c := ⟨e,c.requests⟩) (h.unhindered he) hd

/-- A session that is held is marked. -/
def markDeleted (c : Config σ) (o : RancherSession) (t : Time) : Config σ :=
  { c with server := c.server.store { o with
    metadata := { o.metadata with
      deletionTimestamp := some t
      generation := o.metadata.generation+1 } } }

theorem Reachable.marked (h : Reachable lib srv n σ c) {q : Request} (hq : q.asks "disconnect")
    {o : RancherSession} (hp : c.controller.server.current = some o)
    (hheld : o.metadata.finalizers ≠ []) (hlive : o.metadata.deletionTimestamp = none) (t : Time) :
    Reachable lib srv n σ ⟨markDeleted c.controller o t,
      ⟨q,.done ⟨202,""⟩,[o.metadata.uid]⟩::c.requests⟩ := by
  obtain ⟨hpost,req,hbody,haction⟩ := hq
  have hn := h.named hpost hbody
  simp only [Server.handleAction,haction,if_true] at hn
  have hget : Served srv n c.controller.server (.get ⟨srv.namespace_,n⟩)
    (.ok ⟨⟨n,0,0,1,[],none⟩,{ credentialsSecretRef := ⟨"",""⟩ },{}⟩) _ [] := .found rfl
  have hlooked := hn.step (.served (l := []) hget)
  exact hlooked.step (.served (l := []) (.marked t hp hheld hlive))

end state

/-- The session of a connect without a ttl. -/
def asked : RancherSession where
  metadata :=
    { name := "edge", uid := 1, resourceVersion := 0, generation := 1, finalizers := []
      deletionTimestamp := none }
  spec := sessionSpec losantSystem 0
  status := {}

def unserved : Config (Session.system .plain) := ⟨⟨[],0⟩,Session.emptyWorld,[],none⟩

def served : Config (Session.system .plain) :=
  { unserved with server := unserved.server.store asked }

theorem reachable_asking : Reachable .plain losantSystem "edge" (Session.system .plain)
    ⟨unserved,[⟨⟨"POST",some ⟨"connect",0⟩⟩,losantSystem.handleConnect "edge" 0,[]⟩]⟩ := by
  have hinit : Reachable .plain losantSystem "edge" (Session.system .plain) ⟨unserved,[]⟩ :=
    .init ⟨rfl,rfl,by simp [Session.emptyWorld]⟩
  exact hinit.connecting (q := ⟨"POST",some ⟨"connect",0⟩⟩) rfl rfl rfl

theorem served_asked : Served losantSystem "edge" unserved.server
    (.create ⟨"losant-system","edge"⟩ (sessionSpec losantSystem 0)) (.ok ()) served.server [] :=
  .created asked rfl (by simp [unserved]) ⟨rfl,rfl,rfl⟩ ⟨rfl,rfl⟩

theorem reachable_served : Reachable .plain losantSystem "edge" (Session.system .plain)
    ⟨served,[⟨⟨"POST",some ⟨"connect",0⟩⟩,.done ⟨202,""⟩,[]⟩]⟩ :=
  reachable_asking.step (.served (l := []) served_asked)

/-- A job that finds the session new and one that finds it marked both come to their end. -/
theorem served_jobs : ∃ c o d, (System.Act.job (Session.smoothly (0 : ℤ))).act obliging served =
    some c ∧ c.server.current = some o ∧ o.spec = sessionSpec losantSystem 0 ∧
    o.metadata.finalizers ≠ [] ∧ o.metadata.deletionTimestamp = none ∧
    (System.Act.job (Session.smoothly (0 : ℤ))).act obliging (markDeleted c o (0 : ℤ)) =
      some d := by
  have hjobs : ((System.Act.job (Session.smoothly (0 : ℤ))).act obliging served).any (fun c =>
      c.server.current.any fun o => decide (o.spec = asked.spec ∧
        o.metadata.finalizers ≠ [] ∧ o.metadata.deletionTimestamp = none ∧
        ((System.Act.job (Session.smoothly (0 : ℤ))).act obliging
          (markDeleted c o (0 : ℤ))).isSome)) = true := by
    decide +kernel
  obtain ⟨c,hc,hp⟩ := (Option.any_eq_true _ _).mp hjobs
  obtain ⟨o,ho,hp⟩ := (Option.any_eq_true _ _).mp hp
  obtain ⟨hspec,hheld,hlive,hd⟩ := of_decide_eq_true hp
  obtain ⟨d,hd⟩ := Option.isSome_iff_exists.mp hd
  exact ⟨c,o,d,hc,ho,hspec,hheld,hlive,hd⟩

/-- A connect without a ttl makes an hour of it, and a disconnect ends it. -/
theorem requests_fulfilled_edge :
    (∃ d h o, Reachable .plain losantSystem "edge" (Session.system .plain)
        ⟨d,[⟨⟨"POST",some ⟨"connect",0⟩⟩,.done ⟨202,""⟩,[]⟩]⟩ ∧
      d.past.head? = some h ∧ d.server.current = some o ∧
      Session.Established (Session.window (0 : ℤ)) (sessionSpec losantSystem 0) h o.status) ∧
    ∃ c o d, Reachable .plain losantSystem "edge" (Session.system .plain) c ∧
      c.controller.server.current = some o ∧ Deleted c.requests o.metadata.uid ∧
      Unhindered (Session.Smooth .plain o.spec (fun _ _ => True) fun _ => True) c.controller d ∧
      d.server.current = none := by
  constructor
  · obtain ⟨d,hd⟩ : ∃ d, System.replay obliging (List.replicate 3 (.job (Session.smoothly (0 : ℤ))))
        served = some d := Option.isSome_iff_exists.mp (by decide +kernel)
    have hrounds := rounds_of_replay (Session.smoothly_smooth (sessionSpec losantSystem 0) (0 : ℤ)
      (Session.window (0 : ℤ)) fun _ => ⟨by decide,by decide⟩) hd
    obtain ⟨req,o,-,-,ho,-,hlead⟩ := (requests_fulfilled .plain losantSystem "edge" _ rfl _
      reachable_asking).1 [] [] _ _ _ _ _ _ rfl served_asked
    obtain rfl := Option.some.inj ho
    obtain ⟨h,o',hpast,ho',-,hconn⟩ := hlead (0 : ℤ) d hrounds
    exact ⟨d,h,o',reachable_served.rounds hrounds,hpast,ho',hconn⟩
  · have hsmooth : ∀ {h w e r w'}, (Session.smoothly (0 : ℤ)).serve h w e = some (r,w') →
        Session.Smooth .plain (sessionSpec losantSystem 0) (fun _ _ => True) (fun _ => True) e r :=
      Session.smoothly_smooth (sessionSpec losantSystem 0) (0 : ℤ) _ fun _ => trivial
    obtain ⟨c,o,d,hc,ho,hspec,hheld,hlive,hd⟩ := served_jobs
    have hjob : Unhindered (Session.Smooth .plain o.spec (fun _ _ => True) fun _ => True)
        (markDeleted c o (0 : ℤ)) d := by
      rw [hspec]
      exact unhindered_of_job hsmooth hd
    have hq : (⟨"POST",some ⟨"disconnect",0⟩⟩ : Request).asks "disconnect" := by decide
    have hr := (reachable_served.unhindered (unhindered_of_job hsmooth hc)).marked hq ho hheld hlive
      (0 : ℤ)
    obtain ⟨uid,huid,-,hgone⟩ := (requests_fulfilled .plain losantSystem "edge" _ rfl _ hr).2 _
      List.mem_cons_self hq rfl
    obtain rfl := List.mem_singleton.mp huid
    refine ⟨_,_,d,hr,rfl,⟨_,List.mem_cons_self,hq,by simp⟩,hjob,?_⟩
    exact hgone _ _ _ d rfl rfl hjob

end LosantDevice.Trigger

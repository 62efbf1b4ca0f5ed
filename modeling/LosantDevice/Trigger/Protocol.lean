import LosantDevice.Trigger.Server
import LosantDevice.Session.Obeys
import LosantDevice.Session.World
import Mathlib.Data.Fintype.EquivFin

/-!
# Connects and disconnects

Any number of requests to the trigger server, each between two of its calls, beside the
reconciler of the session they are about. The API server is the one of the reconciler; what
requests do to it are the acts of a user.
-/
namespace LosantDevice.Trigger
open Effect Kube

/-- A request that has arrived: what is left to do for it and, as a record only, the uids of the
sessions its Delete was served on. -/
structure Handling where
  request : Request
  rest : M Response
  deleted : List ℕ

def Request.asks (q : Request) (action : String) : Prop :=
  q.method = "POST" ∧ ∃ req, q.body = some req ∧ req.action = action

instance (q : Request) (action : String) : Decidable (q.asks action) :=
  match hb : q.body with
  | none => .isFalse (by simp [Request.asks,hb])
  | some req => decidable_of_iff (q.method = "POST" ∧ req.action = action) (by
      simp [Request.asks,hb])

def Handling.answered (x : Handling) (status : ℕ) : Bool :=
  match x.rest with
  | .done a => a.status = status
  | .call _ _ => false

/-- A connect that was answered 202. -/
def Handling.granted (x : Handling) : Bool := x.request.asks "connect" && x.answered 202

/-- The key a call is about. -/
def Call.key? : Call → Option NamespacedName
  | .listLosantSyncs => none
  | .create key _ | .get key | .delete key => some key

/-- The answer to a call that did not get through. -/
def refused (err : ApiError) : (e : Call) → interface.Answer e
  | .listLosantSyncs => .error err
  | .create _ _ => .error err
  | .get _ => .error err
  | .delete _ => .error err

/-- How the API server, with one LosantSync named `n`, serves the calls of a request: what it
answers, what becomes of the session `n`, and the uids a Delete was accepted for. A read may come
from a cache, so it promises no more than the name. -/
inductive Served (srv : Server) (n : String) (s : Kube.Server rancherSession) :
    (e : Call) → interface.Answer e → Kube.Server rancherSession → List ℕ → Prop
  | listed {l : List LosantSync} (one : l.map (·.metadata.name) = [n]) :
      Served srv n s .listLosantSyncs (.ok l) s []
  | created {spec} (o : RancherSession) (absent : s.current = none)
      (fresh : ∀ o', some o' ∈ s.log → o'.metadata.uid ≠ o.metadata.uid)
      (bare : o.metadata.finalizers = [] ∧ o.metadata.deletionTimestamp = none ∧
        o.status = rancherSession.initial) (asked : o.metadata.name = n ∧ o.spec = spec) :
      Served srv n s (.create ⟨srv.namespace_,n⟩ spec) (.ok ()) (s.store o) []
  | taken {spec cur} {err : ApiError} (present : s.current = some cur)
      (reason : err.reason = .alreadyExists) :
      Served srv n s (.create ⟨srv.namespace_,n⟩ spec) (.error err) s []
  | found {o : RancherSession} (name : o.metadata.name = n) :
      Served srv n s (.get ⟨srv.namespace_,n⟩) (.ok o) s []
  | notFound {err : ApiError} (reason : err.reason = .notFound) :
      Served srv n s (.get ⟨srv.namespace_,n⟩) (.error err) s []
  | removed {cur : RancherSession} (present : s.current = some cur)
      (free : cur.metadata.finalizers = []) :
      Served srv n s (.delete ⟨srv.namespace_,n⟩) (.ok ()) (s.push none) [cur.metadata.uid]
  | marked {cur : RancherSession} (t : Time) (present : s.current = some cur)
      (held : cur.metadata.finalizers ≠ []) (live : cur.metadata.deletionTimestamp = none) :
      Served srv n s (.delete ⟨srv.namespace_,n⟩) (.ok ()) (s.store { cur with
        metadata := { cur.metadata with
          deletionTimestamp := some t
          generation := cur.metadata.generation+1 } }) [cur.metadata.uid]
  | terminating {cur : RancherSession} (present : s.current = some cur)
      (held : cur.metadata.finalizers ≠ []) (marked : cur.metadata.deletionTimestamp.isSome) :
      Served srv n s (.delete ⟨srv.namespace_,n⟩) (.ok ()) s [cur.metadata.uid]
  | gone {err : ApiError} (absent : s.current = none) (reason : err.reason = .notFound) :
      Served srv n s (.delete ⟨srv.namespace_,n⟩) (.error err) s []
  | elsewhere {e r} (key : ∀ k, e.key? = some k → k ≠ ⟨srv.namespace_,n⟩) (call : e.key?.isSome) :
      Served srv n s e r s []

section protocol
variable (lib : Externals) (srv : Server) (n : String)
  (σ : System rancherSession Session.calls (Except String Result))

structure State where
  controller : Config σ
  requests : List Handling

/-- Which session there is and whether it is being deleted. -/
def standing (s : Kube.Server rancherSession) : Option (ℕ × Option Time) :=
  s.current.map fun o => (o.metadata.uid,o.metadata.deletionTimestamp)

theorem standing_of_current {s : Kube.Server rancherSession} {x} (h : s.current = x) :
    standing s = x.map fun o => (o.metadata.uid,o.metadata.deletionTimestamp) := by
  rw [standing,h]

variable {σ} in
/-- Apart from the reconciler, everybody leaves the session standing as it is. -/
def Alone (c d : Config σ) : Prop := d.job = c.job → standing d.server = standing c.server

inductive Step : State σ → State σ → Prop
  | arrive {c l} (q : Request) : Step ⟨c,l⟩ ⟨c,⟨q,srv.handleRancher lib q,[]⟩::l⟩
  | controller {c d l} (moved : σ.Step c d) (alone : Alone c d) : Step ⟨c,l⟩ ⟨d,l⟩
  | served {c l l' q e next old r s' new} (served : Served srv n c.server e r s' new) :
      Step ⟨c,l++⟨q,.call e next,old⟩::l'⟩ ⟨{ c with server := s' },l++⟨q,next r,new++old⟩::l'⟩
  | refused {c l l' q e next old} {err : ApiError}
      (reason : err.reason ≠ .notFound ∧ err.reason ≠ .alreadyExists) :
      Step ⟨c,l++⟨q,.call e next,old⟩::l'⟩ ⟨c,l++⟨q,next (refused err e),old⟩::l'⟩

inductive Reachable : State σ → Prop
  | init {w} (started : σ.start w) : Reachable ⟨⟨⟨[],0⟩,w,[],none⟩,[]⟩
  | step {c d} (before : Reachable c) (moved : Step lib srv n σ c d) : Reachable d

end protocol

/-! ## What a request does -/

section handling
variable {lib : Externals} {srv : Server} {n : String} {x : Handling}

/-- The stages of a request. -/
inductive Stage (lib : Externals) (srv : Server) (n : String) (x : Handling) : Prop
  | listing {req} (post : x.request.method = "POST") (body : x.request.body = some req)
      (rest : x.rest = Server.losantSyncName >>= srv.handleAction lib req)
  | connecting {ttl} (connect : x.request.asks "connect") (rest : x.rest = srv.handleConnect n ttl)
  | looking (disconnect : x.request.asks "disconnect") (rest : x.rest = srv.handleDisconnect n)
  | deleting {next} (disconnect : x.request.asks "disconnect")
      (rest : x.rest = .call (.delete ⟨srv.namespace_,n⟩) next) (last : ∀ r, ∃ a, next r = .done a)
  | answered {a} (rest : x.rest = .done a)

theorem granted_of_call {e next} (h : x.rest = .call e next) : x.granted = false := by
  simp [Handling.granted,Handling.answered,h]

theorem Request.asks_unique {q : Request} {a b : String} (ha : q.asks a) (hb : q.asks b) :
    a = b := by
  obtain ⟨-,req,hreq,rfl⟩ := ha
  obtain ⟨-,req',hreq',rfl⟩ := hb
  rw [hreq] at hreq'
  rw [Option.some.inj hreq']

theorem granted_of_disconnect (h : x.request.asks "disconnect") : x.granted = false := by
  have hc : ¬ x.request.asks "connect" := by
    intro hc
    exact absurd (Request.asks_unique hc h) (by decide)
  simp [Handling.granted,hc]

theorem granted_of_connect (h : x.request.asks "connect") (hrest : x.rest = .done ⟨202,""⟩) :
    x.granted = true := by
  simp [Handling.granted,Handling.answered,h,hrest]

theorem granted_of_status {a : Response} (h : x.rest = .done a) (ha : a.status ≠ 202) :
    x.granted = false := by
  simp [Handling.granted,Handling.answered,h,ha]

/-- What a call does to the session: nothing; it creates one, and then the request is a connect
answered 202; or it is the Delete of a disconnect. -/
inductive Does (s s' : Kube.Server rancherSession) (y : Handling) : Prop
  | nothing (server : s' = s) (granted : y.granted = false)
  | creates (o : RancherSession) (edited : Server.Edited s s') (server : s' = s.store o)
      (absent : s.current = none) (live : o.metadata.deletionTimestamp = none)
      (granted : y.granted = true)
  | deletes (cur : RancherSession) (x : Option RancherSession) (edited : Server.Edited s s')
      (server : s'.log = x::s.log) (present : s.current = some cur)
      (same : ∀ o, x = some o → o.metadata.uid = cur.metadata.uid)
      (disconnect : y.request.asks "disconnect") (recorded : cur.metadata.uid ∈ y.deleted)

/-- A request that arrives is refused at once or asks for the name. -/
theorem stage_arrived (q : Request) : Stage lib srv n ⟨q,srv.handleRancher lib q,[]⟩ ∧
    (⟨q,srv.handleRancher lib q,[]⟩ : Handling).granted = false := by
  unfold Server.handleRancher
  split
  · refine ⟨.answered rfl,granted_of_status rfl ?_⟩
    simp [httpError]
  · rename_i hm
    have hpost : q.method = "POST" := not_not.mp hm
    cases hb : q.body with
    | none =>
      refine ⟨.answered rfl,granted_of_status rfl ?_⟩
      simp [httpError]
    | some req => exact ⟨.listing hpost hb rfl,granted_of_call rfl⟩

/-- With the name known, a request goes on to its action or is answered 400. -/
theorem stage_handleAction (lib : Externals) (srv : Server) (n : String) (old : List ℕ)
    {q : Request} {req : RancherRequest} (hpost : q.method = "POST") (hbody : q.body = some req) :
    Stage lib srv n ⟨q,srv.handleAction lib req (.ok n),old⟩ ∧
      (⟨q,srv.handleAction lib req (.ok n),old⟩ : Handling).granted = false := by
  simp only [Server.handleAction]
  split
  · rename_i h
    exact ⟨.connecting ⟨hpost,req,hbody,h⟩ rfl,granted_of_call rfl⟩
  · split
    · rename_i h
      exact ⟨.looking ⟨hpost,req,hbody,h⟩ rfl,granted_of_call rfl⟩
    · refine ⟨.answered rfl,granted_of_status rfl ?_⟩
      simp [httpError]

theorem Stage.served {s s' : Kube.Server rancherSession} {e next r new} (hx : Stage lib srv n x)
    (hrest : x.rest = .call e next) (hs : Served srv n s e r s' new) :
    Stage lib srv n ⟨x.request,next r,new++x.deleted⟩ ∧
      Does s s' ⟨x.request,next r,new++x.deleted⟩ := by
  cases hx with
  | listing hpost hbody h =>
    cases h.symm.trans hrest
    cases hs with
    | @listed l hone =>
      obtain ⟨ls,rfl,hls⟩ : ∃ ls, l = [ls] ∧ ls.metadata.name = n := by
        simpa [List.map_eq_singleton_iff] using hone
      subst hls
      obtain ⟨hstage,hg⟩ := stage_handleAction lib srv ls.metadata.name x.deleted hpost hbody
      exact ⟨hstage,.nothing rfl hg⟩
    | elsewhere hkey hcall => cases hcall
  | connecting hq h =>
    cases h.symm.trans hrest
    cases hs with
    | created o ha hf hb hn =>
      exact ⟨.answered rfl,.creates o (.create o ha hf hb) rfl ha hb.2.1
        (granted_of_connect hq rfl)⟩
    | taken hp hreason =>
      refine ⟨.answered (if_pos hreason),.nothing rfl (granted_of_status (if_pos hreason) ?_)⟩
      simp [httpError]
    | elsewhere hkey hcall => exact absurd rfl (hkey _ rfl)
  | looking hq h =>
    cases h.symm.trans hrest
    cases hs with
    | found hname =>
      subst hname
      refine ⟨.deleting hq rfl ?_,.nothing rfl (granted_of_disconnect hq)⟩
      intro r
      match (r : Except ApiError Unit) with
      | .ok _ => exact ⟨_,rfl⟩
      | .error err =>
        by_cases hreason : err.reason = .notFound
        · exact ⟨_,if_pos hreason⟩
        · exact ⟨_,if_neg hreason⟩
    | notFound hreason =>
      exact ⟨.answered (if_pos hreason),.nothing rfl (granted_of_disconnect hq)⟩
    | elsewhere hkey hcall => exact absurd rfl (hkey _ rfl)
  | deleting hq h hlast =>
    cases h.symm.trans hrest
    obtain ⟨a,ha⟩ := hlast r
    refine ⟨.answered ha,?_⟩
    cases hs with
    | removed hp hf =>
      exact .deletes _ none (.remove hp hf) rfl hp (by simp) hq (by simp)
    | marked t hp hh hl =>
      refine .deletes _ _ (.markDeleted t hp hh hl) rfl hp ?_ hq (by simp)
      intro o ho
      rw [← Option.some.inj ho]
    | terminating hp hh hm => exact .nothing rfl (granted_of_disconnect hq)
    | gone ha hreason => exact .nothing rfl (granted_of_disconnect hq)
    | elsewhere hkey hcall => exact absurd rfl (hkey _ rfl)
  | answered h => cases h.symm.trans hrest

/-- A call that does not get through ends a request without a grant. -/
theorem Stage.refused {e next} {err : ApiError} (hx : Stage lib srv n x)
    (hrest : x.rest = .call e next) (hf : err.reason ≠ .notFound) (ha : err.reason ≠ .alreadyExists)
    (old : List ℕ) :
    Stage lib srv n ⟨x.request,next (Trigger.refused err e),old⟩ ∧
      (⟨x.request,next (Trigger.refused err e),old⟩ : Handling).granted = false := by
  cases hx with
  | listing hpost hbody h =>
    cases h.symm.trans hrest
    exact ⟨.answered rfl,granted_of_status (a := httpError _ 500) rfl (by simp [httpError])⟩
  | connecting hq h =>
    cases h.symm.trans hrest
    refine ⟨.answered (if_neg ha),granted_of_status (if_neg ha) ?_⟩
    simp [httpError]
  | looking hq h =>
    cases h.symm.trans hrest
    exact ⟨.answered (if_neg hf),granted_of_disconnect hq⟩
  | deleting hq h hlast =>
    cases h.symm.trans hrest
    obtain ⟨a,hnext⟩ := hlast (.error err)
    exact ⟨.answered hnext,granted_of_disconnect hq⟩
  | answered h => cases h.symm.trans hrest

end handling

/-! ## What a step does -/

def granted (l : List Handling) : ℕ := l.countP Handling.granted

/-- How often the session was removed. -/
def removals (s : Kube.Server rancherSession) : ℕ := s.log.countP Option.isNone

/-- Some disconnect issued a Delete that was served on the session with this uid. -/
def Deleted (l : List Handling) (uid : ℕ) : Prop :=
  ∃ x ∈ l, x.request.asks "disconnect" ∧ uid ∈ x.deleted

section state
variable {lib : Externals} {srv : Server} {n : String}
  {σ : System rancherSession Session.calls (Except String Result)} {c d : State σ}

/-- Everything a step can do to the session, with what it does to the number of grants. -/
inductive Moved (c d : State σ) : Prop
  | kept (log : d.controller.server.log = c.controller.server.log)
      (granted : granted d.requests = granted c.requests)
  | created {o : RancherSession} (log : d.controller.server.log = some o::c.controller.server.log)
      (absent : c.controller.server.current = none) (live : o.metadata.deletionTimestamp = none)
      (granted : granted d.requests = granted c.requests+1)
  | stored {o b : RancherSession} (log : d.controller.server.log = some o::c.controller.server.log)
      (present : c.controller.server.current = some b) (uid : o.metadata.uid = b.metadata.uid)
      (marked : o.metadata.deletionTimestamp.isSome →
        b.metadata.deletionTimestamp.isSome ∨ Deleted d.requests b.metadata.uid)
      (granted : granted d.requests = granted c.requests)
  | removed {b : RancherSession} (log : d.controller.server.log = none::c.controller.server.log)
      (present : c.controller.server.current = some b)
      (asked : b.metadata.deletionTimestamp.isSome ∨ Deleted d.requests b.metadata.uid)
      (granted : granted d.requests = granted c.requests)

theorem granted_update {x y : Handling} (l l' : List Handling) (hx : x.granted = false) :
    granted (l++y::l') = granted (l++x::l')+(if y.granted = true then 1 else 0) := by
  simp only [granted,List.countP_append,List.countP_cons,hx]
  simp
  omega

theorem deleted_update {x y : Handling} {l l' : List Handling} {uid : ℕ}
    (h : Deleted (l++x::l') uid) (hq : y.request = x.request)
    (hd : ∀ u ∈ x.deleted, u ∈ y.deleted) : Deleted (l++y::l') uid := by
  obtain ⟨z,hz,hzq,hzu⟩ := h
  simp only [List.mem_append,List.mem_cons] at hz
  rcases hz with hz | rfl | hz
  · exact ⟨z,by simp [hz],hzq,hzu⟩
  · exact ⟨y,by simp,hq ▸ hzq,hd uid hzu⟩
  · exact ⟨z,by simp [hz],hzq,hzu⟩

theorem Step.deleted (h : Step lib srv n σ c d) {uid : ℕ} (hu : Deleted c.requests uid) :
    Deleted d.requests uid := by
  cases h with
  | arrive q =>
    obtain ⟨x,hx,hxq⟩ := hu
    exact ⟨x,List.mem_cons_of_mem _ hx,hxq⟩
  | controller hm ha => exact hu
  | served hs =>
    refine deleted_update hu rfl ?_
    intro u hu
    exact List.mem_append_right _ hu
  | refused hr => exact deleted_update hu rfl (fun _ h => h)

theorem stages_update {x y : Handling} {l l' : List Handling}
    (hc : ∀ z ∈ l++x::l', Stage lib srv n z) (hy : Stage lib srv n x → Stage lib srv n y) :
    ∀ z ∈ l++y::l', Stage lib srv n z := by
  intro z hz
  simp only [List.mem_append,List.mem_cons] at hz
  rcases hz with hz | rfl | hz
  · exact hc z (by simp [hz])
  · exact hy (hc x (by simp))
  · exact hc z (by simp [hz])

theorem Step.stages (h : Step lib srv n σ c d) (hc : ∀ x ∈ c.requests, Stage lib srv n x) :
    ∀ x ∈ d.requests, Stage lib srv n x := by
  cases h with
  | arrive q =>
    intro x hx
    rcases List.mem_cons.mp hx with rfl | hx
    · exact (stage_arrived q).1
    · exact hc x hx
  | controller hm ha => exact hc
  | served hs => exact stages_update hc (fun hx => (hx.served rfl hs).1)
  | refused hr => exact stages_update hc (fun hx => (hx.refused rfl hr.1 hr.2 _).1)

/-- A user who leaves the session standing stores another state of it. -/
theorem edited_of_standing {s s' : Kube.Server rancherSession} (he : Server.Edited s s')
    (hst : standing s' = standing s) : ∃ o b : RancherSession, s'.log = some o::s.log ∧
      s.current = some b ∧ o.metadata.uid = b.metadata.uid ∧
      o.metadata.deletionTimestamp = b.metadata.deletionTimestamp := by
  cases he with
  | create o habsent hf hb =>
    rw [standing_of_current habsent] at hst
    cases hst
  | edit spec hp => exact ⟨_,_,rfl,hp,rfl,rfl⟩
  | annotate hp => exact ⟨_,_,rfl,hp,rfl,rfl⟩
  | remove hp hf =>
    rw [standing_of_current hp] at hst
    cases hst
  | markDeleted t hp hh hl =>
    rw [standing_of_current hp,Option.map_some,hl] at hst
    cases hst

/-- The reconciler removes the session only once it is marked, and otherwise keeps it. -/
theorem moved_of_written {a b : Config σ} {l : List Handling} (hw : Written a b) (ha : Alone a b) :
    Moved ⟨a,l⟩ ⟨b,l⟩ := by
  cases hw with
  | kept hlog => exact .kept hlog rfl
  | user he hjob hpast =>
    obtain ⟨o,b',hlog,hp,hu,hd⟩ := edited_of_standing he (ha hjob)
    exact .stored hlog hp hu (fun h => .inl (hd ▸ h)) rfl
  | status hjob hb hlatest hm hsp hadm hlog hafter hpast =>
    have hp := Server.current_eq_some.mpr ⟨_,hlatest⟩
    refine .stored hlog hp ?_ ?_ rfl
    · simp only [Object.stored,hm]
    · intro hd
      simp only [Object.stored,hm] at hd
      exact .inl hd
  | @object h o next b' l' x hjob hb hlatest hlog hgone hkept hafter hpast =>
    have hp := Server.current_eq_some.mpr ⟨_,hlatest⟩
    cases x with
    | none => exact .removed hlog hp (.inl (hgone rfl).1) rfl
    | some o' =>
      obtain rfl := hkept o' rfl
      exact .stored hlog hp rfl .inl rfl

theorem Step.moved (h : Step lib srv n σ c d) (hc : ∀ x ∈ c.requests, Stage lib srv n x)
    (hs : c.controller.Sound (Session.Permits lib) Session.Returns) : Moved c d := by
  cases h with
  | arrive q =>
    refine .kept rfl ?_
    simp [granted,(stage_arrived (n := n) q).2]
  | controller hm ha => exact moved_of_written (hs.written Session.Permits.disciplined hm) ha
  | @served c l l' q e next old r s' new hserved =>
    have hx := hc ⟨q,.call e next,old⟩ (by simp)
    have hg := granted_update (y := ⟨q,next r,new++old⟩) l l'
      (granted_of_call (x := ⟨q,.call e next,old⟩) rfl)
    cases (hx.served rfl hserved).2 with
    | nothing hserver hy =>
      subst hserver
      refine .kept rfl ?_
      simpa [hy] using hg
    | creates o he hserver habsent hlive hy =>
      subst hserver
      refine .created rfl habsent hlive ?_
      simpa [hy] using hg
    | deletes cur x he hserver hp hsame hq hrec =>
      have hdel : Deleted (l++⟨q,next r,new++old⟩::l') cur.metadata.uid := ⟨_,by simp,hq,hrec⟩
      have hy := granted_of_disconnect hq
      have hg : granted (l++⟨q,next r,new++old⟩::l') = granted (l++⟨q,.call e next,old⟩::l') := by
        simpa [hy] using hg
      cases x with
      | none => exact .removed hserver hp (.inr hdel) hg
      | some o => exact .stored hserver hp (hsame o rfl) (fun _ => .inr hdel) hg
  | @refused c l l' q e next old err hr =>
    have hx := hc ⟨q,.call e next,old⟩ (by simp)
    have hg := granted_update (y := ⟨q,next (Trigger.refused err e),old⟩) l l'
      (granted_of_call (x := ⟨q,.call e next,old⟩) rfl)
    have hy := (hx.refused rfl hr.1 hr.2 old).2
    refine .kept rfl ?_
    simpa [hy] using hg

/-- To the reconciler the requests are users. -/
theorem Step.controller_reachable (h : Step lib srv n σ c d)
    (hc : ∀ x ∈ c.requests, Stage lib srv n x) (hr : σ.Reachable c.controller) :
    σ.Reachable d.controller := by
  cases h with
  | arrive q => exact hr
  | controller hm ha => exact hr.step hm trivial
  | @served c l l' q e next old r s' new hserved =>
    have hx := hc ⟨q,.call e next,old⟩ (by simp)
    cases (hx.served rfl hserved).2 with
    | nothing hserver hy =>
      subst hserver
      exact hr
    | creates o he hserver habsent hlive hy => exact hr.step (.user he) trivial
    | deletes cur x he hserver hp hsame hq hrec => exact hr.step (.user he) trivial
  | refused hr' => exact hr

/-- What holds in every state of the protocol. -/
structure Inv (lib : Externals) (srv : Server) (n : String) (c : State σ) : Prop where
  controller : σ.Reachable c.controller
  stages : ∀ x ∈ c.requests, Stage lib srv n x
  balance : granted c.requests =
    removals c.controller.server+(if c.controller.server.current.isSome then 1 else 0)
  marked : ∀ o, c.controller.server.current = some o → o.metadata.deletionTimestamp.isSome →
    Deleted c.requests o.metadata.uid
  removed : ∀ o l, none::some o::l <:+ c.controller.server.log → Deleted c.requests o.metadata.uid

theorem Moved.balance (hm : Moved c d)
    (hb : granted c.requests =
      removals c.controller.server+(if c.controller.server.current.isSome then 1 else 0)) :
    granted d.requests =
      removals d.controller.server+(if d.controller.server.current.isSome then 1 else 0) := by
  cases hm with
  | kept hlog hg =>
    simp only [removals,Server.current,hlog,hg]
    exact hb
  | created hlog hp hl hg =>
    simp only [hp] at hb
    simpa [removals,Server.current,hlog,hg] using hb
  | stored hlog hp hu hm hg =>
    simp only [hp] at hb
    simpa [removals,Server.current,hlog,hg] using hb
  | removed hlog hp ha hg =>
    simp only [hp] at hb
    simpa [removals,Server.current,hlog,hg] using hb

theorem Moved.marked (hm : Moved c d) (h : Step lib srv n σ c d)
    (hc : ∀ o, c.controller.server.current = some o → o.metadata.deletionTimestamp.isSome →
      Deleted c.requests o.metadata.uid) {o : RancherSession}
    (ho : d.controller.server.current = some o) (hd : o.metadata.deletionTimestamp.isSome) :
    Deleted d.requests o.metadata.uid := by
  obtain ⟨l,hl⟩ := Server.current_eq_some.mp ho
  cases hm with
  | kept hlog hg => exact h.deleted (hc o (Server.current_eq_some.mpr ⟨l,hlog ▸ hl⟩) hd)
  | created hlog hp hlive hg =>
    obtain ⟨he,-⟩ := List.cons.inj (hlog.symm.trans hl)
    rw [← Option.some.inj he,hlive] at hd
    cases hd
  | stored hlog hp hu hm hg =>
    obtain ⟨he,-⟩ := List.cons.inj (hlog.symm.trans hl)
    obtain rfl := Option.some.inj he
    rw [hu]
    rcases hm hd with hb | hb
    · exact h.deleted (hc _ hp hb)
    · exact hb
  | removed hlog hp ha hg => cases (List.cons.inj (hlog.symm.trans hl)).1

theorem Moved.gone (hm : Moved c d) (h : Step lib srv n σ c d)
    (hmarked : ∀ o, c.controller.server.current = some o → o.metadata.deletionTimestamp.isSome →
      Deleted c.requests o.metadata.uid)
    (hc : ∀ o l, none::some o::l <:+ c.controller.server.log → Deleted c.requests o.metadata.uid)
    {o : RancherSession} {l : List (Option RancherSession)}
    (hl : none::some o::l <:+ d.controller.server.log) : Deleted d.requests o.metadata.uid := by
  cases hm with
  | kept hlog hg => exact h.deleted (hc o l (hlog ▸ hl))
  | created hlog hp hlive hg =>
    rcases List.suffix_cons_iff.mp (hlog ▸ hl) with he | hsuf
    · cases he
    · exact h.deleted (hc o l hsuf)
  | stored hlog hp hu hm hg =>
    rcases List.suffix_cons_iff.mp (hlog ▸ hl) with he | hsuf
    · cases he
    · exact h.deleted (hc o l hsuf)
  | @removed b hlog hp ha hg =>
    rcases List.suffix_cons_iff.mp (hlog ▸ hl) with he | hsuf
    · obtain ⟨l',hl'⟩ := Server.current_eq_some.mp hp
      have hob : some o::l = some b::l' := (List.cons.inj he).2.trans hl'
      obtain rfl : o = b := Option.some.inj (List.cons.inj hob).1
      rcases ha with hb | hb
      · exact h.deleted (hmarked o hp hb)
      · exact hb
    · exact h.deleted (hc o l hsuf)

theorem Inv.step (hmain : σ.main = Session.reconcile lib) (hc : Inv lib srv n c)
    (h : Step lib srv n σ c d) : Inv lib srv n d := by
  have hsound := System.Reachable.sound Session.Permits.disciplined
    (hmain ▸ Session.reconcile_obeys lib) hc.controller
  refine ⟨h.controller_reachable hc.stages hc.controller,h.stages hc.stages,?_,?_,?_⟩
  · exact (h.moved hc.stages hsound).balance hc.balance
  · intro o
    exact (h.moved hc.stages hsound).marked h hc.marked
  · intro o l
    exact (h.moved hc.stages hsound).gone h hc.marked hc.removed

theorem Reachable.inv (hmain : σ.main = Session.reconcile lib) (h : Reachable lib srv n σ c) :
    Inv lib srv n c := by
  induction h with
  | init hw => exact ⟨.init hw,by simp,rfl,by simp [Server.current],by simp⟩
  | step _ hm ih => exact ih.step hmain hm

/-- A call of a connect that is served while there is a session changes nothing: it is the one that
finds out the name, or the Create, and then the answer is 409. -/
theorem Stage.connect_taken {x : Handling} {s s' : Kube.Server rancherSession} {e next r new}
    (hx : Stage lib srv n x) (hq : x.request.asks "connect") (hrest : x.rest = .call e next)
    (hs : Served srv n s e r s' new) (hex : s.current.isSome) :
    s' = s ∧ (e = .listLosantSyncs ∧ (∃ ttl, next r = srv.handleConnect n ttl) ∨
      next r = .done ⟨409,"RancherSession already exists\n"⟩) := by
  cases hx with
  | @listing req hpost hbody h =>
    cases h.symm.trans hrest
    cases hs with
    | @listed l hone =>
      obtain ⟨ls,rfl,hls⟩ : ∃ ls, l = [ls] ∧ ls.metadata.name = n := by
        simpa [List.map_eq_singleton_iff] using hone
      obtain ⟨-,req',hreq,haction⟩ := hq
      obtain rfl : req = req' := Option.some.inj (hbody.symm.trans hreq)
      subst hls
      exact ⟨rfl,.inl ⟨rfl,req.ttlSeconds,if_pos haction⟩⟩
    | elsewhere hkey hcall => cases hcall
  | connecting hq h =>
    cases h.symm.trans hrest
    cases hs with
    | created o ha hf hb hn => simp [ha] at hex
    | taken hp hreason => exact ⟨rfl,.inr (if_pos hreason)⟩
    | elsewhere hkey hcall => exact absurd rfl (hkey _ rfl)
  | looking hd h => exact absurd (Request.asks_unique hq hd) (by decide)
  | deleting hd h hlast => exact absurd (Request.asks_unique hq hd) (by decide)
  | answered h => cases h.symm.trans hrest

/-- All requests are about one session. -/
theorem Stage.key {x : Handling} {e next k} (hx : Stage lib srv n x)
    (hrest : x.rest = .call e next) (hk : e.key? = some k) : k = ⟨srv.namespace_,n⟩ := by
  cases hx with
  | listing hpost hbody h =>
    cases h.symm.trans hrest
    cases hk
  | connecting hq h =>
    cases h.symm.trans hrest
    exact (Option.some.inj hk).symm
  | looking hq h =>
    cases h.symm.trans hrest
    exact (Option.some.inj hk).symm
  | deleting hq h hlast =>
    cases h.symm.trans hrest
    exact (Option.some.inj hk).symm
  | answered h => cases h.symm.trans hrest

/-- All requests are about the one session of the API server. Connects that were granted outnumber
removals by one while it exists and by none while it does not; a connect whose calls come while it
exists is answered 409 and changes nothing; and a session that was removed had been deleted by a
disconnect. -/
theorem trigger_protocol (hmain : σ.main = Session.reconcile lib) (h : Reachable lib srv n σ c) :
    (∀ x ∈ c.requests, ∀ e next, x.rest = .call e next →
      ∀ k, e.key? = some k → k = ⟨srv.namespace_,n⟩) ∧
    (granted c.requests : ℤ)-removals c.controller.server =
      (if c.controller.server.current.isSome then 1 else 0) ∧
    (∀ x ∈ c.requests, x.request.asks "connect" → ∀ e next, x.rest = .call e next →
      c.controller.server.current.isSome → ∀ r s' new, Served srv n c.controller.server e r s' new →
      s' = c.controller.server ∧
        (e = .listLosantSyncs ∧ (∃ ttl, next r = srv.handleConnect n ttl) ∨
          next r = .done ⟨409,"RancherSession already exists\n"⟩)) ∧
    ∀ o l, none::some o::l <:+ c.controller.server.log → Deleted c.requests o.metadata.uid := by
  have hinv := h.inv hmain
  refine ⟨?_,?_,?_,hinv.removed⟩
  · intro x hx e next hrest k hk
    exact (hinv.stages x hx).key hrest hk
  · rw [hinv.balance]
    split
    · simp
    · simp
  · intro x hx hq e next hrest hex r s' new hs
    exact (hinv.stages x hx).connect_taken hq hrest hs hex

/-! A request that is handled alone gets through. -/

/-- The LosantSync the session is named after. -/
def sync (n : String) : LosantSync where
  metadata := ⟨n,0,1,1,[],none⟩
  spec := { applicationID := "app", provisioningSecretRef := ⟨"losant","losant-system"⟩
            clusterName := n, region := "", gea := ⟨"gea",8080,""⟩ }
  status := {}

theorem Reachable.named (h : Reachable lib srv n σ c) {q : Request} {req : RancherRequest}
    (hpost : q.method = "POST") (hbody : q.body = some req) :
    Reachable lib srv n σ
      ⟨c.controller,⟨q,srv.handleAction lib req (.ok n),[]⟩::c.requests⟩ := by
  have hq : srv.handleRancher lib q = Server.losantSyncName >>= srv.handleAction lib req := by
    simp [Server.handleRancher,hpost,hbody]
  have harrive := h.step (.arrive q)
  rw [hq] at harrive
  have hlisted : Served srv n c.controller.server .listLosantSyncs (.ok [sync n]) _ [] :=
    .listed rfl
  exact harrive.step (.served (l := []) hlisted)

theorem Reachable.connecting (h : Reachable lib srv n σ c) {q : Request} {req : RancherRequest}
    (hpost : q.method = "POST") (hbody : q.body = some req) (haction : req.action = "connect") :
    Reachable lib srv n σ
      ⟨c.controller,⟨q,srv.handleConnect n req.ttlSeconds,[]⟩::c.requests⟩ := by
  have hn := h.named hpost hbody
  simp only [Server.handleAction,haction,if_true] at hn
  exact hn

theorem Reachable.connected (h : Reachable lib srv n σ c) {q : Request} (hq : q.asks "connect")
    (habsent : c.controller.server.current = none) : ∃ d, Reachable lib srv n σ d ∧
      d.requests = ⟨q,.done ⟨202,""⟩,[]⟩::c.requests ∧
      ∃ o : RancherSession, o.metadata.finalizers = [] ∧
        d.controller.server.log = some o::c.controller.server.log := by
  obtain ⟨hpost,req,hbody,haction⟩ := hq
  have hc := h.connecting hpost hbody haction
  obtain ⟨u,hu⟩ := Infinite.exists_notMem_finset
    (c.controller.server.log.filterMap (Option.map fun o => o.metadata.uid)).toFinset
  have hfresh : ∀ o', some o' ∈ c.controller.server.log → o'.metadata.uid ≠ u := by
    intro o' ho' he
    apply hu
    simp only [List.mem_toFinset,List.mem_filterMap]
    exact ⟨some o',ho',congrArg some he⟩
  refine ⟨_,hc.step (.served (l := []) (.created ⟨⟨n,u,0,1,[],none⟩,_,{}⟩ habsent hfresh
    ⟨rfl,rfl,rfl⟩ ⟨rfl,rfl⟩)),rfl,_,?_,rfl⟩
  rfl

theorem Reachable.disconnected (h : Reachable lib srv n σ c) {q : Request}
    (hq : q.asks "disconnect") {o : RancherSession} (hp : c.controller.server.current = some o)
    (hfree : o.metadata.finalizers = []) : ∃ d, Reachable lib srv n σ d ∧
      d.requests = ⟨q,.done ⟨202,""⟩,[o.metadata.uid]⟩::c.requests ∧
      d.controller.server.log = none::c.controller.server.log := by
  obtain ⟨hpost,req,hbody,haction⟩ := hq
  have hn := h.named hpost hbody
  simp only [Server.handleAction,haction,if_true] at hn
  have hget : Served srv n c.controller.server (.get ⟨srv.namespace_,n⟩)
    (.ok ⟨⟨n,0,0,1,[],none⟩,{ credentialsSecretRef := ⟨"",""⟩ },{}⟩) _ [] := .found rfl
  have hlooked := hn.step (.served (l := []) hget)
  exact ⟨_,hlooked.step (.served (l := []) (.removed hp hfree)),rfl,rfl⟩

end state

/-- A connect, a disconnect and another connect, and one more that has found out the name while the
second session exists. -/
theorem trigger_protocol_reconnected : ∃ c : State (Session.system .plain),
    Reachable .plain ⟨"losant-system"⟩ "edge" (Session.system .plain) c ∧
    c.controller.server.current.isSome ∧ removals c.controller.server = 1 ∧
    (∃ x ∈ c.requests, x.request.asks "connect" ∧
      x.rest = Server.handleConnect ⟨"losant-system"⟩ "edge" 0) ∧
    (granted c.requests : ℤ)-removals c.controller.server = 1 ∧
    ∃ o l, none::some o::l <:+ c.controller.server.log ∧ Deleted c.requests o.metadata.uid := by
  have hstart : (Session.system .plain).start (⟨[],[],[],false⟩ : Session.World) := by
    simp [Session.system]
  have h₀ : Reachable .plain ⟨"losant-system"⟩ "edge" (Session.system .plain) _ := .init hstart
  obtain ⟨c₁,h₁,-,o,hfree,hlog₁⟩ := h₀.connected (q := ⟨"POST",some ⟨"connect",0⟩⟩) (by decide) rfl
  obtain ⟨c₂,h₂,-,hlog₂⟩ := h₁.disconnected (q := ⟨"POST",some ⟨"disconnect",0⟩⟩) (by decide)
    (Server.current_eq_some.mpr ⟨_,hlog₁⟩) hfree
  obtain ⟨c₃,h₃,-,o',-,hlog₃⟩ := h₂.connected (q := ⟨"POST",some ⟨"connect",0⟩⟩) (by decide)
    (by rw [Server.current,hlog₂]; rfl)
  have h₄ := h₃.connecting (q := ⟨"POST",some ⟨"connect",0⟩⟩) rfl rfl rfl
  have hex : c₃.controller.server.current.isSome := by
    rw [Server.current_eq_some.mpr ⟨_,hlog₃⟩]
    rfl
  obtain ⟨-,hbalance,-,hdeleted⟩ := trigger_protocol rfl h₄
  rw [if_pos hex] at hbalance
  have hgone : none::some o::[] <:+ c₃.controller.server.log := by
    rw [hlog₃,hlog₂,hlog₁]
    exact List.suffix_cons _ _
  refine ⟨_,h₄,hex,?_,⟨_,List.mem_cons_self,by decide,rfl⟩,hbalance,o,[],hgone,hdeleted o [] hgone⟩
  simp [removals,hlog₃,hlog₂,hlog₁]

end LosantDevice.Trigger

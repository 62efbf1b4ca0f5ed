import LosantDevice.Sync.Reconcile

/-!
# Releasing workflows

What `ensureWorkflowDeployments` does, said without its loop and its map, and what becomes of the
desired versions in Losant when it is run again and again.
-/
namespace LosantDevice.Sync
open Effect Kube Go Program
open Losant (EdgeDeploymentStatus)

/-- The last item that is listed for a flow; versions that are not listed are empty. -/
def lastListed (deployments : List EdgeDeploymentStatus) (f : String) : EdgeDeploymentStatus :=
  (deployments.filter (·.flowID = f)).getLast?.getD {}

/-- The entries whose version is not the desired one. -/
def due (current : String → EdgeDeploymentStatus) (wds : List WorkflowDeployment) :
    List WorkflowDeployment :=
  wds.filter (fun wd => (current wd.flowID).desiredVersion ≠ wd.version)

/-- Every version is desired and running. -/
def Confirmed (current : String → EdgeDeploymentStatus) (wds : List WorkflowDeployment) : Prop :=
  ∀ wd ∈ wds, (current wd.flowID).desiredVersion = wd.version ∧
    (current wd.flowID).currentVersion = wd.version

instance (current : String → EdgeDeploymentStatus) (wds : List WorkflowDeployment) :
    Decidable (Confirmed current wds) := inferInstanceAs (Decidable (∀ wd ∈ wds, _ ∧ _))

/-- A release and its outcome. -/
abbrev Attempt := WorkflowDeployment × Except Losant.Error Unit

/-- The reason and the message for a release that has failed. -/
def releaseFailure (wd : WorkflowDeployment) (err : Losant.Error) : String × String :=
  if err.workflowNotFound then
    ("WorkflowNotFound","flowId " ++ wd.flowID ++ " version " ++ wd.version ++
      " not found in Losant")
  else ("ReleaseFailed",err.text)

/-- The releases are those that are due, in their order, up to and with the first that fails. -/
def Attempted (dues : List WorkflowDeployment) (l : List Attempt) : Option (String × String) → Prop
  | none => l = dues.map (fun wd => (wd,.ok ()))
  | some e => ∃ before wd after err, dues = before ++ wd::after ∧
      l = before.map (fun wd => (wd,.ok ())) ++ [(wd,.error err)] ∧ e = releaseFailure wd err

section correct
variable (lc : Losant.HTTPClient) (ls : LosantSync) (s : Strategy interface) (h : History interface)

def releaseEvent (a : Attempt) : Event interface :=
  ⟨.inr (.losant lc (.releaseWorkflow ls.spec.applicationID ls.status.clusterDeviceID a.1.flowID
    a.1.version)),a.2⟩

/-- The outcome of `GetEdgeDeployments`. -/
def listing : Except Losant.Error (List EdgeDeploymentStatus) :=
  s h (.inr (.losant lc (.getEdgeDeployments ls.spec.applicationID ls.status.clusterDeviceID)))

def afterListing : History interface :=
  ⟨.inr (.losant lc (.getEdgeDeployments ls.spec.applicationID ls.status.clusterDeviceID)),
    listing lc ls s h⟩::h

def verdict (confirmed : Bool) : String × String :=
  if confirmed then ("Deployed","all workflow versions confirmed deployed")
  else ("DeploymentPending","release queued, awaiting GEA confirmation")

/-- All calls that are made, in their order, and the result. -/
structure WorkflowsEnsured : Prop where
  unasked : ls.spec.workflowDeployments = [] →
    run s h (ensureWorkflowDeployments lc ls) = (h,.ok ("",""))
  unlisted : ls.spec.workflowDeployments ≠ [] → ∀ err, listing lc ls s h = .error err →
    run s h (ensureWorkflowDeployments lc ls) =
      (afterListing lc ls s h,.error ("ReleaseFailed",err.text))
  listed : ls.spec.workflowDeployments ≠ [] → ∀ deployments, listing lc ls s h = .ok deployments →
    ∃ l e, Attempted (due (lastListed deployments) ls.spec.workflowDeployments) l e ∧
      run s h (ensureWorkflowDeployments lc ls) =
        ((l.map (releaseEvent lc ls)).reverse ++ afterListing lc ls s h,
          match e with
          | some e => .error e
          | none => .ok (verdict (decide
              (Confirmed (lastListed deployments) ls.spec.workflowDeployments))))

end correct

theorem lookup_byFlowID (deployments : List EdgeDeploymentStatus) (f : String) :
    (byFlowID deployments).lookup f = (deployments.filter (·.flowID = f)).getLast? := by
  induction deployments using List.reverseRecOn with
  | nil => rfl
  | append_singleton l d ih =>
    have hsnoc : byFlowID (l ++ [d]) = (byFlowID l).insert d.flowID d := by
      simp [byFlowID,List.foldl_append]
    rw [hsnoc,List.filter_append]
    by_cases hf : d.flowID = f
    · subst hf
      simp
    · rw [Finmap.lookup_insert_of_ne _ (Ne.symm hf),ih]
      simp [hf]

theorem lookup_byFlowID_getD (deployments : List EdgeDeploymentStatus) (f : String) :
    ((byFlowID deployments).lookup f).getD {} = lastListed deployments f := by
  rw [lookup_byFlowID]
  rfl

theorem Attempted.cons {wd : WorkflowDeployment} {dues : List WorkflowDeployment} {l : List Attempt}
    {e : Option (String × String)} (h : Attempted dues l e) :
    Attempted (wd::dues) ((wd,.ok ())::l) e := by
  cases e with
  | none =>
    cases (show l = _ from h)
    rfl
  | some e =>
    obtain ⟨before,wd',after,err,rfl,rfl,he⟩ := h
    exact ⟨wd::before,wd',after,err,rfl,rfl,he⟩

section loop
variable {lc : Losant.HTTPClient} {ls : LosantSync} {s : Strategy interface}
  {current : GoMap EdgeDeploymentStatus} {cur : String → EdgeDeploymentStatus}

/-- The loop, from any point on. -/
theorem run_releaseWorkflows (hcur : ∀ f, (current.lookup f).getD {} = cur f)
    (wds : List WorkflowDeployment) (flag : Bool) (h : History interface) : ∃ l e,
      Attempted (due cur wds) l e ∧ run s h (releaseWorkflows lc ls current wds flag) =
        ((l.map (releaseEvent lc ls)).reverse ++ h,
          match e with
          | some e => .error e
          | none => .ok (flag && decide (Confirmed cur wds))) := by
  induction wds generalizing flag h with
  | nil => exact ⟨[],none,rfl,by simp [releaseWorkflows,Confirmed]⟩
  | cons wd rest ih =>
    unfold releaseWorkflows
    rw [hcur]
    by_cases hdes : (cur wd.flowID).desiredVersion = wd.version
    · have hdue : due cur (wd::rest) = due cur rest := by simp [due,hdes]
      rw [hdue,if_neg (not_not_intro hdes)]
      by_cases hrun : (cur wd.flowID).currentVersion = wd.version
      · rw [if_neg (not_not_intro hrun)]
        have hconf : Confirmed cur (wd::rest) ↔ Confirmed cur rest := by
          simp [Confirmed,hdes,hrun]
        simpa only [hconf] using ih flag h
      · rw [if_pos hrun]
        have hconf : ¬Confirmed cur (wd::rest) := by simp [Confirmed,hrun]
        simpa only [hconf,decide_false,Bool.and_false,Bool.false_and] using ih false h
    · have hdue : due cur (wd::rest) = wd::due cur rest := by simp [due,hdes]
      have hconf : ¬Confirmed cur (wd::rest) := by simp [Confirmed,hdes]
      rw [hdue,if_pos hdes]
      obtain ⟨r,hr⟩ : ∃ r : Except Losant.Error Unit, s h (.inr (.losant lc (.releaseWorkflow
          ls.spec.applicationID ls.status.clusterDeviceID wd.flowID wd.version))) = r := ⟨_,rfl⟩
      cases r with
      | error err =>
        refine ⟨[(wd,.error err)],some (releaseFailure wd err),
          ⟨[],wd,due cur rest,err,rfl,rfl,rfl⟩,?_⟩
        refine (run_answer (h := h) hr).trans ?_
        change run s _ (if err.workflowNotFound then _ else _) = _
        unfold releaseFailure
        split
        · rfl
        · rfl
      | ok u =>
        obtain ⟨l,e,hl,hrun⟩ := ih false (releaseEvent lc ls (wd,.ok ())::h)
        refine ⟨(wd,.ok ())::l,e,hl.cons,?_⟩
        refine (run_answer (h := h) hr).trans (hrun.trans ?_)
        simp [hconf]

end loop

/-- For every spec, every list from Losant and every outcome of the calls. -/
theorem ensureWorkflowDeployments_correct (lc : Losant.HTTPClient) (ls : LosantSync)
    (s : Strategy interface) (h : History interface) : WorkflowsEnsured lc ls s h where
  unasked hspec := by
    unfold ensureWorkflowDeployments
    rw [if_pos hspec]
    rfl
  unlisted hspec err herr := by
    unfold ensureWorkflowDeployments afterListing
    rw [if_neg hspec,herr]
    exact (run_answer (h := h) herr).trans rfl
  listed hspec deployments hlist := by
    obtain ⟨l,e,hl,hrun⟩ := run_releaseWorkflows (lookup_byFlowID_getD deployments)
      ls.spec.workflowDeployments true (afterListing lc ls s h)
    refine ⟨l,e,hl,?_⟩
    unfold ensureWorkflowDeployments
    unfold afterListing at hrun ⊢
    rw [if_neg hspec]
    rw [hlist] at hrun ⊢
    refine (run_answer (h := h) hlist).trans ?_
    change run s _ (releaseWorkflows lc ls (byFlowID deployments) _ true >>= _) = _
    rw [run_bind,hrun]
    cases e with
    | some e => rfl
    | none => cases decide (Confirmed (lastListed deployments) ls.spec.workflowDeployments) <;> rfl

/-! ## Passes over one list -/

/-- The workflows that Losant lists for the device, each flow once, and the releases that were asked
for, the latest first. -/
structure Edge where
  items : List EdgeDeploymentStatus
  once : (items.map (·.flowID)).Nodup
  released : List WorkflowDeployment

namespace Edge

def desired (w : Edge) (f : String) : String := (lastListed w.items f).desiredVersion

/-- A release makes its version the desired one of its flow. Whether calls may fail is a parameter;
what a release that failed has done is not known. -/
def serve (mayFail : Prop) (w : Edge) : (e : interface.Call) → interface.Answer e → Edge → Prop
  | .inr (.losant _ (.getEdgeDeployments _ _)),r,w' =>
    w' = w ∧ (r = .ok w.items ∨ mayFail ∧ ∃ err, r = .error err)
  | .inr (.losant _ (.releaseWorkflow _ _ f v)),r,w' =>
    w'.released = ⟨f,v⟩::w.released ∧
      (r = .ok () ∧ w'.desired = Function.update w.desired f v ∨ mayFail ∧ ∃ err, r = .error err)
  | _,_,_ => False

/-- Whatever happens besides, the desired versions stay. -/
def Others (w w' : Edge) : Prop := w'.desired = w.desired ∧ w'.released = w.released

end Edge

/-- A pass of `ensureWorkflowDeployments`. -/
def Pass (mayFail : Prop) (lc : Losant.HTTPClient) (ls : LosantSync) (w w' : Edge) : Prop :=
  ∃ r, Runs (Edge.serve mayFail) Edge.Others (ensureWorkflowDeployments lc ls) w r w'

/-- What comes after a pass: other passes, and other changes. -/
def Later (lc : Losant.HTTPClient) (ls : LosantSync) : Edge → Edge → Prop :=
  Relation.ReflTransGen (fun w w' => Pass True lc ls w w' ∨ Edge.Others w w')

/-- No flow is to have two versions. -/
def Consistent (wds : List WorkflowDeployment) : Prop :=
  ∀ a ∈ wds, ∀ b ∈ wds, a.flowID = b.flowID → a.version = b.version

instance (wds : List WorkflowDeployment) : Decidable (Consistent wds) :=
  inferInstanceAs (Decidable (∀ a ∈ wds, ∀ b ∈ wds, _ → _))

/-- The desired versions after some releases. -/
def releaseAll (desired : String → String) (l : List WorkflowDeployment) : String → String :=
  l.foldl (fun d wd => Function.update d wd.flowID wd.version) desired

theorem releaseAll_cases (desired : String → String) (l : List WorkflowDeployment) (f : String) :
    (∃ wd ∈ l, wd.flowID = f ∧ releaseAll desired l f = wd.version) ∨
      (∀ wd ∈ l, wd.flowID ≠ f) ∧ releaseAll desired l f = desired f := by
  induction l generalizing desired with
  | nil => exact .inr ⟨nofun,rfl⟩
  | cons wd l ih =>
    rcases ih (Function.update desired wd.flowID wd.version) with ⟨wd',hwd',hf,heq⟩ | ⟨hne,heq⟩
    · exact .inl ⟨wd',List.mem_cons_of_mem _ hwd',hf,heq⟩
    · by_cases hf : wd.flowID = f
      · subst hf
        exact .inl ⟨wd,List.mem_cons_self,rfl,heq.trans (Function.update_self _ _ _)⟩
      · refine .inr ⟨List.forall_mem_cons.mpr ⟨hf,hne⟩,heq.trans ?_⟩
        exact Function.update_of_ne (Ne.symm hf) _ _

section passes
variable {lc : Losant.HTTPClient} {ls : LosantSync} {w w' : Edge}

theorem Edge.others_all (h : Relation.ReflTransGen Edge.Others w w') : Edge.Others w w' := by
  induction h with
  | refl => exact ⟨rfl,rfl⟩
  | tail _ hs ih => exact ⟨hs.1.trans ih.1,hs.2.trans ih.2⟩

/-- The entries that a pass releases. -/
def Edge.due (w : Edge) (wds : List WorkflowDeployment) : List WorkflowDeployment :=
  Sync.due (lastListed w.items) wds

/-- Only the desired versions count. -/
theorem Edge.due_congr (h : w'.desired = w.desired) (wds : List WorkflowDeployment) :
    w'.due wds = w.due wds := by
  change wds.filter (fun wd => w'.desired wd.flowID ≠ wd.version) =
    wds.filter (fun wd => w.desired wd.flowID ≠ wd.version)
  rw [h]

theorem releaseWorkflows_releases {current : GoMap EdgeDeploymentStatus}
    {cur : String → EdgeDeploymentStatus} (hcur : ∀ f, (current.lookup f).getD {} = cur f)
    {wds : List WorkflowDeployment} {flag : Bool} {r : Except (String × String) Bool}
    (h : Runs (Edge.serve False) Edge.Others (releaseWorkflows lc ls current wds flag) w r w') :
    w'.released = (Sync.due cur wds).reverse ++ w.released ∧
      w'.desired = releaseAll w.desired (Sync.due cur wds) := by
  induction wds generalizing flag w with
  | nil =>
    obtain ⟨-,hothers⟩ := h.done_inv
    obtain ⟨hdesired,hreleased⟩ := Edge.others_all hothers
    exact ⟨hreleased,hdesired⟩
  | cons wd rest ih =>
    unfold releaseWorkflows at h
    rw [hcur] at h
    by_cases hdes : (cur wd.flowID).desiredVersion = wd.version
    · have hdue : Sync.due cur (wd::rest) = Sync.due cur rest := by simp [Sync.due,hdes]
      rw [if_neg (not_not_intro hdes)] at h
      rw [hdue]
      split at h
      · exact ih h
      · exact ih h
    · have hdue : Sync.due cur (wd::rest) = wd::Sync.due cur rest := by simp [Sync.due,hdes]
      rw [if_pos hdes] at h
      obtain ⟨w₁,r₁,w₂,hothers,⟨hlog,hserve⟩,hrest⟩ := h.call_inv
      obtain ⟨hdesired,hreleased⟩ := Edge.others_all hothers
      obtain ⟨rfl,hupdate⟩ := hserve.resolve_right (fun hf => hf.1)
      obtain ⟨hrel,hdes'⟩ := ih hrest
      rw [hdue]
      constructor
      · rw [hrel,hlog,hreleased]
        simp
      · rw [hdes',hupdate,hdesired]
        rfl

/-- A pass in which every call succeeds. -/
theorem Pass.releases (h : Pass False lc ls w w') :
    w'.released = (w.due ls.spec.workflowDeployments).reverse ++ w.released ∧
      w'.desired = releaseAll w.desired (w.due ls.spec.workflowDeployments) := by
  obtain ⟨r,h⟩ := h
  unfold ensureWorkflowDeployments at h
  by_cases hspec : ls.spec.workflowDeployments = []
  · rw [if_pos hspec] at h
    obtain ⟨-,hothers⟩ := h.done_inv
    obtain ⟨hdesired,hreleased⟩ := Edge.others_all hothers
    rw [hspec]
    exact ⟨hreleased,hdesired⟩
  · rw [if_neg hspec] at h
    obtain ⟨w₁,r₁,w₂,hothers,⟨rfl,hserve⟩,hrest⟩ := h.call_inv
    obtain ⟨hdesired,hreleased⟩ := Edge.others_all hothers
    obtain rfl := hserve.resolve_right (fun hf => hf.1)
    change Runs _ _ (releaseWorkflows lc ls (byFlowID w₂.items) _ true >>= _) _ _ _ at hrest
    obtain ⟨r₂,w₃,hloop,hend⟩ := hrest.bind_inv
    obtain ⟨hrel,hdes⟩ := releaseWorkflows_releases (lookup_byFlowID_getD w₂.items) hloop
    have hdue : Sync.due (lastListed w₂.items) ls.spec.workflowDeployments =
        w.due ls.spec.workflowDeployments := Edge.due_congr hdesired _
    have hothers' : Edge.Others w₃ w' := by
      cases r₂ with
      | error e => exact Edge.others_all hend.done_inv.2
      | ok b => cases b <;> exact Edge.others_all hend.done_inv.2
    rw [hdue] at hrel hdes
    rw [hothers'.1,hothers'.2,hrel,hdes,hdesired,hreleased]
    exact ⟨rfl,rfl⟩

/-- Nothing is due. -/
def Edge.Settled (w : Edge) (wds : List WorkflowDeployment) : Prop :=
  ∀ wd ∈ wds, w.desired wd.flowID = wd.version

theorem Edge.settled_iff {wds : List WorkflowDeployment} : w.Settled wds ↔ w.due wds = [] := by
  simp [Edge.Settled,Edge.due,Sync.due,Edge.desired]

theorem Pass.settled (h : Pass False lc ls w w') (hc : Consistent ls.spec.workflowDeployments) :
    w'.Settled ls.spec.workflowDeployments := by
  intro wd hwd
  rw [h.releases.2]
  rcases releaseAll_cases w.desired (w.due ls.spec.workflowDeployments) wd.flowID with
    ⟨wd',hwd',hf,heq⟩ | ⟨hne,heq⟩
  · rw [heq]
    exact hc wd' (List.mem_of_mem_filter hwd') wd hwd hf
  · rw [heq]
    by_contra hdes
    exact hne wd (List.mem_filter.mpr ⟨hwd,decide_eq_true hdes⟩) rfl

theorem releaseWorkflows_settled {current : GoMap EdgeDeploymentStatus}
    {cur : String → EdgeDeploymentStatus} (hcur : ∀ f, (current.lookup f).getD {} = cur f)
    (wds : List WorkflowDeployment) (flag : Bool)
    (hs : ∀ wd ∈ wds, (cur wd.flowID).desiredVersion = wd.version) :
    ∃ b, releaseWorkflows lc ls current wds flag = .done (.ok b) := by
  induction wds generalizing flag with
  | nil => exact ⟨flag,rfl⟩
  | cons wd rest ih =>
    obtain ⟨hwd,hrest⟩ := List.forall_mem_cons.mp hs
    unfold releaseWorkflows
    rw [hcur,if_neg (not_not_intro hwd)]
    split
    · exact ih false hrest
    · exact ih flag hrest

/-- Once nothing is due a pass asks for nothing, whatever becomes of its calls. -/
theorem Pass.idle (h : Pass True lc ls w w') (hs : w.Settled ls.spec.workflowDeployments) :
    Edge.Others w w' := by
  obtain ⟨r,h⟩ := h
  unfold ensureWorkflowDeployments at h
  split at h
  · exact Edge.others_all h.done_inv.2
  · obtain ⟨w₁,r₁,w₂,hothers,⟨rfl,hserve⟩,hrest⟩ := h.call_inv
    obtain ⟨hdesired,hreleased⟩ := Edge.others_all hothers
    rcases hserve with rfl | ⟨-,err,rfl⟩
    · have hdes : ∀ wd ∈ ls.spec.workflowDeployments,
          (lastListed w₂.items wd.flowID).desiredVersion = wd.version :=
        fun wd hwd => (congrFun hdesired wd.flowID).trans (hs wd hwd)
      obtain ⟨b,hloop⟩ : ∃ b, releaseWorkflows lc ls (byFlowID w₂.items) _ true = .done (.ok b) :=
        releaseWorkflows_settled (lookup_byFlowID_getD w₂.items) ls.spec.workflowDeployments
          true hdes
      change Runs _ _ (releaseWorkflows lc ls (byFlowID w₂.items) _ true >>= _) _ _ _ at hrest
      rw [hloop] at hrest
      have hend : Edge.Others w₂ w' := by
        cases b <;> exact Edge.others_all hrest.done_inv.2
      exact ⟨hend.1.trans hdesired,hend.2.trans hreleased⟩
    · have hend := Edge.others_all hrest.done_inv.2
      exact ⟨hend.1.trans hdesired,hend.2.trans hreleased⟩

theorem Later.idle {w₁ w₂ : Edge} (h : Later lc ls w₁ w₂)
    (hs : w₁.Settled ls.spec.workflowDeployments) : Edge.Others w₁ w₂ := by
  induction h with
  | refl => exact ⟨rfl,rfl⟩
  | @tail w w' _ hstep ih =>
    have hw : w.Settled ls.spec.workflowDeployments :=
      fun wd hwd => (congrFun ih.1 wd.flowID).trans (hs wd hwd)
    have hothers : Edge.Others w w' := by
      rcases hstep with hpass | hothers
      · exact hpass.idle hw
      · exact hothers
    exact ⟨hothers.1.trans ih.1,hothers.2.trans ih.2⟩

/-- What Losant makes of a release. -/
def Edge.release (w : Edge) (f v : String) : Edge where
  items := { flowID := f, desiredVersion := v }::w.items.filter (·.flowID ≠ f)
  once := by
    rw [List.map_cons,List.nodup_cons]
    refine ⟨?_,w.once.sublist (List.filter_sublist.map _)⟩
    intro h
    obtain ⟨d,hd,hf⟩ := List.mem_map.mp h
    exact of_decide_eq_true (List.mem_filter.mp hd).2 hf
  released := ⟨f,v⟩::w.released

theorem Edge.desired_release (w : Edge) (f v : String) :
    (w.release f v).desired = Function.update w.desired f v := by
  funext g
  by_cases hg : g = f
  · subst hg
    have hnone : (w.items.filter (·.flowID ≠ g)).filter (·.flowID = g) = [] := by
      simp [List.filter_filter]
    rw [Function.update_self]
    simp only [desired,lastListed,release,List.filter_cons,decide_true,if_true,hnone]
    rfl
  · have hsame : (w.items.filter (·.flowID ≠ f)).filter (·.flowID = g) =
        w.items.filter (·.flowID = g) := by
      rw [List.filter_filter]
      refine List.filter_congr (fun d _ => ?_)
      by_cases hd : d.flowID = g
      · simp [hd,hg]
      · simp [hd]
    have hhead : ¬f = g := fun h => hg h.symm
    rw [Function.update_of_ne hg]
    simp only [desired,lastListed,release,List.filter_cons,hhead,decide_false,Bool.false_eq_true,
      if_false,hsame]

theorem exists_releaseWorkflows (current : GoMap EdgeDeploymentStatus)
    (wds : List WorkflowDeployment)
    (flag : Bool) (w : Edge) : ∃ r w',
      Runs (Edge.serve False) Edge.Others (releaseWorkflows lc ls current wds flag) w r w' := by
  induction wds generalizing flag w with
  | nil => exact ⟨_,_,.done⟩
  | cons wd rest ih =>
    unfold releaseWorkflows
    generalize (current.lookup wd.flowID).getD {} = cur
    change ∃ r w', Runs _ _ (if cur.desiredVersion ≠ wd.version then _ else _) w r w'
    by_cases hdes : cur.desiredVersion ≠ wd.version
    · rw [if_pos hdes]
      obtain ⟨r,w',hrest⟩ := ih false (w.release wd.flowID wd.version)
      exact ⟨r,w',.call ⟨rfl,.inl ⟨rfl,w.desired_release _ _⟩⟩ hrest⟩
    · rw [if_neg hdes]
      by_cases hcur : cur.currentVersion ≠ wd.version
      · rw [if_pos hcur]
        exact ih false w
      · rw [if_neg hcur]
        exact ih flag w

/-- From every state there is a pass in which every call succeeds. -/
theorem exists_pass (lc : Losant.HTTPClient) (ls : LosantSync) (w : Edge) :
    ∃ w', Pass False lc ls w w' := by
  unfold Pass ensureWorkflowDeployments
  split
  · exact ⟨w,_,.done⟩
  · obtain ⟨r,w',hloop⟩ : ∃ r w', Runs (Edge.serve False) Edge.Others
        (releaseWorkflows lc ls (byFlowID w.items) ls.spec.workflowDeployments true) w r w' :=
      exists_releaseWorkflows _ _ _ _
    cases r with
    | error e => exact ⟨w',_,.call ⟨rfl,.inl rfl⟩ (hloop.bind .done)⟩
    | ok b => cases b <;> exact ⟨w',_,.call ⟨rfl,.inl rfl⟩ (hloop.bind .done)⟩

/-- With two versions for one flow something is due in every state. -/
theorem Edge.due_ne_nil {wds : List WorkflowDeployment} (hc : ¬Consistent wds) (w : Edge) :
    w.due wds ≠ [] := by
  intro hnil
  have hs := Edge.settled_iff.mpr hnil
  refine hc (fun a ha b hb hf => ?_)
  rw [← hs a ha,← hs b hb,hf]

theorem Edge.serve_true {e : interface.Call} {r : interface.Answer e}
    (h : Edge.serve False w e r w') : Edge.serve True w e r w' := by
  fun_cases Edge.serve True w e r w' with
  | case1 | case2 => exact ⟨h.1,h.2.imp id (fun hf => hf.1.elim)⟩
  | case3 => simp [Edge.serve, *] at h

theorem Pass.later (h : Pass False lc ls w w') : Pass True lc ls w w' := by
  obtain ⟨r,hruns⟩ := h
  exact ⟨r,hruns.mono Edge.serve_true⟩

end passes

/-- The passes after one that has succeeded release nothing, exactly if no flow is to have two
versions. -/
theorem release_converges_iff (lc : Losant.HTTPClient) (ls : LosantSync) :
    (∀ w w₁ w₂, Pass False lc ls w w₁ → Later lc ls w₁ w₂ → w₂.released = w₁.released) ↔
      Consistent ls.spec.workflowDeployments := by
  constructor
  · intro h
    by_contra hc
    obtain ⟨w₁,hfirst⟩ := exists_pass lc ls ⟨[],List.nodup_nil,[]⟩
    obtain ⟨w₂,hsecond⟩ := exists_pass lc ls w₁
    have hsame := h _ w₁ w₂ hfirst (.single (.inl hsecond.later))
    rw [hsecond.releases.1] at hsame
    exact w₁.due_ne_nil hc (List.reverse_eq_nil_iff.mp (List.append_left_eq_self.mp hsame))
  · intro hc w w₁ w₂ hpass hlater
    exact (hlater.idle (hpass.settled hc)).2

/-- A spec with two versions of one flow. -/
def twoVersions : LosantSync where
  metadata :=
    { name := "edge", uid := 1, resourceVersion := 0, generation := 1, finalizers := []
      deletionTimestamp := none }
  spec :=
    { applicationID := "app", provisioningSecretRef := ⟨"losant","default"⟩, clusterName := "edge"
      region := "eu", interval := "5m", gea := { serviceRef := "gea", port := 8080 }
      workflowDeployments := [⟨"flow","v1"⟩,⟨"flow","v2"⟩] }
  status := { clusterDeviceID := "device-0" }

/-- Such a spec is released again with every pass, also right after one that has succeeded. -/
theorem twoVersions_released : ∃ w₀ w₁ w₂, Pass False ⟨"token","app"⟩ twoVersions w₀ w₁ ∧
    Pass False ⟨"token","app"⟩ twoVersions w₁ w₂ ∧ w₂.released ≠ w₁.released := by
  obtain ⟨w₁,hfirst⟩ := exists_pass ⟨"token","app"⟩ twoVersions ⟨[],List.nodup_nil,[]⟩
  obtain ⟨w₂,hsecond⟩ := exists_pass ⟨"token","app"⟩ twoVersions w₁
  refine ⟨_,w₁,w₂,hfirst,hsecond,?_⟩
  have hc : ¬Consistent twoVersions.spec.workflowDeployments := by decide
  rw [hsecond.releases.1]
  intro hsame
  exact w₁.due_ne_nil hc (List.reverse_eq_nil_iff.mp (List.append_left_eq_self.mp hsame))

end LosantDevice.Sync

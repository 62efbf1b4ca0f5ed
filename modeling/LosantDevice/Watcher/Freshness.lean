import LosantDevice.Watcher.Watches

/-!
# The stored snapshot is up to date

Whatever a job has read is still what the caches hold, or a change is on its way to a later job. So
when nothing is on its way the store holds the snapshot of the caches as they are. Two things go
unnoticed: the age of the warnings, which were counted when the last job ran, and a failed read of
CoreDNS, which no job repeats. Warnings drop out of the count with time and none come in, so the
stored score is never too good.
-/
namespace LosantDevice.Watcher
open Effect Kube Monitor Program

/-! ## One job -/

/-- The inputs are what the job was answered. -/
structure Saw (h : History interface) (i : Inputs) : Prop where
  nodes : (⟨.listNodes,.ok i.nodes⟩ : Event interface) ∈ h
  pods : (⟨.listPods,.ok i.pods⟩ : Event interface) ∈ h
  pvcs : (⟨.listPVCs,.ok i.pvcs⟩ : Event interface) ∈ h
  events : (⟨.listEvents,.ok i.events⟩ : Event interface) ∈ h
  coreDNS : (⟨.getDeployment ⟨coreDNSNamespace,coreDNSDeployment⟩,i.coreDNS⟩ : Event interface) ∈ h
  now : (⟨.now,i.now⟩ : Event interface) ∈ h

/-- A job that returns no error has stored the snapshot of what it was answered. -/
def Ends (h : History interface) (r : Except ApiError Result) : Prop :=
  ∀ res, r = .ok res → ∃ i, Saw h i ∧ ∃ order order',
    stored h = some (i.cluster order order',i.nodeMap)

theorem reconcile_ends : Obeys (fun _ _ => True) Ends [] reconcile := by
  have herr : ∀ {h : History interface} {err : ApiError}, Ends h (.error err) :=
    fun _ hr => nomatch hr
  refine ⟨trivial,?_⟩
  rintro (err | nodes)
  · exact herr
  refine ⟨trivial,?_⟩
  rintro (err | pods)
  · exact herr
  refine ⟨trivial,?_⟩
  rintro (err | pvcs)
  · exact herr
  refine ⟨trivial,?_⟩
  rintro (err | events)
  · exact herr
  refine ⟨trivial,fun coreDNS => ⟨trivial,fun order => ⟨trivial,fun t => ⟨trivial,fun order' =>
    ⟨trivial,fun _ res _ => ?_⟩⟩⟩⟩⟩
  refine ⟨⟨nodes,pods,pvcs,events,coreDNS,t⟩,?_,order,order',rfl⟩
  constructor <;> simp

/-! ## The caches -/

/-- The answer is what a read of these caches gives. -/
def Current (c : Caches) : Event interface → Prop
  | ⟨.listNodes,r⟩ => ∀ l, (r : Except ApiError (List Node)) = .ok l → l = c.nodes
  | ⟨.listPods,r⟩ => ∀ l, (r : Except ApiError (List Pod)) = .ok l → l = c.pods
  | ⟨.listPVCs,r⟩ => ∀ l, (r : Except ApiError (List PersistentVolumeClaim)) = .ok l → l = c.pvcs
  | ⟨.listEvents,r⟩ => ∀ l, (r : Except ApiError (List CoreEvent)) = .ok l → l = c.events
  | ⟨.getDeployment _,r⟩ => c.Gives r
  | _ => True

theorem Saw.eq_inputs {h : History interface} {i : Inputs} {c : Caches} (hs : Saw h i)
    (hc : ∀ ev ∈ h, Current c ev) : i = c.inputs i.coreDNS i.now := by
  obtain ⟨nodes,pods,pvcs,events,coreDNS,now⟩ := i
  have h₁ : nodes = c.nodes := hc _ hs.nodes _ rfl
  have h₂ : pods = c.pods := hc _ hs.pods _ rfl
  have h₃ : pvcs = c.pvcs := hc _ hs.pvcs _ rfl
  have h₄ : events = c.events := hc _ hs.events _ rfl
  subst h₁ h₂ h₃ h₄
  rfl

section answers
variable {c : Caches} {clock : Time} {store store' : HealthStore} {e : Call}
  {r : interface.Answer e}
  {h : History interface}

theorem Caches.Answers.current (ha : c.Answers clock store e r store') : Current c ⟨e,r⟩ := by
  match e with
  | .listNodes | .listPods | .listPVCs | .listEvents | .getDeployment _ => exact ha.1
  | .now | .rangeNodes _ | .update _ _ => trivial

/-- What the calls of a job say is stored is stored. -/
theorem Caches.Answers.stored (ha : c.Answers clock store e r store')
    (hs : ∀ cluster nodes, stored h = some (cluster,nodes) → store = ⟨cluster,nodes⟩)
    (cluster : ClusterHealth) (nodes : GoMap NodeHealth)
    (hn : Watcher.stored (⟨e,r⟩::h) = some (cluster,nodes)) : store' = ⟨cluster,nodes⟩ := by
  match e with
  | .listNodes | .listPods | .listPVCs | .listEvents | .getDeployment _ | .now =>
    exact ha.2.trans (hs _ _ hn)
  | .rangeNodes _ => exact Eq.trans ha (hs _ _ hn)
  | .update cluster' nodes' =>
    cases hn
    exact ha

theorem Caches.Answers.now_le (ha : c.Answers clock store e r store')
    (hs : ∀ t : Time, (⟨.now,t⟩ : Event interface) ∈ h → t ≤ clock) (t : Time)
    (ht : (⟨.now,t⟩ : Event interface) ∈ (⟨e,r⟩::h : History interface)) : t ≤ clock := by
  rcases List.mem_cons.mp ht with he | ht
  · cases he
    exact le_of_eq ha.1
  · exact hs t ht

end answers

/-! ## Every run -/

/-- A change is on its way: its handler is still to be told, or a job is still to be started. -/
def Manager.Waits (m : Manager) : Prop := m.notices ≠ [] ∨ m.queue.Pending

/-- The store holds the snapshot of the caches as they are, made some time ago and with what was
read for CoreDNS then. -/
def Manager.Reflects (m : Manager) : Prop :=
  ∃ t ≤ m.clock, ∃ coreDNS, m.caches.Gives coreDNS ∧ ∃ order order',
    m.store = ⟨(m.caches.inputs coreDNS t).cluster order order',
      (m.caches.inputs coreDNS t).nodeMap⟩

/-- What holds of the running job. -/
structure Job.Sound (store : HealthStore) (clock : Time) (j : Job) : Prop where
  ends : Obeys (fun _ _ => True) Ends j.history j.rest
  stored : ∀ cluster nodes, stored j.history = some (cluster,nodes) → store = ⟨cluster,nodes⟩
  clock : ∀ t : Time, (⟨.now,t⟩ : Event interface) ∈ j.history → t ≤ clock

structure Invariant (m : Manager) : Prop where
  job {j} : m.job = some j → j.Sound m.store m.clock
  fresh : m.Waits ∨ (∀ j, m.job = some j → ∀ ev ∈ j.history, Current m.caches ev) ∧
    (m.job = none → m.caches = {} ∨ m.Reflects)

/-- At its end a job that worked on the caches as they are has stored their snapshot. -/
theorem Job.Sound.reflects {m : Manager} {request : String} {h : History interface}
    {r : Except ApiError Result} (hj : Job.Sound m.store m.clock ⟨request,h,.done r⟩)
    (hc : ∀ ev ∈ h, Current m.caches ev) {res : Result} (hr : r = .ok res) : m.Reflects := by
  obtain ⟨i,hi,order,order',hst⟩ := hj.ends res hr
  have hdns : m.caches.Gives i.coreDNS := hc _ hi.coreDNS
  obtain ⟨coreDNS,now,he⟩ : ∃ r t, i = m.caches.inputs r t := ⟨_,_,hi.eq_inputs hc⟩
  subst he
  exact ⟨now,hj.clock _ hi.now,coreDNS,hdns,order,order',hj.stored _ _ hst⟩

theorem Invariant.step {m m' : Manager} {l : Option (List String)} (hi : Invariant m)
    (hm : Step m l m') (hl : l ≠ some []) : Invariant m' := by
  cases hm with
  | change hc => exact ⟨hi.job,.inl (.inl (by simp))⟩
  | node ht => exact ⟨hi.job,.inl (.inr Queue.pending_add)⟩
  | other ht hn =>
    refine ⟨hi.job,.inl (.inr (Queue.pending_addAll fun he => ?_))⟩
    exact hl (congrArg some he)
  | take hidle hg =>
    refine ⟨?_,.inr ⟨?_,(fun hj => nomatch hj)⟩⟩
    · rintro j ⟨⟩
      exact ⟨reconcile_ends,(fun _ _ hs => nomatch hs),(fun _ ht => nomatch ht)⟩
    · rintro j ⟨⟩ ev hev
      cases hev
  | call hr ha =>
    have hs := hi.job hr
    refine ⟨?_,hi.fresh.imp id fun hf => ⟨?_,(fun hj => nomatch hj)⟩⟩
    · rintro j ⟨⟩
      exact ⟨hs.ends.2 _,ha.stored hs.stored,ha.now_le hs.clock⟩
    · rintro j ⟨⟩ ev hev
      rcases List.mem_cons.mp hev with rfl | hev
      · exact ha.current
      · exact hf.1 _ hr ev hev
  | @finish request h r hr =>
    refine ⟨(fun hj => nomatch hj),?_⟩
    rcases hi.fresh with (hn | hq) | ⟨hf,-⟩
    · exact .inl (.inl hn)
    · exact .inl (.inr (hq.finish request (asksAgain r)))
    · cases hres : r with
      | error err =>
        exact .inl (.inr Queue.pending_finish)
      | ok res =>
        exact .inr ⟨(fun _ hj => nomatch hj),fun _ => .inr ((hi.job hr).reflects (hf _ hr) hres)⟩
  | fire hw => exact ⟨hi.job,.inl (.inr Queue.pending_fire)⟩
  | @tick clock hle =>
    refine ⟨fun hj => ?_,hi.fresh.imp id fun hf => ⟨hf.1,fun hn => (hf.2 hn).imp id ?_⟩⟩
    · have hs := hi.job hj
      exact ⟨hs.ends,hs.stored,fun t ht => (hs.clock t ht).trans hle⟩
    · rintro ⟨t,ht,hst⟩
      exact ⟨t,ht.trans hle,hst⟩

theorem Reachable.invariant {m : Manager} (h : Reachable m) : Invariant m := by
  induction h with
  | init => exact ⟨(fun hj => nomatch hj),.inr ⟨(fun _ hj => nomatch hj),fun _ => .inl rfl⟩⟩
  | step _ hm hl ih => exact ih.step hm hl

/-! ## The age of the warnings -/

/-- The lists are no longer than lists in memory are. -/
structure Caches.Fits (c : Caches) : Prop where
  pods : c.pods.length < 2^62
  pvcs : c.pvcs.length < 2^62
  events : c.events.length < 2^62

section age
variable {c : Caches} {t t' : Time} {r : Except ApiError Deployment}

theorem Caches.Fits.inputs (hc : c.Fits) : (c.inputs r t).Fits := ⟨hc.pods,hc.pvcs,hc.events⟩

/-- CoreDNS is taken to work only if it does. -/
theorem Caches.Gives.healthy (hr : c.Gives r) (h : isCoreDNSHealthy r.toOption = true) :
    isCoreDNSHealthy c.getDeployment.toOption = true := by
  cases r with
  | error err => cases h
  | ok deploy =>
    unfold Caches.getDeployment
    rw [hr deploy rfl]
    exact h

/-- With time the score of the same caches only gets better, and so it does with a read of CoreDNS
that does not fail. -/
theorem Caches.Fits.score_le (hc : c.Fits) (hr : c.Gives r) (hle : t ≤ t')
    (o₁ o₂ : (c.inputs r t).nodeMap.Order) (o₃ o₄ : (c.inputs c.getDeployment t').nodeMap.Order) :
    ((c.inputs r t).cluster o₁ o₂).healthScore ≤
      ((c.inputs c.getDeployment t').cluster o₃ o₄).healthScore := by
  have hworse : Worsens ((c.inputs c.getDeployment t').counted o₃)
      (c.inputs c.getDeployment t').nodeMap ((c.inputs r t).counted o₁) (c.inputs r t).nodeMap := by
    refine ⟨fun _ => Iff.rfl,fun name n n' hn hn' => ?_,le_rfl,le_rfl,
      countRecentWarnings_le hle c.events,le_rfl,hr.healthy⟩
    obtain rfl : n = n' := Option.some.inj (hn.symm.trans hn')
    exact ⟨id,id,id,id⟩
  have hdeduct := hworse.clusterDeductions_le
  change computeClusterHealthScore _ _ o₂ ≤ computeClusterHealthScore _ _ o₄
  rw [computeClusterHealthScore_eq (hc.inputs.inRange o₁) o₂,
    computeClusterHealthScore_eq (hc.inputs.inRange o₃) o₄]
  change max 0 (100-averageDeduction (c.inputs r t).nodeMap-_) ≤
    max 0 (100-averageDeduction (c.inputs r t).nodeMap-_)
  omega

end age

/-- The store holds a snapshot of the caches as they are, and its score is no better than the one of
a snapshot that is made now. -/
structure Manager.UpToDate (m : Manager) : Prop where
  reflects : m.Reflects
  score : m.caches.Fits → ∀ order order', m.store.cluster.healthScore ≤
    ((m.caches.inputs m.caches.getDeployment m.clock).cluster order order').healthScore

/-- In every run, whatever the order of changes, notices, jobs and retries: when no change is on
its way to a job and there are nodes, the store is up to date. -/
theorem store_upToDate {m : Manager} (h : Reachable m) (hrests : m.Rests)
    (hnodes : m.caches.nodes ≠ []) : m.UpToDate := by
  have hreflects : m.Reflects := by
    rcases h.invariant.fresh with (hn | hq) | ⟨-,hidle⟩
    · exact absurd hrests.notices hn
    · exact absurd hq hrests.queue
    · rcases hidle hrests.job with hempty | hr
      · rw [hempty] at hnodes
        exact absurd rfl hnodes
      · exact hr
  refine ⟨hreflects,fun hfits order order' => ?_⟩
  obtain ⟨t,hle,r,hr,o,o',hstore⟩ := hreflects
  rw [hstore]
  exact hfits.score_le hr hle o o' order order'

def firstNode : Node := { name := "n1" }

/-- An order of the range over a map. -/
noncomputable def anyOrder (m : GoMap NodeHealth) : m.Order := ⟨m.entries.toList,m.order_toList⟩

/-- A node appears, its handler is told, and the job it asks for runs to its end. -/
theorem firstNode_run :
    ∃ m : Manager, Reachable m ∧ m.Rests ∧ m.caches = { nodes := [firstNode] } := by
  have hc : Caches.Changes {} (.node "n1") { nodes := [firstNode] } := by
    refine .node (fun x hx => ?_)
    simp only [List.mem_singleton,List.not_mem_nil,iff_false]
    rintro rfl
    exact hx rfl
  have hok : ∀ {α : Type} {x l : α}, (Except.ok x : Except ApiError α) = .ok l → l = x := by
    rintro α x l ⟨⟩
    rfl
  have h : Reachable { clock := 0 } := .init
  have h := h.step (Step.change hc) nofun
  have h := h.step (Step.node
    (m := ⟨{ nodes := [firstNode] },[.node "n1"],.empty,none,newHealthStore,0⟩) rfl) nofun
  have h := h.step (Step.take rfl rfl) nofun
  have h := h.step (Step.call (e := .listNodes) (r := .ok [firstNode]) rfl ⟨fun _ => hok,rfl⟩) nofun
  have h := h.step (Step.call (e := .listPods) (r := .ok []) rfl ⟨fun _ => hok,rfl⟩) nofun
  have h := h.step (Step.call (e := .listPVCs) (r := .ok []) rfl ⟨fun _ => hok,rfl⟩) nofun
  have h := h.step (Step.call (e := .listEvents) (r := .ok []) rfl ⟨fun _ => hok,rfl⟩) nofun
  have h := h.step (Step.call (e := .getDeployment _) (r := .error ⟨.notFound,"not found"⟩) rfl
    ⟨nofun,rfl⟩) nofun
  have h := h.step (Step.call (e := .rangeNodes _) (r := anyOrder _) rfl rfl) nofun
  have h := h.step (Step.call (e := .now) rfl ⟨rfl,rfl⟩) nofun
  have h := h.step (Step.call (e := .rangeNodes _) (r := anyOrder _) rfl rfl) nofun
  have h := h.step (Step.call (e := .update _ _) (r := ()) rfl rfl) nofun
  have h := h.step (Step.finish rfl) nofun
  refine ⟨_,h,⟨rfl,rfl,?_⟩,rfl⟩
  rintro (hd | hw)
  · exact hd rfl
  · exact hw rfl

theorem store_upToDate_firstNode :
    ∃ m : Manager, m.Rests ∧ m.caches.nodes = [firstNode] ∧ m.UpToDate := by
  obtain ⟨m,h,hr,hc⟩ := firstNode_run
  have hnodes : m.caches.nodes = [firstNode] := by rw [hc]
  exact ⟨m,hr,hnodes,store_upToDate h hr (by simp [hnodes])⟩

end LosantDevice.Watcher

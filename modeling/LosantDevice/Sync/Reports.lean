import LosantDevice.Sync.Honesty
import LosantDevice.Sync.Outcome
import LosantDevice.Watcher.Snapshot

/-!
# The watcher and the reconciler of one process

Both run in one process and share the store. The watcher takes its steps between any two calls of
a sync, and a restart empties the store. What a sync reports is computed health exactly if the
watcher had stored something when the sync took its snapshot.
-/
namespace LosantDevice.Sync
open Effect Kube Go Monitor Program

/-- The store, and what the running reconcile of the watcher has still to do. -/
structure Process where
  store : HealthStore
  watcher : Option (Watcher.M (Except ApiError Result))

namespace Process

/-- A process that has just been started. -/
def fresh : Process := ⟨newHealthStore,none⟩

/-- What a call of the watcher does to the store. Its answer may be any. -/
def stores (s : HealthStore) : Watcher.Call → HealthStore
  | .update cluster nodes => s.update cluster nodes
  | _ => s

/-- The steps of the watcher; the process may be restarted at any time. -/
inductive Watches : Process → Process → Prop
  | start {s} : Watches ⟨s,none⟩ ⟨s,some Watcher.reconcile⟩
  | call {s e next} (r : Watcher.interface.Answer e) :
      Watches ⟨s,some (.call e next)⟩ ⟨stores s e,some (next r)⟩
  | finish {s a} : Watches ⟨s,some (.done a)⟩ ⟨s,none⟩
  | restart {p} : Watches p fresh

/-- A snapshot is what the store holds; the other calls are answered in any way. -/
def answers (p : Process) : (e : Call) → calls.Answer e → Process → Prop
  | .healthSnapshot,r,p' => r = p.store.snapshot ∧ p' = p
  | _,_,p' => p' = p

/-- The store holds nothing or what the watcher has scored, and the watcher goes on scoring. -/
structure Sound (p : Process) : Prop where
  store : p.store = newHealthStore ∨ Watcher.Scored p.store
  watcher : ∀ w, p.watcher = some w →
    ∃ h, Obeys (fun _ e => Watcher.Stores e) (fun _ _ => True) h w

theorem sound_fresh : fresh.Sound := ⟨.inl rfl,nofun⟩

theorem Sound.watches {p p' : Process} (hp : p.Sound) (hw : Watches p p') : p'.Sound := by
  cases hw with
  | start =>
    refine ⟨hp.store,?_⟩
    rintro w ⟨⟩
    exact ⟨[],Watcher.reconcile_stores []⟩
  | @call s e next r =>
    obtain ⟨h,ho⟩ := hp.watcher _ rfl
    refine ⟨?_,?_⟩
    · change stores s e = newHealthStore ∨ Watcher.Scored (stores s e)
      fun_cases stores s e with
      | case1 => exact .inr ho.1
      | case2 => exact hp.store
    · rintro w ⟨⟩
      exact ⟨_,ho.2 r⟩
  | finish => exact ⟨hp.store,nofun⟩
  | restart => exact sound_fresh

theorem answers_eq {p p' : Process} {e : Call} {r : calls.Answer e} (h : p.answers e r p') :
    p' = p := by
  revert h
  fun_cases Process.answers p e r p' with
  | case1 => exact And.right
  | case2 => exact id

end Process

/-- The reconciler in a process it shares with the watcher. -/
def shared (lib : Externals) : System losantSync calls (Except String Result) where
  World := Process
  start p := p = .fresh
  answers := Process.answers
  others := Process.Watches
  main := reconcile lib

variable {lib : Externals}

def processOf (c : Config (shared lib)) : Process := c.world

theorem process_sound {c : Config (shared lib)} (hc : (shared lib).Reachable c) :
    (processOf c).Sound := by
  induction hc with
  | init hs =>
    cases (show _ = Process.fresh from hs)
    exact Process.sound_fresh
  | step _ hm _ ih =>
    cases hm with
    | user | start | own | finish | crash => exact ih
    | others ha => exact ih.watches ha
    | outside ha =>
      cases Process.answers_eq ha
      exact ih

/-- The attributes are computed health: those of the cluster with the score of its own counters
and of the nodes of the snapshot, or those of a node with the score of its own flags. -/
def Genuine (s : HealthStore) (attributes : List (String × Gea.Value)) : Prop :=
  (attributes = clusterAttributes s.cluster ∧
    (0 ≤ s.cluster.healthScore ∧ s.cluster.healthScore ≤ 100) ∧
    s.cluster.healthStatus = healthStatusFromScore s.cluster.healthScore ∧
    ∀ order, s.cluster.healthScore = computeClusterHealthScore s.cluster s.nodes order) ∨
  ∃ n nh, s.nodes.lookup n = some nh ∧ attributes = nodeAttributes nh ∧
    nh.healthScore = computeNodeHealthScore nh ∧
    nh.healthStatus = healthStatusFromScore nh.healthScore

theorem Genuine.of_scored {s : HealthStore} (hs : Watcher.Scored s) {slot : Slot}
    {attributes : List (String × Gea.Value)}
    (hd : described s.cluster s.nodes slot = some attributes) : Genuine s attributes := by
  cases slot with
  | cluster =>
    cases hd
    have order : s.nodes.Order := ⟨s.nodes.entries.toList,s.nodes.entries.coe_toList⟩
    refine .inl ⟨rfl,?_,hs.status,hs.score⟩
    rw [hs.score order]
    exact computeClusterHealthScore_bounds _ _ _
  | node n =>
    obtain ⟨nh,hnh,rfl⟩ := Option.map_eq_some_iff.mp hd
    exact .inr ⟨n,nh,hnh,rfl,hs.nodes n nh hnh⟩

/-- The empty store has a score without a status. -/
theorem not_genuine_new {attributes : List (String × Gea.Value)} :
    ¬Genuine newHealthStore attributes := by
  rintro (⟨-,-,hstatus,-⟩ | ⟨n,nh,hnh,-⟩)
  · exact absurd hstatus (by decide)
  · cases hnh

/-- In every interleaving of the watcher and the reconciler, with restarts at any time, for every
report ever made: `s` is what the store held when the sync took its snapshot. -/
theorem report_genuine_iff (lib : Externals) (c : Config (shared lib))
    (hc : (shared lib).Reachable c) (k l : Past) (gc : Gea.HTTPClient) (payload : Gea.StatePayload)
    (r : Except String Unit) (hk : k ∈ c.histories)
    (hl : ⟨.inr (.reportState gc payload),r⟩::l <:+ k) :
    ∃ s : HealthStore, (⟨.inr .healthSnapshot,s.snapshot⟩ : Event interface) ∈ l ∧
      (Genuine s payload.attributes ↔ s ≠ newHealthStore) := by
  obtain ⟨slot,⟨cluster,nodes,hsnap,hd⟩,-⟩ := ((traced_telling rfl hc).allowed hk hl).2
  refine ⟨⟨cluster,nodes⟩,hsnap,?_⟩
  obtain ⟨l₁,l₂,hsplit⟩ := List.append_of_mem hsnap
  have hsuf : ⟨.inr .healthSnapshot,(cluster,nodes)⟩::l₂ <:+ k := by
    refine List.IsSuffix.trans ?_ ((List.suffix_cons _ _).trans hl)
    rw [hsplit]
    exact List.suffix_append l₁ _
  obtain ⟨c',d',next,hc',hs,-,hj,hj'⟩ := hc.exists_step hk hsuf
  -- The job was answered with what the store held in that step.
  have hstore : (cluster,nodes) = (processOf c').store.snapshot := (hs.answers hj hj').1
  have hsound := (process_sound hc').store
  rw [show (processOf c').store = ⟨cluster,nodes⟩ from
    (congrArg (fun x => HealthStore.mk x.1 x.2) hstore).symm] at hsound
  rcases hsound with hnew | hscored
  · rw [hnew]
    exact iff_of_false not_genuine_new (fun h => h rfl)
  · refine iff_of_true (.of_scored hscored hd) ?_
    intro hnew
    rw [hnew] at hscored
    exact absurd hscored.status (by decide)

/-! ## Runs with and without the watcher -/

/-- The cluster is empty and has no CoreDNS. -/
def emptyCluster : (e : Watcher.Call) → Option (Watcher.interface.Answer e)
  | .listNodes | .listPods | .listPVCs | .listEvents => some (.ok [])
  | .getDeployment _ => some (.error ⟨.notFound,"deployments not found"⟩)
  | .now => some (0 : ℤ)
  | .rangeNodes m => if hm : m = ∅ then some ⟨[],GoMap.order_nil hm⟩ else none
  | .update _ _ => some ()

/-- The next step of the watcher. -/
def Process.advance : Process → Option Process
  | ⟨s,none⟩ => some ⟨s,some Watcher.reconcile⟩
  | ⟨s,some (.call e next)⟩ => (emptyCluster e).map fun r => ⟨stores s e,some (next r)⟩
  | ⟨s,some (.done _)⟩ => some ⟨s,none⟩

theorem Process.watches_of_advance {p p' : Process} (h : p.advance = some p') : Watches p p' := by
  obtain ⟨s,_ | _ | ⟨e,next⟩⟩ := p
  · cases h
    exact .start
  · cases h
    exact .finish
  · obtain ⟨r,-,rfl⟩ := Option.map_eq_some_iff.mp h
    exact .call r

/-- A reconcile of the watcher, step by step. -/
def watch : List (shared .plain).Act :=
  List.replicate 11 (.others Process.advance Process.watches_of_advance)

/-- Every call succeeds, and a snapshot is what the store holds. -/
def Process.serve (h : Past) (p : Process) : (e : Call) → Option (calls.Answer e × Process)
  | .healthSnapshot => some (p.store.snapshot,p)
  | e => (smooth h e).map (·,p)

theorem Process.answers_of_serve {h : Past} {p p' : Process} {e : Call} {r : calls.Answer e}
    (hs : p.serve h e = some (r,p')) : p.answers e r p' := by
  revert hs
  fun_cases Process.answers p e r p' with
  | case1 =>
    intro hs
    cases hs
    exact ⟨rfl,rfl⟩
  | case2 e r p' hother =>
    intro hs
    rw [Process.serve] at hs
    · obtain ⟨r',-,heq⟩ := Option.map_eq_some_iff.mp hs
      cases heq
      rfl
    · rintro rfl
      exact hother r rfl HEq.rfl

/-- A reconcile of the object. -/
def sharedJob : (shared .plain).Act := .job
  { refuse := fun _ => none
    serve := Process.serve
    sound := fun hs => Process.answers_of_serve hs }

/-- The last report of a job, with the calls before it. -/
def lastReport : Past → Option (Gea.HTTPClient × Gea.StatePayload × Except String Unit × Past)
  | [] => none
  | ⟨.inr (.reportState gc payload),r⟩::l => some (gc,payload,r,l)
  | _::l => lastReport l

theorem suffix_of_lastReport {k l : Past} {gc : Gea.HTTPClient} {payload : Gea.StatePayload}
    {r : Except String Unit} (h : lastReport k = some (gc,payload,r,l)) :
    ⟨.inr (.reportState gc payload),r⟩::l <:+ k := by
  fun_induction lastReport k with
  | case1 => cases h
  | case2 =>
    cases h
    exact List.suffix_refl _
  | case3 _ _ _ ih => exact (ih h).trans (List.suffix_cons _ _)

/-- A run that ends with a job whose last report passes a test. -/
theorem exists_report (as : List (shared .plain).Act) (p : List (String × Gea.Value) → Bool)
    (h : (System.replay (fun _ _ => true) as ⟨⟨[],0⟩,Process.fresh,[],none⟩).map
      (fun c => c.past.head?.any fun k => (lastReport k).any fun x => p x.2.1.attributes) =
        some true) :
    ∃ c k l gc payload r, (shared .plain).Reachable c ∧ k ∈ c.histories ∧
      ⟨.inr (.reportState gc payload),r⟩::l <:+ k ∧ p payload.attributes = true := by
  obtain ⟨c,hc,hp⟩ := System.exists_config (σ := shared .plain) rfl as _ h
  obtain ⟨k,hk,hp⟩ := (Option.any_eq_true _ _).mp hp
  obtain ⟨⟨gc,payload,r,l⟩,hl,hp⟩ := (Option.any_eq_true _ _).mp hp
  exact ⟨c,k,l,gc,payload,r,hc,List.mem_append_right _ (List.mem_of_mem_head? hk),
    suffix_of_lastReport hl,hp⟩

/-- With the watcher first, a sync reports the score the watcher has computed. -/
theorem report_genuine_watched : ∃ c k l gc payload r, (shared .plain).Reachable c ∧
    k ∈ c.histories ∧ ⟨.inr (.reportState gc payload),r⟩::l <:+ k ∧
    ("health_score",.int 85) ∈ payload.attributes ∧
    ("health_status",.string (healthStatusFromScore 85)) ∈ payload.attributes ∧
    ∃ s : HealthStore, (⟨.inr .healthSnapshot,s.snapshot⟩ : Event interface) ∈ l ∧
      (Genuine s payload.attributes ↔ s ≠ newHealthStore) := by
  obtain ⟨c,k,l,gc,payload,r,hc,hk,hl,hp⟩ := exists_report
    (watch ++ [.create newSync,sharedJob,sharedJob,sharedJob])
    (fun attributes => decide (("health_score",.int 85) ∈ attributes ∧
      ("health_status",.string (healthStatusFromScore 85)) ∈ attributes)) (by decide +kernel)
  obtain ⟨hscore,hstatus⟩ := of_decide_eq_true hp
  exact ⟨c,k,l,gc,payload,r,hc,hk,hl,hscore,hstatus,
    report_genuine_iff .plain c hc k l gc payload r hk hl⟩

/-- A sync that is faster than the watcher reports a score of zero and no status at all. -/
theorem unwatched_report : ∃ c k l gc payload r, (shared .plain).Reachable c ∧
    k ∈ c.histories ∧ ⟨.inr (.reportState gc payload),r⟩::l <:+ k ∧
    ("health_score",.int 0) ∈ payload.attributes ∧
    ("health_status",.string "") ∈ payload.attributes ∧ healthStatusFromScore 0 = "critical" := by
  obtain ⟨c,k,l,gc,payload,r,hc,hk,hl,hp⟩ := exists_report
    [.create newSync,sharedJob,sharedJob,sharedJob]
    (fun attributes => decide (("health_score",.int 0) ∈ attributes ∧
      ("health_status",.string "") ∈ attributes)) (by decide +kernel)
  obtain ⟨hscore,hstatus⟩ := of_decide_eq_true hp
  exact ⟨c,k,l,gc,payload,r,hc,hk,hl,hscore,hstatus,rfl⟩

end LosantDevice.Sync

import LosantDevice.Sync.Devices
import LosantDevice.Sync.Outcome

/-!
# The devices of the nodes in the status

The device of a node is asked for once in a job and before the job writes its status, and a status
that is not the end of a sync is written before any device is asked for. So every status that is
written records exactly what the job was told, over what was there before.
-/
namespace LosantDevice.Sync
open Effect Kube Go Monitor Program

variable {lib : Externals} {h : Past} {b : LosantSync}

/-- The job was given the device for the node. -/
def Told (h : Past) (n id : String) : Prop := Known h (.node n) id

/-- Every call was made as `Tells` says. -/
def InOrder (lib : Externals) (h : Past) : Prop := ∀ {ev l}, ev::l <:+ h → Tells lib l ev.call

/-- The status `t` records what the job with the calls `h` was told, and besides that what `t₀`
does. -/
structure Records (h : Past) (t₀ t : LosantSyncStatus) : Prop where
  told {n id} : Told h n id → t.nodeDevices.lookup n = some id
  other {n} : (∀ id, ¬Told h n id) → t.nodeDevices.lookup n = t₀.nodeDevices.lookup n

theorem InOrder.tail {ev : Event interface} (ho : InOrder lib (ev::h)) : InOrder lib h :=
  fun hl => ho (hl.trans (List.suffix_cons _ _))

/-- A node is asked for once, so what the job was told is what it was told last. -/
theorem InOrder.told_iff (ho : InOrder lib h) {n id : String} :
    Told h n id ↔ (view h).nodes.lookup n = some id := by
  refine ⟨?_,fun hf => found_given (k := .node n) hf⟩
  rintro ⟨ev,hev,hg⟩
  induction h with
  | nil => cases hev
  | cons ev' h ih =>
    rcases List.mem_cons.mp hev with rfl | hev
    · cases hg with
      | node => exact List.lookup_cons_self
    · have hlast := ih ho.tail hev
      rcases observe_found ev' (view h) (.node n) with ⟨id',hg',-⟩ | heq
      · have hcall := ho (List.suffix_refl _)
        cases hg' with
        | node =>
          have hnone : (view h).nodes.lookup n = none := hcall.2.2
          rw [hnone] at hlast
          cases hlast
      · exact heq.trans hlast

/-- The devices in a status a job writes. -/
theorem StatusWrite.nodeDevices {t : LosantSyncStatus} (hw : StatusWrite h b t)
    (ho : Outcome lib h b t) : t.nodeDevices = (view h).nodeDevices b.status.nodeDevices := by
  have hearly : Early h → b.status.nodeDevices = (view h).nodeDevices b.status.nodeDevices := by
    intro he
    unfold View.nodeDevices
    rw [he.nodes]
    rfl
  cases hw with
  | suspended | first =>
    cases ho with
    | suspended _ _ he => exact hearly he
    | first _ _ he => exact hearly he
    | degraded hp => cases hp
    | active hp => cases hp
  | degraded _ hk => exact hk.nodes
  | active _ hk => exact hk.nodes

theorem Records.of_write (hin : InOrder lib h) {t : LosantSyncStatus} (hw : StatusWrite h b t)
    (ho : Outcome lib h b t) : Records h b.status t := by
  have hlookup : ∀ n, t.nodeDevices.lookup n =
      ((view h).nodes.lookup n).or (b.status.nodeDevices.lookup n) := by
    intro n
    rw [hw.nodeDevices ho]
    exact (view h).lookup_nodeDevices _ n
  constructor
  · intro n id ht
    rw [hlookup,hin.told_iff.mp ht]
    rfl
  · intro n hn
    have hnone : (view h).nodes.lookup n = none :=
      Option.eq_none_iff_forall_ne_some.mpr (fun id hid => hn id (hin.told_iff.mpr hid))
    rw [hlookup,hnone]
    rfl

/-- No key is lost. -/
theorem Records.mem {t₀ t : LosantSyncStatus} (hr : Records h t₀ t) {n : String}
    (hn : n ∈ t₀.nodeDevices) : n ∈ t.nodeDevices := by
  by_cases ht : ∃ id, Told h n id
  · obtain ⟨id,ht⟩ := ht
    exact Finmap.mem_of_lookup_eq_some (hr.told ht)
  · rw [← Finmap.lookup_isSome,hr.other (fun id hid => ht ⟨id,hid⟩)]
    exact Finmap.lookup_isSome.mpr hn

section runs
variable {σ : System losantSync calls (Except String Result)} {c d : Config σ}

/-- The step from `c` to `d` stores the status of a job that had made the calls `h`. -/
def StoresStatus (c d : Config σ) (h : Past) : Prop :=
  ∃ o v next, c.job = some (h,.call (.inl (.updateStatus o)) next) ∧
    d.job = some (⟨.inl (.updateStatus o),.ok v⟩::h,next (.ok v))

/-- No key of the devices is lost while an object lives, a status that is stored records what the
job was told, and the job is told nothing after that. -/
structure NodesKept (c : Config σ) : Prop where
  grows {o o' l n} : some o::l <:+ c.server.log → some o' ∈ l →
    o'.metadata.uid = o.metadata.uid → n ∈ o'.status.nodeDevices → n ∈ o.status.nodeDevices
  stored {d : Config σ} {h : Past} :
    σ.Step c d → StoresStatus c d h → ∃ b o, c.server.current = some b ∧
    d.server.current = some o ∧ Records h b.status o.status
  last {h k : Past} {o v n id} : h ∈ c.histories →
    (⟨.inl (.updateStatus o),.ok v⟩::k : Past) <:+ h → Told h n id → Told k n id

theorem inOrder (hc : c.Traced (fun h e => Permits h e ∧ Tells lib h e)) {k : Past}
    (hh : h ∈ c.histories) (hk : k <:+ h) : InOrder lib k :=
  fun hl => (hc.allowed hh (hl.trans hk)).2

/-- What a status write that was made records. -/
theorem records_of_suffix (hc : c.Traced (fun h e => Permits h e ∧ Tells lib h e)) {k : Past}
    {a : LosantSync} {v : ℕ} (hh : h ∈ c.histories)
    (hk : (⟨.inl (.updateStatus a),.ok v⟩::k : Past) <:+ h) (hcopy : lastCopy k = some b) :
    Records k b.status a.status := by
  obtain ⟨⟨-,b',hheld,-,-,hw⟩,b₂,hcopy₂,ho⟩ := hc.allowed hh hk
  obtain rfl : b = b' := Option.some.inj (hcopy.symm.trans hheld.1)
  obtain rfl : b = b₂ := Option.some.inj (hcopy.symm.trans hcopy₂)
  exact .of_write (inOrder hc hh ((List.suffix_cons _ _).trans hk)) hw ho

theorem told_before (hc : c.Traced (fun h e => Permits h e ∧ Tells lib h e)) {k : Past}
    {a : LosantSync} {v : ℕ} {n id : String} (hh : h ∈ c.histories)
    (hk : (⟨.inl (.updateStatus a),.ok v⟩::k : Past) <:+ h) (ht : Told h n id) : Told k n id := by
  obtain ⟨p,rfl⟩ := hk
  obtain ⟨ev,hev,hg⟩ := ht
  rcases List.mem_append.mp hev with hev | hev
  · -- The request came after the write, which no request does.
    obtain ⟨p₁,p₂,rfl⟩ := List.append_of_mem hev
    have hsuf : (ev::(p₂ ++ ⟨.inl (.updateStatus a),.ok v⟩::k) : Past) <:+
        p₁ ++ ev::p₂ ++ ⟨.inl (.updateStatus a),.ok v⟩::k := by simp
    have hcall := (hc.allowed hh hsuf).2
    cases hg with
    | node => exact absurd (by simp) (hcall.2.1 a v)
  · rcases List.mem_cons.mp hev with rfl | hev
    · cases hg
    · exact ⟨ev,hev,hg⟩

/-- Whatever nodes come and go, in whatever order they are asked for and wherever the sync fails,
what a job was told is in the status it stores. -/
theorem nodeDevices_kept (lib : Externals) (σ : System losantSync calls (Except String Result))
    (hmain : σ.main = reconcile lib) (c : Config σ) (hc : σ.Reachable c) : NodesKept c := by
  have htraced := traced_telling hmain hc
  refine ⟨?_,?_,told_before htraced⟩
  · intro o o' l n hl ho' hu
    refine htraced.inherits (P := fun o => n ∈ o.status.nodeDevices) ?_ hl ho' hu
    intro o b l hl hu hn
    rcases htraced.status_step hl hu with hst | ⟨h,hh,a,v,k,hk,hcopy,rfl⟩
    · rw [hst]
      exact hn
    · exact (records_of_suffix htraced hh hk hcopy).mem hn
  · rintro d h hs ⟨a,v,next,hj,hj'⟩
    have hsound := System.Reachable.sound Permits.disciplined (hmain ▸ reconcile_obeys lib) hc
    have hd := traced_telling hmain (System.ReachableBy.step hc hs trivial)
    obtain ⟨b,l,hcopy,hlog,-,-,hserver⟩ :=
      hsound.updateStatus Permits.disciplined hj (hs.replies hj hj')
    have hrec := records_of_suffix hd (Config.mem_histories hj') (List.suffix_refl _) hcopy
    refine ⟨b,a.stored v,Server.current_eq_some.mpr ⟨l,hlog⟩,?_,⟨hrec.told,hrec.other⟩⟩
    rcases hserver with ⟨hsame,hb⟩ | ⟨hpush,-⟩
    · rw [hsame,hb]
      exact Server.current_eq_some.mpr ⟨l,hlog⟩
    · rw [hpush]
      rfl

end runs

/-- After three jobs the node of the snapshot is recorded. -/
theorem nodeDevices_kept_active : ∃ c, (system .plain edgeSite).Reachable c ∧ NodesKept c ∧
    ∃ o, c.server.current = some o ∧ "n1" ∈ o.status.nodeDevices := by
  obtain ⟨c,o,hc,ho,hmem⟩ := System.exists_reachable (σ := system .plain edgeSite)
    start_emptyWorld (activate .plain) (fun _ o => decide ("n1" ∈ o.status.nodeDevices)) rfl
  exact ⟨c,hc,nodeDevices_kept .plain _ rfl c hc,o,ho,of_decide_eq_true hmem⟩

end LosantDevice.Sync

import LosantDevice.Session.Status

/-!
# The import manifest

`applyManifest` of `internal/controller/ranchersession_controller.go` applies the objects of a
manifest one after the other and stops at the first that is refused. A stored `ManifestApplied`
says that one job has fetched the manifest of the recorded cluster, read it to its end and had
every object of it accepted.
-/
namespace LosantDevice.Session
open Effect Kube Go Program

section runs
variable {lib : Externals} {σ : System rancherSession calls (Except String Result)} {c : Config σ}
  {o : RancherSession} {h : Past}

/-- A job has applied nothing, or the first objects of a manifest that it has fetched; only the
last of them may have been refused. -/
def InOrder (h : Past) : Prop :=
  applies h = [] ∨ ∃ id m ds d r, Got h id m ∧ applies h = ds.map (·,.ok ()) ++ [(d,r)] ∧
    ds ++ [d] <+: m.objects

theorem inOrder_of_allowed (hall : ∀ ev k, ev::k <:+ h → Permits lib k ev.call) : InOrder h := by
  fun_induction applies h with
  | case1 => exact .inl rfl
  | case2 d r h ih =>
    obtain ⟨-,id,m,ds,hg,happlied,hp⟩ := hall _ _ (List.suffix_refl _)
    refine .inr ⟨id,m,ds,d,r,hg.cons,?_,hp⟩
    rw [← happlied]
    rfl
  | case3 ev h hother ih =>
    have hsame : applies (ev::h) = applies h := by
      rw [applies]
      exact hother
    have hbefore := ih fun ev' k hk => hall ev' k (hk.trans (List.suffix_cons ev h))
    rcases hbefore with hnone | ⟨id,m,ds,d,r,hg,happlied,hp⟩
    · exact .inl (hsame.trans hnone)
    · exact .inr ⟨id,m,ds,d,r,hg.cons,hsame.trans happlied,hp⟩

/-- A job on the object has applied all of the manifest of the cluster. -/
def Imported (c : Config σ) (o : RancherSession) : Prop :=
  ∃ h ∈ c.histories, ∃ k b, k <:+ h ∧ lastCopy k = some b ∧ b.metadata.uid = o.metadata.uid ∧
    Complete k o.status.rancherClusterID

/-- What a status says about the manifest of the cluster that it records: it is applied now, or the
copy says so already. -/
theorem applied_cases (ht : c.Traced (Permits lib)) (hm : h ∈ c.histories) {k : Past}
    {b : RancherSession} {t : RancherSessionStatus} (hk : k <:+ h)
    (hw : StatusWrite lib k b t) (ha : t.manifestApplied = true) :
    Complete k t.rancherClusterID ∨
      b.status.manifestApplied = true ∧ t.rancherClusterID = b.status.rancherClusterID := by
  -- A failure on the way keeps the flag of the copy; a copy that is connecting does not have it.
  have hkept : ∀ hkept : Kept k b t, b.status.manifestApplied = true := fun hkept =>
    hkept.applied.symm.trans ha
  have hconnecting : Connecting k b → b.status.manifestApplied = false := by
    rintro ⟨-,-,-,-,⟨k',b₀,hk',hb₀,hs,happlied⟩,-⟩
    rw [← happlied]
    rcases hs with hunset | ⟨-,hnot⟩
    · obtain ⟨l,hl⟩ := ht.copies hm (hk'.trans hk) hb₀
      exact unset_not_applied ht (hl.mem List.mem_cons_self) hunset
    · exact hnot
  have hsame : ∀ hkept : Kept k b t, (view k).adopted = none →
      t.rancherClusterID = b.status.rancherClusterID := by
    intro hkept hnone
    rw [hkept.id,hnone]
    rfl
  cases hw with
  | connecting | disconnecting | disconnected => exact .inr ⟨ha,rfl⟩
  | manifest _ _ _ _ _ _ _ hcomplete => exact .inl hcomplete
  | connected _ _ _ hbefore _ hid => exact .inr ⟨hbefore.2,hid⟩
  | unreachable hstage _ hk =>
    rcases hstage with hc | hc | ⟨hr,-⟩
    · cases (hconnecting hc).symm.trans (hkept hk)
    · exact .inr ⟨hkept hk,hsame hk hc.adopted.1⟩
    · exact .inr ⟨hkept hk,hsame hk (by rw [hr.view])⟩
  | failed hcause _ hk =>
    cases hcause with
    | unusable hr | timedOut hr => exact .inr ⟨hkept hk,hsame hk (by rw [hr.view])⟩
    | spoiled hc => cases (hconnecting hc).symm.trans (hkept hk)

theorem imported_of_applied (ht : c.Traced (Permits lib))
    {l : List (Option RancherSession)} (hl : l <:+ c.server.log) (ho : some o ∈ l)
    (ha : o.status.manifestApplied = true) : Imported c o := by
  induction l generalizing o with
  | nil => simp at ho
  | cons x l ih =>
    have ih := fun {o} => @ih o ((List.suffix_cons _ _).trans hl)
    -- A state with the same object, flag and cluster is covered with the one before it.
    have hcarry : ∀ {b : RancherSession}, some b ∈ l → b.status.manifestApplied = true →
        o.status.rancherClusterID = b.status.rancherClusterID →
        o.metadata.uid = b.metadata.uid → Imported c o := by
      intro b hb hba hid hu
      obtain ⟨h,hh,k,b',hk,hcopy,huid,hcomplete⟩ := ih hb hba
      exact ⟨h,hh,k,b',hk,hcopy,huid.trans hu.symm,hid ▸ hcomplete⟩
    rcases List.mem_cons.mp ho with rfl | ho
    · cases ht.origin hl with
      | created _ hb =>
        rw [hb.2.2] at ha
        cases ha
      | user hu hst _ _ =>
        rw [hst] at ha
        exact hcarry List.mem_cons_self ha (by rw [hst]) hu
      | @status a b l h k v hm he hcopy hmeta _ _ =>
        have hu : b.metadata.uid = (Object.stored a v).metadata.uid :=
          (congrArg Metadata.uid hmeta).symm
        have hk : k <:+ h := (List.suffix_cons _ _).trans he
        obtain ⟨b',hb',-,-,hw⟩ := ht.allowed hm he
        obtain rfl := Option.some.inj (hcopy.symm.trans hb')
        rcases applied_cases ht hm hk hw ha with hcomplete | ⟨hba,hid⟩
        · exact ⟨h,hm,k,b,hk,hcopy,hu,hcomplete⟩
        · exact hcarry List.mem_cons_self hba hid hu.symm
      | object _ _ _ _ hk =>
        have ho := hk o rfl
        refine hcarry List.mem_cons_self ?_ ?_ ?_
        · rw [ho] at ha
          exact ha
        · rw [ho]
        · rw [ho]
    · exact ih ho ha

/-- In every run each job applies the objects of the manifest it has fetched one by one, in their
order and not beyond the first that is refused, and a stored `ManifestApplied` says that a job on
this session had all those of the recorded cluster accepted. -/
theorem manifest_applied_in_order (hmain : σ.main = reconcile lib) (hc : σ.Reachable c) :
    (∀ h ∈ c.histories, InOrder h) ∧
      ∀ o, some o ∈ c.server.log → o.status.manifestApplied = true → Imported c o := by
  have ht := traced hmain hc
  refine ⟨fun h hh => ?_,fun o ho ha => imported_of_applied ht (List.suffix_refl _) ho ha⟩
  exact inOrder_of_allowed fun ev k hk => ht.allowed hh hk

end runs

/-- A session is connected by a manifest with one object. -/
theorem manifest_applied_connected : ∃ c : Config (system .plain), (system .plain).Reachable c ∧
    (∃ o, some o ∈ c.server.log ∧ o.status.manifestApplied = true ∧ Imported c o) ∧
    ∃ h ∈ c.histories, applies h ≠ [] ∧ InOrder h := by
  obtain ⟨c,hc,hp⟩ := System.exists_config (start_emptyWorld .plain) connect
    (fun c => (c.server.current.any fun o => o.status.manifestApplied) &&
      c.past.any fun h => !(applies h).isEmpty) (by decide +kernel)
  obtain ⟨ho,hh⟩ := Bool.and_eq_true_iff.mp hp
  obtain ⟨o,ho,ha⟩ := (Option.any_eq_true _ _).mp ho
  obtain ⟨h,hh,hne⟩ := List.any_eq_true.mp hh
  have hmem : h ∈ c.histories := List.mem_append_right _ hh
  obtain ⟨hjobs,hlog⟩ := manifest_applied_in_order rfl hc
  have ho := Server.mem_of_current ho
  refine ⟨c,hc,⟨o,ho,ha,hlog o ho ha⟩,h,hmem,?_,hjobs h hmem⟩
  intro hnone
  rw [hnone] at hne
  cases hne

end LosantDevice.Session

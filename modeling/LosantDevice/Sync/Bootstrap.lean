import LosantDevice.Effect.Pool
import LosantDevice.Sync.Outcome
import LosantDevice.Sync.World

/-!
# The credentials of the gateway

`Bootstrap` and `EnsureCredentialPlaceholder` against the one Secret they write. Every call may
fail, and a write that returns an error may have been accepted all the same. What is asked of
Losant is on record, so that a statement can speak of the keys that were created. This vault is
what is seen of the world of a sync from one Secret.
-/
namespace LosantDevice.Sync
open Effect Kube Go Program

/-- The access keys that were asked for: the device and the answer, the latest first. -/
abbrev Keys := List (String × Except Losant.Error Losant.AccessKey)

/-- The state of the Secret, and every access key that was asked for. -/
structure Vault where
  secret : Option StoredSecret
  keys : Keys

namespace Vault
variable (w : Vault) (ref : NamespacedName)

/-- The answer to a read says how things are. -/
def Reads (r : Except ApiError StoredSecret) : Prop :=
  match r with
  | .ok s => w.secret = some s
  | .error err => err.reason = .notFound → w.secret = none

/-- A write of the Secret `s`, which the server accepts if `accepts`. -/
def Writes (accepts : Prop) (s : Secret) (r : Except ApiError Unit) (w' : Vault) : Prop :=
  w' = w ∧ (r = .ok () → s.namespacedName ≠ ref) ∨
    s.namespacedName = ref ∧ accepts ∧ ∃ v, w' = { w with secret := some ⟨v,s.data⟩ }

/-- How calls are answered. Reads are up to date if `fresh`, otherwise they say anything. -/
def serve (fresh : Prop) (w : Vault) : (e : interface.Call) → interface.Answer e → Vault → Prop
  | .inr (.getSecret ref'),r,w' => w' = w ∧ (fresh → ref' = ref → w.Reads r)
  | .inr (.createSecret s),r,w' => w.Writes ref (w.secret = none) s r w'
  | .inr (.updateSecret s),r,w' =>
    w.Writes ref (Follows s w.secret) s r w'
  | .inr (.losant _ (.createDeviceAccessKey _ id _)),r,w' =>
    w' = { w with keys := (id,r)::w.keys } ∧
      ∀ k : Losant.AccessKey, r = .ok k → k.key ≠ "" ∧ k.secret ≠ ""
  | _,_,w' => w' = w

end Vault

/-- A run with nobody else about. -/
abbrev Alone {α : Type} (ref : NamespacedName) (fresh : Prop) (p : M α) (w : Vault) (a : α)
    (w' : Vault) : Prop := Runs (Vault.serve ref fresh) (fun _ _ => False) p w a w'

/-- What a `Bootstrap` for the device `id` may do. Only the last two ask for reads that are up to
date. -/
structure Bootstraps (fresh : Prop) (id : String) (w : Vault) (a : Except String Unit)
    (w' : Vault) : Prop where
  atomic : w'.secret = w.secret ∨ ∃ v k, w'.secret = some ⟨v,credentialData id k⟩ ∧
    Complete (credentialData id k) id ∧ w'.keys = (id,.ok k)::w.keys
  once : w'.keys = w.keys ∨ ∃ r, w'.keys = (id,r)::w.keys
  needed : fresh → w'.keys ≠ w.keys → ∀ s, w.secret = some s → ¬Complete s.data id
  complete : fresh → a = .ok () → ∃ s, w'.secret = some s ∧ Complete s.data id

variable {lib : Externals} {lc : Losant.HTTPClient} {ls : LosantSync} {ref : NamespacedName}
  {fresh : Prop} {w w' : Vault} {a : Except String Unit} {id : String}

/-! ## The parts of `Bootstrap` -/

/-- The calls of a restart. -/
def Restarts : interface.Call → Prop
  | .inr (.getDeployment _) | .inr (.patchDeployment _ _) | .inr (.now _) => True
  | _ => False

theorem Restarts.served {e : interface.Call} {r : interface.Answer e} (he : Restarts e)
    (hs : w.serve ref fresh e r w') : w' = w := by
  revert he
  fun_cases Restarts e with
  | case1 | case2 | case3 => exact fun _ => hs
  | case4 => exact False.elim

theorem restartGEA_restarts {h : Past} :
    Obeys (fun _ e => Restarts e) (fun _ _ => True) h (restartGEA lib ls) := by
  unfold restartGEA restartDeployment
  split
  · refine ⟨trivial,?_⟩
    rintro (err | annotations)
    · trivial
    · refine ⟨trivial,fun t => ⟨trivial,?_⟩⟩
      rintro (err | ⟨⟩)
      · trivial
      · trivial
  · trivial

theorem restartGEA_alone (h : Alone ref fresh (restartGEA lib ls) w a w') : w' = w :=
  Runs.relates (R := fun u v => v = u) (fun _ => rfl) (fun h₁ h₂ => h₂.trans h₁) (fun h => h.elim)
    (fun he hs => he.served hs) (restartGEA_restarts (h := [])) h

/-- A write of the data, then a restart. -/
theorem writes_then_restart {accepts : Prop} {s : Secret} {r : Except ApiError Unit} {w₁ : Vault}
    {text : ApiError → String} (hw : w.Writes ref accepts s r w₁) (href : s.namespacedName = ref)
    (h : Alone ref fresh (match r with
      | .error err => pure (.error (text err))
      | .ok _ => restartGEA lib ls) w₁ a w') :
    w'.keys = w.keys ∧ (w'.secret = w.secret ∧ a ≠ .ok () ∨ ∃ v, w'.secret = some ⟨v,s.data⟩) := by
  rcases hw with ⟨rfl,hr⟩ | ⟨-,-,v,rfl⟩
  · cases r with
    | error err =>
      obtain ⟨rfl,rfl⟩ := h.done_alone
      exact ⟨rfl,.inl ⟨rfl,nofun⟩⟩
    | ok u => exact absurd href (hr rfl)
  · -- The write was accepted, whatever the answer.
    cases r with
    | error err =>
      obtain ⟨-,rfl⟩ := h.done_alone
      exact ⟨rfl,.inr ⟨v,rfl⟩⟩
    | ok u =>
      rw [restartGEA_alone h]
      exact ⟨rfl,.inr ⟨v,rfl⟩⟩

theorem storeCredentials_alone {data : GoMap String} {existing : Option Secret}
    (href : ref = ⟨ls.spec.provisioningSecretRef.namespace_,geaCredentialsSecretName⟩)
    (hex : ∀ s, existing = some s → s.namespacedName = ref)
    (h : Alone ref fresh (storeCredentials lib ls data existing) w a w') :
    w'.keys = w.keys ∧ (w'.secret = w.secret ∧ a ≠ .ok () ∨ ∃ v, w'.secret = some ⟨v,data⟩) := by
  cases existing with
  | none =>
    obtain ⟨r,w₁,hserve,hrest⟩ := h.call_alone
    have hserve : w.Writes ref _ _ r w₁ := hserve
    exact writes_then_restart hserve href.symm hrest
  | some s =>
    obtain ⟨r,w₁,hserve,hrest⟩ := h.call_alone
    have hserve : w.Writes ref _ { s with data := data } r w₁ := hserve
    exact writes_then_restart hserve (hex s rfl) hrest

/-- One key is asked for. Without it, or if its data are refused, nothing is stored. -/
theorem writeCredentials_alone {existing : Option Secret}
    (href : ref = ⟨ls.spec.provisioningSecretRef.namespace_,geaCredentialsSecretName⟩)
    (hex : ∀ s, existing = some s → s.namespacedName = ref)
    (h : Alone ref fresh (writeCredentials lib lc ls id existing) w a w') :
    ∃ r, w'.keys = (id,r)::w.keys ∧ (w'.secret = w.secret ∧ a ≠ .ok () ∨
      ∃ k v, r = .ok k ∧ (k.key ≠ "" ∧ k.secret ≠ "") ∧
        w'.secret = some ⟨v,credentialData id k⟩) := by
  obtain ⟨t,w₁,hserve,hrest⟩ := h.call_alone
  obtain rfl : w₁ = w := hserve
  obtain ⟨r,w₂,hserve,hrest⟩ := Runs.call_alone hrest
  obtain ⟨rfl,hkey⟩ := hserve
  refine ⟨r,?_⟩
  cases r with
  | error err =>
    obtain ⟨rfl,rfl⟩ := Runs.done_alone hrest
    exact ⟨rfl,.inl ⟨rfl,nofun⟩⟩
  | ok k =>
    obtain ⟨hkeys,hsecret⟩ := storeCredentials_alone href hex hrest
    refine ⟨hkeys,?_⟩
    rcases hsecret with ⟨hsame,ha⟩ | ⟨v,hv⟩
    · exact .inl ⟨hsame,ha⟩
    · exact .inr ⟨k,v,rfl,hkey k rfl,hv⟩

/-- `Bootstrap` from its second call on, when a key is needed. -/
theorem Bootstraps.of_write {existing : Option Secret} (hid : id ≠ "")
    (href : ref = ⟨ls.spec.provisioningSecretRef.namespace_,geaCredentialsSecretName⟩)
    (hex : ∀ s, existing = some s → s.namespacedName = ref)
    (hneeds : fresh → ∀ s, w.secret = some s → ¬Complete s.data id)
    (h : Alone ref fresh (writeCredentials lib lc ls id existing) w a w') :
    Bootstraps fresh id w a w' := by
  obtain ⟨r,hkeys,hsecret⟩ := writeCredentials_alone href hex h
  rcases hsecret with ⟨hsame,ha⟩ | ⟨k,v,rfl,hk,hv⟩
  · exact ⟨.inl hsame,.inr ⟨r,hkeys⟩,fun hf _ => hneeds hf,fun _ hok => absurd hok ha⟩
  · have hcomplete : Complete (credentialData id k) id :=
      complete_iff.mpr ⟨hid,holds_credentialData hk⟩
    exact ⟨.inr ⟨v,k,hv,hcomplete,hkeys⟩,.inr ⟨_,hkeys⟩,fun hf _ => hneeds hf,
      fun _ _ => ⟨_,hv,hcomplete⟩⟩

theorem bootstrap_alone (hid : id ≠ "")
    (href : ref = ⟨ls.spec.provisioningSecretRef.namespace_,geaCredentialsSecretName⟩)
    (h : Alone ref fresh (bootstrap lib lc ls id) w a w') : Bootstraps fresh id w a w' := by
  obtain ⟨r,w₁,hserve,hrest⟩ := h.call_alone
  obtain ⟨rfl,hreads⟩ := hserve
  have hreads := fun hf => hreads hf href.symm
  cases r with
  | error err =>
    change Alone ref fresh (if err.reason = .notFound then _ else _) w₁ a w' at hrest
    split at hrest
    · rename_i hnone
      refine .of_write hid href ?_ ?_ hrest
      · intro s hs
        cases hs
      · intro hf s hs
        rw [hreads hf hnone] at hs
        cases hs
    · obtain ⟨rfl,rfl⟩ := Runs.done_alone hrest
      exact ⟨.inl rfl,.inl rfl,fun _ hne => absurd rfl hne,nofun⟩
  | ok s =>
    change Alone ref fresh (if Complete s.data id then _ else _) w₁ a w' at hrest
    split at hrest
    · rename_i hcomplete
      rw [restartGEA_alone hrest]
      exact ⟨.inl rfl,.inl rfl,fun _ hne => absurd rfl hne,fun hf _ => ⟨s,hreads hf,hcomplete⟩⟩
    · rename_i hneeds
      refine .of_write hid href ?_ ?_ hrest
      · rintro s' ⟨⟩
        exact href.symm
      · intro hf s' hs'
        rw [hreads hf] at hs'
        cases hs'
        exact hneeds

/-! ## Once the credentials are there -/

/-- The calls of `EnsureCredentialPlaceholder`. -/
def Places : interface.Call → Prop
  | .inr (.getSecret _) | .inr (.createSecret _) => True
  | _ => False

theorem ensureCredentialPlaceholder_places {ns : String} {h : Past} :
    Obeys (fun _ e => Places e) (fun _ _ => True) h (ensureCredentialPlaceholder ns) := by
  refine ⟨trivial,?_⟩
  rintro (err | s)
  · change Obeys _ _ _ (if err.reason ≠ .notFound then _ else _)
    refine .ite trivial ⟨trivial,?_⟩
    rintro (err | ⟨⟩)
    · change Obeys _ _ _ (if err.reason ≠ .alreadyExists then _ else _)
      exact .ite trivial trivial
    · trivial
  · trivial

/-- A Secret that exists is not created again. -/
theorem Places.served {e : interface.Call} {r : interface.Answer e} (he : Places e)
    {s : StoredSecret} (hs : w.secret = some s) (hserve : w.serve ref fresh e r w') : w' = w := by
  revert he
  fun_cases Places e with
  | case1 => exact fun _ => hserve.1
  | case3 => exact False.elim
  | case2 =>
    intro _
    rcases hserve with ⟨hsame,-⟩ | ⟨-,hnone,-⟩
    · exact hsame
    · rw [hs] at hnone
      cases hnone

/-! ## In the world of a sync -/

def recordKey : (e : Call) → calls.Answer e → Keys → Keys
  | .losant _ (.createDeviceAccessKey _ id _),r,keys => (id,r)::keys
  | _,_,keys => keys

/-- A read of a Secret says how things are. -/
def UpToDate (w : World) : (e : Call) → calls.Answer e → Prop
  | .getSecret ref,r => (⟨w.secret ref,[]⟩ : Vault).Reads r
  | _,_ => True

/-- The world with a record of the keys that were asked for. -/
def World.serves (site : Site) (fresh : Prop) (x : World × Keys) :
    (e : interface.Call) → interface.Answer e → World × Keys → Prop
  | .inl _,_,y => y = x
  | .inr e,r,y => x.1.answers site e r y.1 ∧ y.2 = recordKey e r x.2 ∧ (fresh → UpToDate x.1 e r)

/-- What is seen of the world from one Secret. -/
def Vault.of (ref : NamespacedName) (x : World × Keys) : Vault := ⟨x.1.secret ref,x.2⟩

theorem Vault.Writes.of_put {accepts : Prop} {s : Secret} {x : World × Keys} {v : ℕ}
    (hacc : s.namespacedName = ref → accepts) : (Vault.of ref x).Writes ref accepts s (.ok ())
      (Vault.of ref (x.1.put s.namespacedName (some ⟨v,s.data⟩),x.2)) := by
  by_cases href : s.namespacedName = ref
  · subst href
    exact .inr ⟨rfl,hacc rfl,v,by simp [Vault.of,World.secret,World.put]⟩
  · refine .inl ⟨?_,fun _ => href⟩
    simp [Vault.of,World.secret,World.put,Function.update_of_ne (Ne.symm href)]

/-- Seen from a Secret, the world is its vault. -/
theorem World.serves.vault {site : Site} {x y : World × Keys} {e : interface.Call}
    {r : interface.Answer e} (h : World.serves site fresh x e r y) :
    Vault.serve ref fresh (.of ref x) e r (.of ref y) := by
  obtain ⟨w,keys⟩ := x
  obtain ⟨w',keys'⟩ := y
  cases e with
  | inl e =>
    cases h
    rfl
  | inr e =>
    obtain ⟨ha,hkeys,hreads⟩ := h
    obtain rfl : keys' = recordKey e r keys := hkeys
    cases e with
    | getSecret ref' =>
      obtain ⟨rfl,-⟩ := ha
      refine ⟨rfl,?_⟩
      rintro hfresh rfl
      exact hreads hfresh
    | createSecret s =>
      cases r with
      | error err =>
        obtain rfl : w' = w := ha
        exact .inl ⟨rfl,nofun⟩
      | ok u =>
        obtain ⟨habsent,v,rfl⟩ := ha
        exact .of_put fun href => href ▸ habsent
    | updateSecret s =>
      cases r with
      | error err =>
        obtain rfl : w' = w := ha
        exact .inl ⟨rfl,nofun⟩
      | ok u =>
        obtain ⟨hlatest,v,rfl⟩ := ha
        exact .of_put fun href => href ▸ hlatest
    | losant c m =>
      obtain ⟨t,hserve,rfl⟩ := ha
      cases m with
      | createDeviceAccessKey app id name =>
        refine ⟨rfl,?_⟩
        rintro k rfl
        have hkey : (c.createDeviceAccessKey app id name).Runs _ _ _ _ _ := hserve
        exact Losant.createDeviceAccessKey_complete hkey
      | _ => rfl
    | _ =>
      obtain rfl : w' = w := ha
      rfl

/-- What `Bootstrap` may do at the vault is what it may do in the world. -/
theorem bootstrap_in_world {site : Site} {x y : World × Keys} (hid : id ≠ "")
    (href : ref = ⟨ls.spec.provisioningSecretRef.namespace_,geaCredentialsSecretName⟩)
    (h : Runs (World.serves site fresh) (fun _ _ => False) (bootstrap lib lc ls id) x a y) :
    Bootstraps fresh id (.of ref x) a (.of ref y) :=
  bootstrap_alone hid href (h.image (Vault.of ref) (fun hf => hf.elim) (fun hs => hs.vault))

/-- The programs that may start: a `Bootstrap` for the device whose Secret is in `ns`, and
placeholders. -/
inductive Begins (ns id : String) : M (Except String Unit) → Prop
  | bootstrap (lib : Externals) (lc : Losant.HTTPClient) (ls : LosantSync)
      (here : ls.spec.provisioningSecretRef.namespace_ = ns) : Begins ns id (bootstrap lib lc ls id)
  | placeholder (ns' : String) : Begins ns id (ensureCredentialPlaceholder ns')

section settled
variable {w₀ : Vault} {s : StoredSecret}

theorem placeholder_keeps {ns : String} {p : M (Except String Unit)} (hs : w₀.secret = some s)
    (hp : Rest (ensureCredentialPlaceholder ns) p) :
    Keeps (Vault.serve ref fresh) (fun w => w = w₀) p := by
  obtain ⟨h,hp⟩ := (ensureCredentialPlaceholder_places (h := [])).rest hp
  refine Keeps.of_obeys ?_ hp
  rintro w e r w' he rfl hserve
  exact he.served hs hserve

theorem bootstrap_keeps (hs : w₀.secret = some s) (hcomplete : Complete s.data id)
    (href : ref = ⟨ls.spec.provisioningSecretRef.namespace_,geaCredentialsSecretName⟩) :
    Keeps (Vault.serve ref True) (fun w => w = w₀) (bootstrap lib lc ls id) := by
  rintro w r w' rfl ⟨rfl,hreads⟩
  refine ⟨rfl,?_⟩
  have hreads := hreads trivial href.symm
  cases r with
  | error err =>
    change Keeps _ _ (if err.reason = .notFound then _ else _)
    have hthere : err.reason ≠ .notFound := by
      intro hnone
      rw [hreads hnone] at hs
      cases hs
    rw [if_neg hthere]
    trivial
  | ok s' =>
    have hs' : w'.secret = some s' := hreads
    rw [hs] at hs'
    cases hs'
    change Keeps _ _ (if Complete s.data id then _ else _)
    rw [if_pos hcomplete]
    refine Keeps.of_obeys ?_ (restartGEA_restarts (h := []))
    rintro w e r w' he rfl hserve
    exact he.served hserve

end settled

/-- What is asked of the bootstrapper of the device `id` with its Secret in `ns`. -/
structure BootstrapContract (ns id : String) : Prop where
  attempt {fresh : Prop} {lib lc} {ls : LosantSync} {w a w'} :
    ls.spec.provisioningSecretRef.namespace_ = ns →
    Alone ⟨ns,geaCredentialsSecretName⟩ fresh (bootstrap lib lc ls id) w a w' →
    Bootstraps fresh id w a w'
  settled {w w' : Vault} {s} {ps ps' : List (M (Except String Unit))} : w.secret = some s →
    Complete s.data id → (∀ p ∈ ps, ∃ ns', Rest (ensureCredentialPlaceholder ns') p) →
    Relation.ReflTransGen (PoolStep (Vault.serve ⟨ns,geaCredentialsSecretName⟩ True) (Begins ns id))
      (w,ps) (w',ps') → w' = w

/-- A `Bootstrap` leaves the Secret alone or stores complete credentials of one new key, and once
those are there no number of further ones, with placeholders at any stage in between, touches it
or asks for a key. -/
theorem bootstrap_contract (ns id : String) (hid : id ≠ "") : BootstrapContract ns id where
  attempt := by
    rintro fresh lib lc ls w a w' rfl h
    exact bootstrap_alone hid rfl h
  settled := by
    intro w w' s ps ps' hs hcomplete hps h
    refine Keeps.pool (J := fun v => v = w) ?_ ?_ rfl h
    · intro p hp
      cases hp with
      | bootstrap lib lc ls here =>
        refine bootstrap_keeps hs hcomplete ?_
        rw [here]
      | placeholder ns' => exact placeholder_keeps hs (.refl _)
    · intro p hp
      obtain ⟨ns',hrest⟩ := hps p hp
      exact placeholder_keeps hs hrest

/-- A first `Bootstrap` in which every call works. -/
theorem bootstrap_contract_absent :
    "c1" ≠ "" ∧ ∃ w', Alone ⟨"default",geaCredentialsSecretName⟩ True
    (bootstrap .plain ⟨"token","app"⟩ newSync "c1") ⟨none,[]⟩ (.ok ()) w' ∧
      Bootstraps True "c1" ⟨none,[]⟩ (.ok ()) w' := by
  let k : Losant.AccessKey := ⟨"k","key","secret"⟩
  have hrun : Alone ⟨"default",geaCredentialsSecretName⟩ True
      (bootstrap .plain ⟨"token","app"⟩ newSync "c1") ⟨none,[]⟩ (.ok ())
      ⟨some ⟨1,credentialData "c1" k⟩,[("c1",.ok k)]⟩ := by
    refine Runs.call (I := interface) (e := .inr (.getSecret ⟨"default",geaCredentialsSecretName⟩))
      (r := .error ⟨.notFound,"secrets not found"⟩) ⟨rfl,fun _ _ _ => rfl⟩ ?_
    refine Runs.call (I := interface) (e := .inr (.now .keyName)) (r := (0 : ℤ)) rfl ?_
    refine Runs.call (I := interface) (e := .inr (.losant _ (.createDeviceAccessKey _ _ _)))
      (r := .ok k) ⟨rfl,?_⟩ ?_
    · rintro k' ⟨⟩
      exact ⟨by decide,by decide⟩
    · exact Runs.call (I := interface) (e := .inr (.createSecret _)) (r := .ok ())
        (.inr ⟨rfl,rfl,1,rfl⟩) .done
  exact ⟨by decide,_,hrun,(bootstrap_contract "default" "c1" (by decide)).attempt rfl hrun⟩

end LosantDevice.Sync

import LosantDevice.Session.Expiry

/-!
# Disconnecting without a client

When the credentials Secret cannot be read, `rancherClient` returns a nil interface, and only the
namespace is cleaned up. When the Secret can be read but makes no client, it returns an interface
that holds a nil pointer; that is not nil, and the disconnect goes on as if there were a client.
-/
namespace LosantDevice.Session
open Effect Kube Go Program

section fallback
variable (lib : Externals) (rs : RancherSession) (s : Strategy interface) (h : History interface)

/-- The credentials Secret as it was read. -/
def secretAnswer : Except ApiError StoredSecret :=
  s h (.inr (.getSecret rs.spec.credentialsSecretRef.namespacedName))

def secretRead : History interface :=
  ⟨.inr (.getSecret rs.spec.credentialsSecretRef.namespacedName),secretAnswer rs s h⟩::h

/-- The outcome of deleting the namespace next. -/
def namespaceAnswer : Except ApiError Unit :=
  s (secretRead rs s h) (.inr (.deleteNamespace cattleSystemNamespace))

def afterNamespace : History interface :=
  ⟨.inr (.deleteNamespace cattleSystemNamespace),namespaceAnswer rs s h⟩::secretRead rs s h

/-- The session without the finalizer. -/
def released : RancherSession := { rs with metadata := { rs.metadata with
  finalizers := rs.metadata.finalizers.filter (· ≠ rancherFinalizer) } }

def updateAnswer : Except ApiError ℕ := s (afterNamespace rs s h) (.inl (.update (released rs)))

/-- What is to be done without a client, and nothing else: the namespace is deleted, and if that has
worked the finalizer is removed. The result is the error of the call that failed, if any. -/
def namespaceOnly : History interface × Except String Result :=
  match namespaceAnswer rs s h with
  | .error err =>
    if err.reason = .notFound then removal
    else (afterNamespace rs s h,.error ("delete namespace cattle-system: " ++ err.text))
  | .ok _ => removal
where
  removal : History interface × Except String Result :=
    (⟨.inl (.update (released rs)),updateAnswer rs s h⟩::afterNamespace rs s h,
      match updateAnswer rs s h with
      | .error err => .error err.text
      | .ok _ => .ok {})

/-- `rancherClient` returns an error. -/
def NoUsableClient : Prop :=
  ∃ e, clientFrom lib (named rs.spec.credentialsSecretRef (secretAnswer rs s h)) = .error e

/-- The Secret lacks a key, or its `RANCHER_CA` has no certificate. -/
def Incomplete (data : GoMap String) : Prop :=
  data.lookup "RANCHER_URL" = none ∨ data.lookup "RANCHER_TOKEN" = none ∨
    data.lookup "RANCHER_CA" = none ∨
    ∃ ca, data.lookup "RANCHER_CA" = some ca ∧ lib.appendCertsFromPEM ca = false

theorem newHTTPClient_refuses (secret : Secret) :
    (∃ err, Rancher.newHTTPClient lib secret = .error err) ↔ Incomplete lib secret.data := by
  unfold Rancher.newHTTPClient Incomplete
  cases secret.data.lookup "RANCHER_URL" with
  | none => simp
  | some url =>
    cases secret.data.lookup "RANCHER_TOKEN" with
    | none => simp
    | some token =>
      cases secret.data.lookup "RANCHER_CA" with
      | none => simp
      | some ca => cases hpem : lib.appendCertsFromPEM ca <;> simp [hpem]

variable {lib rs s h}

theorem run_removeFinalizer :
    run s (afterNamespace rs s h) (removeFinalizer rs) = namespaceOnly.removal rs s h := by
  unfold namespaceOnly.removal
  generalize hr : updateAnswer rs s h = r
  refine (run_answer (h := afterNamespace rs s h) hr).trans ?_
  cases r <;> rfl

theorem run_cleanupWithoutClient :
    run s (secretRead rs s h) (cleanupWithoutClient rs) = namespaceOnly rs s h := by
  unfold namespaceOnly
  rw [← run_removeFinalizer]
  unfold afterNamespace
  generalize hr : namespaceAnswer rs s h = r
  refine (run_answer (h := secretRead rs s h) hr).trans ?_
  cases r with
  | ok u => rfl
  | error err =>
    change run s _ ((if err.reason ≠ .notFound then _ else _ : M (Except String Unit)) >>= _) = _
    by_cases hgone : err.reason = .notFound
    · rw [if_neg (not_not_intro hgone)]
      simp only [if_pos hgone]
      rfl
    · rw [if_pos hgone]
      simp only [if_neg hgone]
      rfl

/-- What is done after the Secret was read. -/
theorem run_handleDisconnect (hfin : rancherFinalizer ∈ rs.metadata.finalizers) :
    run s h (handleDisconnect lib rs) = run s (secretRead rs s h)
      (match clientFrom lib (named rs.spec.credentialsSecretRef (secretAnswer rs s h)) with
      | .ok c => cleanupOnDeletion lib (some c) rs
      | .error e =>
        if e.nilPointer then cleanupOnDeletion lib none rs else cleanupWithoutClient rs) := by
  unfold handleDisconnect
  rw [if_neg (not_not_intro hfin)]
  rfl

/-- The only calls without a client. -/
theorem namespaceOnly_calls : ∃ l, (namespaceOnly rs s h).1 = l ++ secretRead rs s h ∧
    l.map Event.call ⊆
      [.inl (.update (released rs)),.inr (.deleteNamespace cattleSystemNamespace)] := by
  unfold namespaceOnly
  split
  · split
    · exact ⟨[_,_],rfl,List.Subset.refl _⟩
    · exact ⟨[_],rfl,List.subset_cons_self _ _⟩
  · exact ⟨[_,_],rfl,List.Subset.refl _⟩

/-- The cleanup of a session begins with a write of its status, whatever the client is. -/
theorem cleanupOnDeletion_ne (rc : Option Rancher.HTTPClient) :
    run s (secretRead rs s h) (cleanupOnDeletion lib rc rs) ≠ namespaceOnly rs s h := by
  intro heq
  obtain ⟨o,r,hsuf⟩ : ∃ o r, ⟨.inl (.updateStatus o),r⟩::secretRead rs s h <:+
      (run s (secretRead rs s h) (cleanupOnDeletion lib rc rs)).1 := ⟨_,_,suffix_run s _ _⟩
  obtain ⟨l,hl,hcalls⟩ : ∃ l, (namespaceOnly rs s h).1 = l ++ secretRead rs s h ∧ _ :=
    namespaceOnly_calls
  rw [heq,hl] at hsuf
  rcases hcalls (call_mem_of_suffix (List.suffix_refl _) hsuf) with _ | ⟨_,_ | ⟨_,hmem⟩⟩
  cases hmem

end fallback

/-- A disconnect without a client leaves everything but the namespace and the finalizer alone,
exactly if that is not because of what the Secret holds. -/
theorem disconnect_fallback_iff (lib : Externals) (rs : RancherSession)
    (hfin : rancherFinalizer ∈ rs.metadata.finalizers) (s : Strategy interface)
    (h : History interface) :
    (NoUsableClient lib rs s h → run s h (handleDisconnect lib rs) = namespaceOnly rs s h) ↔
      ¬∃ secret, secretAnswer rs s h = .ok secret ∧ Incomplete lib secret.data := by
  rw [run_handleDisconnect hfin]
  unfold NoUsableClient
  cases hsecret : secretAnswer rs s h with
  | error err => exact iff_of_true (fun _ => run_cleanupWithoutClient) nofun
  | ok secret =>
    let read : Secret :=
      { toStoredSecret := secret
        namespace_ := rs.spec.credentialsSecretRef.namespace_
        name := rs.spec.credentialsSecretRef.name }
    have hrefuses := newHTTPClient_refuses lib read
    have hread : named rs.spec.credentialsSecretRef (.ok secret) = .ok read := rfl
    rw [hread]
    dsimp only [clientFrom]
    cases hnew : Rancher.newHTTPClient lib read with
    | ok c =>
      rw [hnew] at hrefuses
      refine iff_of_true nofun ?_
      rintro ⟨_,⟨⟩,hinc⟩
      exact absurd (hrefuses.mpr hinc) nofun
    | error err =>
      refine iff_of_false (fun hfalls => ?_) (not_not_intro ⟨secret,rfl,hrefuses.mp ⟨err,hnew⟩⟩)
      exact cleanupOnDeletion_ne none (hfalls ⟨_,rfl⟩)

/-- A session that is being deleted. -/
def closing : RancherSession :=
  { ending with metadata := { ending.metadata with deletionTimestamp := some (120*second) } }

/-- The Secret is read with the outcome `r`, and every other call works. -/
def reading (r : Except ApiError StoredSecret) : Strategy interface
  | _,.inr (.getSecret _) => r
  | h,e => readings 0 0 h e

/-- Without the Secret the finalizer is removed once the namespace is deleted. -/
theorem disconnect_fallback_absent : rancherFinalizer ∈ closing.metadata.finalizers ∧
    run (reading (.error ⟨.notFound,"secrets not found"⟩)) [] (handleDisconnect .plain closing) =
      namespaceOnly closing (reading (.error ⟨.notFound,"secrets not found"⟩)) [] := by
  have hfin : rancherFinalizer ∈ closing.metadata.finalizers := by decide
  refine ⟨hfin,(disconnect_fallback_iff .plain closing hfin _ []).mpr ?_ ⟨_,rfl⟩⟩
  rintro ⟨secret,hsecret,-⟩
  cases hsecret

def withoutCA : StoredSecret where
  data := ((∅ : GoMap String).insert "RANCHER_URL" "https://rancher").insert "RANCHER_TOKEN" "token"

/-- With a Secret that has no certificate, the client is called through a nil pointer before the
namespace is deleted. -/
theorem disconnect_dereferences_nil : closing.metadata.deletionTimestamp.isSome ∧
    rancherFinalizer ∈ closing.metadata.finalizers ∧
    NoUsableClient .plain closing (reading (.ok withoutCA)) [] ∧
    (run (reading (.ok withoutCA)) [] (handleDisconnect .plain closing)).2 = .error nilDereference ∧
    (run (reading (.ok withoutCA)) [] (handleDisconnect .plain closing)).1.map Event.call =
      [.inl (.updateStatus
        { closing with status := { closing.status with phase := .disconnecting } }),
        .inr (.getSecret ⟨"default","rancher"⟩)] := by
  refine ⟨rfl,by decide,⟨_,rfl⟩,rfl,rfl⟩

end LosantDevice.Session

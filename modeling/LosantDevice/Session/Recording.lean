import LosantDevice.Kube.Wording
import LosantDevice.Session.Obeys

/-!
# What a session records of a failure

Every place where the reconciler of sessions gives up, with the reason it records, the words it
writes itself and the text it was told.
-/
namespace LosantDevice.Session
open Effect Kube Go Program

/-- The failures of `applyManifest`. -/
inductive ManifestFails (h : Past) : String → String → Prop
  | secret {ref} {err : ApiError}
      (told : (⟨.inr (.getSecret ref),.error err⟩ : Event interface) ∈ h) :
      ManifestFails h "read credentials secret: " err.text
  | unbuilt {ca url err} (told : (⟨.inr (.fetchManifest ca url),.unbuilt err⟩ :
      Event interface) ∈ h) : ManifestFails h "build manifest request: " err
  | failed {ca url err} (told : (⟨.inr (.fetchManifest ca url),.failed err⟩ :
      Event interface) ∈ h) : ManifestFails h "fetch manifest: " err
  | status {ca url status body} (told : (⟨.inr (.fetchManifest ca url),.response status body⟩ :
      Event interface) ∈ h) : ManifestFails h "fetch manifest: status " (toString status)
  | unread {ca url status err}
      (told : (⟨.inr (.fetchManifest ca url),.response status (.error err)⟩ :
        Event interface) ∈ h) : ManifestFails h "read manifest body: " err
  | decode {ca url status} {m : Manifest} {err}
      (told : (⟨.inr (.fetchManifest ca url),.response status (.ok m)⟩ : Event interface) ∈ h)
      (rest : m.rest = some err) : ManifestFails h "decode manifest document: " err
  | apply {d : Document} {err : ApiError}
      (told : (⟨.inr (.apply d),.error err⟩ : Event interface) ∈ h) :
      ManifestFails h ("apply " ++ d.kind ++ " " ++ d.namespace_ ++ "/" ++ d.name ++ ": ") err.text

/-- The failures of a session after the calls `h`. -/
inductive Complains (lib : Externals) (spec : RancherSessionSpec) (h : Past) : Complaint → Prop
  | noSecret {err : ApiError} (told : (⟨.inr (.getSecret
        spec.credentialsSecretRef.namespacedName),.error err⟩ : Event interface) ∈ h) :
      Complains lib spec h ⟨"InvalidSecret","read credentials secret: ",err.text⟩
  | invalidSecret {s : StoredSecret} {err : String} (told : (⟨.inr (.getSecret
        spec.credentialsSecretRef.namespacedName),.ok s⟩ : Event interface) ∈ h)
      (bad : clientFrom lib (named spec.credentialsSecretRef (.ok s)) = .error ⟨err,true⟩) :
      Complains lib spec h ⟨"InvalidSecret",err,""⟩
  | findCluster {c name} {err : Rancher.Error}
      (told : (⟨.inr (.rancher c (.findCluster name)),.error err⟩ : Event interface) ∈ h) :
      Complains lib spec h ⟨"FindClusterFailed","",err.text⟩
  | createCluster {c name} {err : Rancher.Error}
      (told : (⟨.inr (.rancher c (.createCluster name)),.error err⟩ : Event interface) ∈ h) :
      Complains lib spec h ⟨"CreateClusterFailed","",err.text⟩
  | getToken {c id} {err : Rancher.Error}
      (told : (⟨.inr (.rancher c (.getRegistrationToken id)),.error err⟩ : Event interface) ∈ h) :
      Complains lib spec h ⟨"GetTokenFailed","",err.text⟩
  | getCluster {c id} {err : Rancher.Error}
      (told : (⟨.inr (.rancher c (.getCluster id)),.error err⟩ : Event interface) ∈ h) :
      Complains lib spec h ⟨"GetClusterFailed","",err.text⟩
  | deleteCluster {c id} {err : Rancher.Error}
      (told : (⟨.inr (.rancher c (.deleteCluster id)),.error err⟩ : Event interface) ∈ h) :
      Complains lib spec h ⟨"DeleteClusterFailed","",err.text⟩
  | manifest {label text} (failed : ManifestFails h label text) :
      Complains lib spec h ⟨"ManifestApplyFailed",label,text⟩
  | timeout : Complains lib spec h
      ⟨"AgentReadyTimeout","cattle-cluster-agent did not become ready within 2m0s",""⟩

/-- The clock is read for a condition right after a request to Rancher. `setAPIUnreachable` is the
only place where this happens. -/
def Unreached : Past → Prop
  | ⟨.inr (.now .transition),_⟩::⟨.inr (.rancher _ _),_⟩::_ => True
  | _ => False

/-- A failure is recorded with the phase `Failed`, or right after a request to Rancher. -/
def recorder (lib : Externals) : Recorder rancherSession calls SessionCondition where
  conditions t := t.conditions
  Complains spec h ty f := ty = .rancherAPIReachable ∧ Complains lib spec h f
  summary := .rancherAPIReachable
  Records h rs := rs.status.phase = .failed ∨ Unreached h

abbrev Words (lib : Externals) : Past → interface.Call → Prop := (recorder lib).Words

abbrev Wording (lib : Externals) (h : Past) (p : M (Except String Result)) : Prop :=
  Obeys (Words lib) (fun _ _ => True) h p

abbrev Tidy (lib : Externals) (h : Past) (rs : RancherSession) : Prop := (recorder lib).Tidy h rs

variable {lib : Externals} {h h' : Past} {rs : RancherSession} {spec : RancherSessionSpec}
  {α : Type} {c : Rancher.HTTPClient} {rc : Option Rancher.HTTPClient} {f : Complaint}

theorem ManifestFails.later {label text : String} (hf : ManifestFails h label text)
    (hs : h <:+ h') : ManifestFails h' label text := by
  cases hf with
  | secret ht => exact .secret (hs.subset ht)
  | unbuilt ht => exact .unbuilt (hs.subset ht)
  | failed ht => exact .failed (hs.subset ht)
  | status ht => exact .status (hs.subset ht)
  | unread ht => exact .unread (hs.subset ht)
  | decode ht hr => exact .decode (hs.subset ht) hr
  | apply ht => exact .apply (hs.subset ht)

theorem Complains.later (hf : Complains lib spec h f) (hs : h <:+ h') :
    Complains lib spec h' f := by
  cases hf with
  | noSecret ht => exact .noSecret (hs.subset ht)
  | invalidSecret ht hb => exact .invalidSecret (hs.subset ht) hb
  | findCluster ht => exact .findCluster (hs.subset ht)
  | createCluster ht => exact .createCluster (hs.subset ht)
  | getToken ht => exact .getToken (hs.subset ht)
  | getCluster ht => exact .getCluster (hs.subset ht)
  | deleteCluster ht => exact .deleteCluster (hs.subset ht)
  | manifest hm => exact .manifest (hm.later hs)
  | timeout => exact .timeout

/-- The reasons are literals that the schema admits. -/
theorem Complains.reasoned (hf : Complains lib spec h f) : f.Reasoned := by
  unfold Complaint.Reasoned
  cases hf <;> dsimp only <;> decide

/-- A condition with short literal texts. -/
theorem Tidy.condition (ht : Tidy lib h rs) {t : Time} {v : ConditionStatus}
    {reason message : String}
    (hr : reasonMatches reason.toList = true) (hlen : reason.length ≤ 1024)
    (hm : message.length ≤ 32768) : Tidy lib h (withCondition lib t rs v reason message) :=
  fun hread => (ht hread).set lib.conditions t ⟨hr,hlen,hm⟩

/-! ## Recording a failure -/

theorem complained (hf : f.Reasoned) {t : Time} (hrs : Fits rs.status.conditions) :
    (recorder lib).Complained .rancherAPIReachable f
      (withCondition lib t rs .false f.reason f.message).status.conditions := by
  change (recorder lib).Complained _ f (lib.conditions.set t rs.status.conditions
    (f.condition .rancherAPIReachable rs.metadata.generation))
  exact Recorder.complained_set lib.conditions t hf (fun hne => absurd rfl hne) (fun _ => hrs)

/-- A write that records no failure. -/
theorem Tidy.quiet (ht : Tidy lib h rs) (hphase : rs.status.phase ≠ .failed) (hq : ¬Unreached h) :
    Words lib h (.inl (.updateStatus rs)) := Recorder.Tidy.words ht (not_or.mpr ⟨hphase,hq⟩)

theorem updateStatus_words {g : Except ApiError ℕ → M (Except String Result)}
    (hw : Words lib h (.inl (.updateStatus rs))) (herr : ∀ h' err, Wording lib h' (g (.error err)))
    (hok : ∀ v, Wording lib (⟨.inl (.updateStatus rs),.ok v⟩::h) (g (.ok v))) :
    Wording lib h (updateStatus rs >>= g) := by
  refine ⟨hw,?_⟩
  rintro (err | v)
  · exact herr _ err
  · exact hok v

/-- `setFailed` records the failure it is called for. -/
theorem setFailed_words (ht : Tidy lib h rs) {reason label text message : String}
    (hf : Complains lib rs.spec h ⟨reason,label,text⟩) (hm : label ++ text = message) :
    Wording lib h (setFailed lib rs reason message) := by
  subst hm
  refine ⟨trivial,fun t => updateStatus_words ?_ (fun _ _ => trivial) (fun _ => trivial)⟩
  intro hread
  let rs' : RancherSession := { rs with status := { rs.status with
    phase := .failed, lastTransitionMessage := label ++ text } }
  have hrs : Fits rs'.status.conditions := ht (hread.earlier (List.suffix_cons _ _))
  have hshown : (recorder lib).Complained .rancherAPIReachable ⟨reason,label,text⟩
      (withCondition lib t rs' .false reason (label ++ text)).status.conditions :=
    complained hf.reasoned hrs
  exact .inl ⟨.inl rfl,_,⟨reason,label,text⟩,⟨rfl,hf.later (List.suffix_cons _ _)⟩,hshown⟩

/-- So does `setAPIUnreachable`, which is called when Rancher has answered. -/
theorem setAPIUnreachable_words {m : Rancher.Method} {r : m.Answer}
    (ht : Tidy lib (⟨.inr (.rancher c m),r⟩::h) rs) {reason label text message : String}
    (hf : Complains lib rs.spec (⟨.inr (.rancher c m),r⟩::h) ⟨reason,label,text⟩)
    (hm : label ++ text = message) :
    Wording lib (⟨.inr (.rancher c m),r⟩::h) (setAPIUnreachable lib rs reason message) := by
  subst hm
  refine ⟨trivial,fun t => updateStatus_words ?_ (fun _ _ => trivial) (fun _ => trivial)⟩
  intro hread
  have hrs : Fits rs.status.conditions := ht (hread.earlier (List.suffix_cons _ _))
  exact .inl ⟨.inr trivial,_,⟨reason,label,text⟩,⟨rfl,hf.later (List.suffix_cons _ _)⟩,
    complained hf.reasoned hrs⟩

/-! ## Connecting -/

/-- What a part of `applyManifest` ends with. -/
abbrev ManifestEnds : Past → Past → Except String Unit → Prop := Ends ManifestFails

theorem applyDocuments_words {rest : Option String} (l : List Document)
    (hrest : ∀ err, rest = some err → ManifestFails h "decode manifest document: " err) :
    Obeys (Words lib) (ManifestEnds h) h (applyDocuments rest l) := by
  induction l generalizing h with
  | nil =>
    cases rest with
    | none => exact .ok (List.suffix_refl h)
    | some err => exact .error (List.suffix_refl h) (hrest err rfl)
  | cons d l ih =>
    unfold applyDocuments
    split
    · exact ih hrest
    · refine ⟨trivial,?_⟩
      rintro (err | ⟨⟩)
      · exact .error (List.suffix_cons _ _) (.apply List.mem_cons_self)
      · exact obeys_ends_cons (ih (fun err he => (hrest err he).later (List.suffix_cons _ _)))

theorem applyManifest_words {url : String} :
    Obeys (Words lib) (ManifestEnds h) h (applyManifest rs url) := by
  refine ⟨trivial,?_⟩
  rintro (err | (s : StoredSecret))
  · exact .error (List.suffix_cons _ _) (.secret List.mem_cons_self)
  · refine obeys_ends_cons ⟨trivial,?_⟩
    rintro (err | err | ⟨status,body⟩)
    · exact .error (List.suffix_cons _ _) (.unbuilt List.mem_cons_self)
    · exact .error (List.suffix_cons _ _) (.failed List.mem_cons_self)
    · change Obeys _ _ _ (if 400 ≤ status then _ else _)
      split
      · exact .error (List.suffix_cons _ _) (.status List.mem_cons_self)
      · cases body with
        | error err => exact .error (List.suffix_cons _ _) (.unread List.mem_cons_self)
        | ok m => exact obeys_ends_cons (applyDocuments_words _
            (fun err he => .decode List.mem_cons_self he))

theorem recordManifest_words (ht : Tidy lib h rs) (hphase : rs.status.phase ≠ .failed) :
    Wording lib h (recordManifest lib rs) := by
  refine ⟨trivial,fun (t : Time) => ⟨trivial,fun u => ?_⟩⟩
  refine updateStatus_words ?_ (fun _ _ => trivial) (fun _ => trivial)
  let rs' : RancherSession := { rs with status := { rs.status with
    manifestApplied := true, connectedAt := some t
    expiresAt := some ((t : ℤ)+agentReadyTimeout : ℤ) } }
  have ht' : Tidy lib h rs' := ht
  exact Tidy.quiet (Tidy.condition ht'.cons.cons (by decide) (by decide) (by decide)) hphase id

theorem registerCluster_words (ht : Tidy lib h rs) (hphase : rs.status.phase ≠ .failed)
    {id : String} : Wording lib h (registerCluster lib c rs id) := by
  let rs' : RancherSession := { rs with status := { rs.status with rancherClusterID := id } }
  have ht' : Tidy lib h rs' := ht
  refine ⟨trivial,?_⟩
  rintro (err | (url : String))
  · exact setAPIUnreachable_words ht'.cons (.getToken List.mem_cons_self) String.empty_append
  · refine applyManifest_words.bind ?_
    rintro h' (err | ⟨⟩) ⟨hs,hbad⟩
    · obtain ⟨label,text,hf,hm⟩ := hbad err rfl
      exact setFailed_words (ht'.cons.later hs) (.manifest hf) hm
    · exact recordManifest_words (ht'.cons.later hs) hphase

theorem findOrCreateCluster_words (ht : Tidy lib h rs) (hphase : rs.status.phase ≠ .failed) :
    Wording lib h (findOrCreateCluster lib c rs) := by
  refine ⟨trivial,?_⟩
  rintro (err | _ | id)
  · exact setAPIUnreachable_words ht.cons (.findCluster List.mem_cons_self) String.empty_append
  · refine ⟨trivial,?_⟩
    rintro (err | id)
    · exact setAPIUnreachable_words ht.cons.cons (.createCluster List.mem_cons_self)
        String.empty_append
    · exact registerCluster_words ht.cons.cons hphase
  · exact registerCluster_words ht.cons hphase

theorem handleConnect_words (ht : Tidy lib h rs) (hq : ¬Unreached h) :
    Wording lib h (handleConnect lib c rs) := by
  have ht' : Tidy lib h { rs with status := { rs.status with phase := .connecting } } := ht
  refine updateStatus_words (Tidy.quiet ht' nofun hq) (fun _ _ => trivial) (fun v => ?_)
  exact findOrCreateCluster_words (h := _::h) (fun hread => (ht.cons hread).encode) nofun

theorem becomeConnected_words (ht : Tidy lib h rs) : Wording lib h (becomeConnected lib rs) := by
  refine ⟨trivial,fun (t : Time) => ⟨trivial,fun u => ?_⟩⟩
  refine updateStatus_words ?_ (fun _ _ => trivial) (fun _ => trivial)
  let rs' : RancherSession := { rs with status := { rs.status with
    phase := .connected, connectedAt := some t
    expiresAt := some ((t : ℤ)+wrapInt64 (rs.spec.ttlSeconds*second) : ℤ) } }
  have ht' : Tidy lib h rs' := ht
  exact Tidy.quiet (Tidy.condition ht'.cons.cons (by decide) (by decide) (by decide)) nofun id

theorem checkAgent_words (ht : Tidy lib h rs) : Wording lib h (checkAgent lib rs) := by
  refine ⟨trivial,?_⟩
  rintro (err | (n : ℤ))
  · change Obeys _ _ _ (if _ then _ else _)
    exact .ite trivial trivial
  · change Obeys _ _ _ (if _ then _ else _)
    exact .ite trivial (becomeConnected_words ht.cons)

theorem pollAgentReady_words (ht : Tidy lib h rs) : Wording lib h (pollAgentReady lib rs) := by
  unfold pollAgentReady
  split
  · exact checkAgent_words ht
  · refine ⟨trivial,fun (t : Time) => ?_⟩
    change Obeys _ _ _ (if _ then _ else _)
    exact .ite (setFailed_words ht.cons .timeout String.append_empty) (checkAgent_words ht.cons)

/-! ## Disconnecting -/

theorem removeFinalizer_words : Wording lib h (removeFinalizer rs) := by
  refine ⟨trivial,?_⟩
  rintro (err | v)
  · trivial
  · trivial

theorem deleteNamespace_words {name : String} :
    Obeys (Words lib) (fun h' _ => ∃ r, h' = ⟨.inr (.deleteNamespace name),r⟩::h) h
      (deleteNamespace name) := by
  refine ⟨trivial,?_⟩
  rintro (err | ⟨⟩)
  · change Obeys _ _ _ (if _ then _ else _)
    exact .ite ⟨_,rfl⟩ ⟨_,rfl⟩
  · exact ⟨_,rfl⟩

theorem cleanNamespace_words (ht : Tidy lib h rs) : Wording lib h (cleanNamespace rs) := by
  refine deleteNamespace_words.bind ?_
  rintro _ (err | ⟨⟩) ⟨r,rfl⟩
  · trivial
  · have ht' : Tidy lib h { rs with status := { rs.status with
        phase := .disconnected, lastTransitionMessage := "session disconnected" } } := ht
    refine updateStatus_words (Tidy.quiet ht'.cons nofun id) (fun _ _ => trivial) (fun v => ?_)
    change Obeys _ _ _ (if _ then _ else _)
    exact .ite removeFinalizer_words trivial

theorem cleanCluster_words (ht : Tidy lib h rs) : Wording lib h (cleanCluster lib rc rs) := by
  unfold cleanCluster
  split
  · cases rc with
    | none => trivial
    | some c =>
      refine ⟨trivial,?_⟩
      rintro (err | ⟨⟩)
      · exact setAPIUnreachable_words ht.cons (.deleteCluster List.mem_cons_self)
          String.empty_append
      · exact cleanNamespace_words ht.cons
  · exact cleanNamespace_words ht

theorem runCleanup_words (ht : Tidy lib h rs) (hq : ¬Unreached h) :
    Wording lib h (runCleanup lib rc rs) := by
  have ht' : Tidy lib h { rs with status := { rs.status with phase := .disconnecting } } := ht
  refine updateStatus_words (Tidy.quiet ht' nofun hq) (fun _ _ => trivial) (fun v => ?_)
  exact cleanCluster_words (h := _::h) (fun hread => (ht.cons hread).encode)

theorem awaitExpiry_words : Wording lib h (awaitExpiry rs) := by
  unfold awaitExpiry
  split
  · trivial
  · refine ⟨trivial,fun (t : Time) => ?_⟩
    change Obeys _ _ _ (if _ then _ else _)
    exact .ite trivial trivial

theorem checkCluster_words (ht : Tidy lib h rs) : Wording lib h (checkCluster lib c rs) := by
  unfold checkCluster
  split
  · refine ⟨trivial,?_⟩
    rintro (err | ⟨⟩)
    · change Obeys _ _ _ (if _ then _ else _)
      exact .ite (runCleanup_words ht.cons id) (setAPIUnreachable_words ht.cons
        (.getCluster List.mem_cons_self) String.empty_append)
    · exact awaitExpiry_words
  · exact awaitExpiry_words

theorem handleConnected_words (ht : Tidy lib h rs) : Wording lib h (handleConnected lib c rs) := by
  unfold handleConnected
  split
  · exact checkCluster_words ht
  · refine ⟨trivial,fun (t : Time) => ?_⟩
    change Obeys _ _ _ (if _ then _ else _)
    exact .ite (runCleanup_words ht.cons id) (checkCluster_words ht.cons)

/-! ## `Reconcile` -/

theorem cleanupOnDeletion_words (ht : Tidy lib h rs) (hq : ¬Unreached h) :
    Wording lib h (cleanupOnDeletion lib rc rs) := by
  refine (runCleanup_words ht hq).bind ?_
  rintro h' (err | res) -
  · trivial
  · trivial

theorem cleanupWithoutClient_words : Wording lib h (cleanupWithoutClient rs) := by
  refine deleteNamespace_words.bind ?_
  rintro h' (err | ⟨⟩) -
  · trivial
  · exact removeFinalizer_words

theorem handleDisconnect_words (ht : Tidy lib h rs) : Wording lib h (handleDisconnect lib rs) := by
  unfold handleDisconnect
  split
  · trivial
  · refine obeys_rancherClient trivial (fun r => ?_)
    cases clientFrom lib _ with
    | ok c => exact cleanupOnDeletion_words ht.cons id
    | error e =>
      change Obeys _ _ _ (if _ then _ else _)
      exact .ite (cleanupOnDeletion_words ht.cons id) cleanupWithoutClient_words

theorem handlePhase_words (ht : Tidy lib h rs) (hq : ¬Unreached h) :
    Wording lib h (handlePhase lib c rs) := by
  unfold handlePhase
  split
  · exact handleConnect_words ht hq
  · exact .ite (pollAgentReady_words ht) (handleConnect_words ht hq)
  · exact handleConnected_words ht
  · trivial
  · trivial
  · trivial

/-- A client that was not built from a Secret is a nil pointer. -/
theorem nilPointer_of_named {ref : SecretRef} {s : StoredSecret} {e : NoClient}
    (he : clientFrom lib (named ref (.ok s)) = .error e) : e.nilPointer = true := by
  unfold clientFrom named at he
  dsimp only at he
  split at he
  · cases he
    rfl
  · cases he

theorem reconcileObject_words (ht : Tidy lib h rs) : Wording lib h (reconcileObject lib rs) := by
  refine .ite (handleDisconnect_words ht) (.ite ?_ (.ite trivial
    (obeys_rancherClient trivial ?_)))
  · refine ⟨trivial,?_⟩
    rintro (err | v)
    · trivial
    · trivial
  · rintro (err | (s : StoredSecret))
    · exact setFailed_words ht.cons (.noSecret List.mem_cons_self) rfl
    · cases hr : clientFrom lib (named rs.spec.credentialsSecretRef (.ok s)) with
      | error e =>
        refine setFailed_words ht.cons (.invalidSecret List.mem_cons_self ?_) String.append_empty
        rw [hr,← nilPointer_of_named hr]
      | ok c => exact handlePhase_words ht.cons id

theorem reconcile_words (lib : Externals) : Wording lib [] (reconcile lib) := by
  refine ⟨trivial,?_⟩
  rintro (err | (b : RancherSession))
  · change Obeys _ _ _ (if err.reason = .notFound then _ else _)
    exact .ite trivial trivial
  · exact reconcileObject_words (fun hread => hread b List.mem_cons_self)

/-! ## Runs -/

/-- What the jobs of the configuration handed to the server. -/
def StatusesWorded (lib : Externals) {σ : System rancherSession calls (Except String Result)}
    (c : Config σ) : Prop := (recorder lib).StatusesWorded c

theorem statuses_worded {σ : System rancherSession calls (Except String Result)} {c : Config σ}
    (hmain : σ.main = reconcile lib) (hc : σ.Reachable c) : StatusesWorded lib c := by
  have htraced : c.Traced (fun h e => Permits lib h e ∧ Words lib h e) :=
    System.Reachable.traced (fun h e hp => hp.1.disciplined h e)
      (hmain ▸ (reconcile_obeys lib).and (reconcile_words lib)) hc
  refine Recorder.statusesWorded htraced (fun _ _ hp => hp.2) fits_nil ?_
  exact fun t ht => (Fits.of_admitted ht.2.2).encode

end LosantDevice.Session

import LosantDevice.Session.Reconcile
import LosantDevice.Kube.Replay

/-!
# Rancher and the cluster around a session

The records Rancher keeps, and whether objects of an import manifest are there. A call that
returns an error may still have taken effect. Other parties create and delete records as they
like; a new record has an id that was never used.
-/
namespace LosantDevice.Session
open Effect Kube Go

structure World where
  clusters : List Rancher.Cluster
  /-- Every id that was ever given out. -/
  used : List String
  /-- The ids of the records that calls of this controller created. -/
  created : List String
  /-- Something was applied after the namespace was last deleted. -/
  applied : Bool
  deriving DecidableEq

namespace World
variable (w : World)

def Exists (id : String) : Prop := ∃ r ∈ w.clusters, r.id = id

instance (id : String) : Decidable (w.Exists id) := by unfold Exists; infer_instance

def erase (id : String) : World := { w with clusters := w.clusters.filter (·.id ≠ id) }

def insert (r : Rancher.Cluster) : World :=
  { w with clusters := r::w.clusters, used := r.id::w.used }

/-- A record created by a call of the controller. -/
def create (r : Rancher.Cluster) : World :=
  { w.insert r with created := r.id::w.created }

/-- The id of a new record. -/
def Fresh (id : String) : Prop := id ≠ "" ∧ id ∉ w.used

instance (id : String) : Decidable (w.Fresh id) := by unfold Fresh; infer_instance

/-- What the methods of the client do to the records. -/
def Answers : (m : Rancher.Method) → m.Answer → World → Prop
  | .findCluster _,r,w' =>
    match (r : Except Rancher.Error (Option String)) with
    | .ok (some id) => w' = w ∧ w.Exists id
    | _ => w' = w
  | .createCluster name,r,w' =>
    match (r : Except Rancher.Error String) with
    | .ok id => w.Fresh id ∧ w' = w.create ⟨id,name⟩
    | .error _ => w' = w ∨ ∃ id, w.Fresh id ∧ w' = w.create ⟨id,name⟩
  | .deleteCluster id,_,w' => w' = w ∨ w' = w.erase id
  | _,_,w' => w' = w

/-- The namespace is on its way out, or was not there. -/
def namespaceGone : Except ApiError Unit → Bool
  | .ok _ => true
  | .error err => err.reason = .notFound

/-- Everything in the namespace goes with it. -/
def wipe : World := { w with applied := false }

def answers : (e : Call) → calls.Answer e → World → Prop
  | .rancher _ m,r,w' => w.Answers m r w'
  | .apply _,r,w' =>
    match (r : Except ApiError Unit) with
    | .ok _ => w' = { w with applied := true }
    | .error _ => w' = w ∨ w' = { w with applied := true }
  | .deleteNamespace n,r,w' =>
    w' = w ∧ (n = cattleSystemNamespace → namespaceGone r = false) ∨
      w' = w.wipe ∧ n = cattleSystemNamespace
  | _,_,w' => w' = w

/-- What other parties do. -/
inductive Others : World → World → Prop
  | delete {w : World} (id : String) : Others w (w.erase id)
  | create {w : World} (r : Rancher.Cluster) (fresh : w.Fresh r.id) : Others w (w.insert r)

end World

/-- The namespace is deleted or found gone, or it stays. -/
theorem obeys_deleteNamespace {Φ : History interface → interface.Call → Prop} {α : Type}
    {Ψ : History interface → α → Prop} {h : History interface} {name : String}
    {f : Except String Unit → M α} (hask : Φ h (.inr (.deleteNamespace name)))
    (hgone : ∀ r, World.namespaceGone r = true →
      Program.Obeys Φ Ψ (⟨.inr (.deleteNamespace name),r⟩::h) (f (.ok ())))
    (hstays : ∀ r err, World.namespaceGone r = false →
      Program.Obeys Φ Ψ (⟨.inr (.deleteNamespace name),r⟩::h) (f (.error err))) :
    Program.Obeys Φ Ψ h (deleteNamespace name >>= f) := by
  refine ⟨hask,?_⟩
  rintro (err | ⟨⟩)
  · change Program.Obeys _ _ _ (Program.bind (if err.reason ≠ .notFound then _ else _) f)
    by_cases hne : err.reason = .notFound
    · rw [if_neg (not_not.mpr hne)]
      exact hgone _ (decide_eq_true hne)
    · rw [if_pos hne]
      exact hstays _ _ (decide_eq_false hne)
  · exact hgone _ rfl

/-- The controller among the others, started before any record of its own. -/
def system (lib : Externals) : System rancherSession calls (Except String Result) where
  World := World
  start w := w.created = [] ∧ w.applied = false ∧ ∀ r ∈ w.clusters, r.id ∈ w.used ∧ r.id ≠ ""
  answers := World.answers
  others := World.Others
  main := reconcile lib

def worldOf {lib : Externals} (c : Config (system lib)) : World := c.world

/-! ## Evaluated jobs -/

def credentials : StoredSecret where
  data := (((∅ : GoMap String).insert "RANCHER_URL" "https://rancher").insert
    "RANCHER_TOKEN" "token").insert "RANCHER_CA" "pem"

/-- A call that works. -/
def World.serve (t : Time) (w : World) : (e : Call) → Option (calls.Answer e × World)
  | .now _ => some (t,w)
  | .getSecret _ => some (.ok credentials,w)
  | .rancher _ (.findCluster name) =>
    match w.clusters.find? (·.name = name) with
    | some r => some (.ok (some r.id),w)
    | none => some (.ok none,w)
  | .rancher _ (.createCluster name) =>
    let id := "c-" ++ toString w.used.length
    if w.Fresh id then some (.ok id,w.create ⟨id,name⟩) else none
  | .rancher _ (.getRegistrationToken _) => some (.ok "https://rancher/import.yaml",w)
  | .rancher _ (.getCluster id) =>
    if w.Exists id then some (.ok (),w) else some (.error ⟨Rancher.errNotFound,true⟩,w)
  | .rancher _ (.deleteCluster id) => some (.ok (),w.erase id)
  | .fetchManifest _ _ =>
    some (.response 200 (.ok { documents := [⟨"Namespace","","cattle-system",""⟩] }),w)
  | .apply _ => some (.ok (),{ w with applied := true })
  | .getDeployment _ => some (.ok (1 : ℤ),w)
  | .deleteNamespace n =>
    if n = cattleSystemNamespace then some (.ok (),w.wipe) else none

/-- An answer that changes nothing is possible at any time. -/
def harmless : (e : Call) → calls.Answer e → Bool
  | .now _,_ | .getSecret _,_ | .fetchManifest _ _,_ | .getDeployment _,_ => true
  | .rancher _ (.findCluster _),r =>
    match (r : Except Rancher.Error (Option String)) with
    | .ok (some _) => false
    | _ => true
  | .rancher _ (.createCluster _),r =>
    match (r : Except Rancher.Error String) with
    | .ok _ => false
    | .error _ => true
  | .rancher _ (.getRegistrationToken _),_ | .rancher _ (.getCluster _),_
  | .rancher _ (.deleteCluster _),_ => true
  | .apply _,r =>
    match (r : Except ApiError Unit) with
    | .ok _ => false
    | .error _ => true
  | .deleteNamespace _,r => !World.namespaceGone r

theorem answers_of_harmless {w : World} {e : Call} {r : calls.Answer e} (h : harmless e r = true) :
    w.answers e r w := by
  match e with
  | .now _ | .getSecret _ | .fetchManifest _ _ | .getDeployment _ => rfl
  | .rancher _ (.findCluster _) =>
    match (r : Except Rancher.Error (Option String)) with
    | .ok none | .error _ => rfl
  | .rancher _ (.createCluster _) =>
    match (r : Except Rancher.Error String) with
    | .error _ => exact .inl rfl
  | .rancher _ (.getRegistrationToken _) | .rancher _ (.getCluster _) => rfl
  | .rancher _ (.deleteCluster _) => exact .inl rfl
  | .apply _ =>
    match (r : Except ApiError Unit) with
    | .error _ => exact .inl rfl
  | .deleteNamespace n =>
    have hr : (!World.namespaceGone r) = true := h
    exact .inl ⟨rfl,fun _ => by simpa using hr⟩

theorem answers_of_serve {t : Time} {w w' : World} {e : Call} {r : calls.Answer e}
    (h : w.serve t e = some (r,w')) : w.answers e r w' := by
  match e with
  | .now _ | .getSecret _ | .fetchManifest _ _ | .getDeployment _ => cases h; rfl
  | .rancher _ (.findCluster name) =>
    simp only [World.serve] at h
    split at h
    · rename_i x hx
      cases h
      exact ⟨rfl,x,List.mem_of_find?_eq_some hx,rfl⟩
    · cases h
      rfl
  | .rancher _ (.createCluster name) =>
    simp only [World.serve] at h
    split at h
    · rename_i hf
      cases h
      exact ⟨hf,rfl⟩
    · cases h
  | .rancher _ (.getRegistrationToken _) => cases h; rfl
  | .rancher _ (.getCluster id) =>
    simp only [World.serve] at h
    split at h <;> (cases h; rfl)
  | .rancher _ (.deleteCluster id) => cases h; exact .inr rfl
  | .apply _ => cases h; rfl
  | .deleteNamespace n =>
    simp only [World.serve] at h
    split at h
    · rename_i hn
      cases h
      exact .inr ⟨rfl,hn⟩
    · cases h

/-- A job at time `t` in which everything works except for the given faults and refusals. -/
def job (lib : Externals) (t : Time) (fault : (e : Call) → Option (calls.Answer e))
    (refuse : History interface → Option ApiError) : (system lib).Act := .job
  { refuse
    serve := fun _ (w : World) e =>
      match fault e with
      | some r => if harmless e r then some (r,w) else none
      | none => w.serve t e
    sound := by
      intro h w e r w' hs
      split at hs
      · split at hs
        · rename_i hh
          cases hs
          exact answers_of_harmless hh
        · cases hs
      · exact answers_of_serve hs }

end LosantDevice.Session

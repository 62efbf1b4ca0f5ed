import LosantDevice.Go.Search
import LosantDevice.Losant.Client
import LosantDevice.Rancher.Client

/-!
# What the clients take for a missing resource

Both clients tell that a resource is gone from the text of an error, which quotes the ids of the
path and the body of the response.
-/
namespace Go.Reply
variable {β : Type}

def Succeeded : Reply β → Prop
  | .response status _ _ => status < 400
  | .unbuilt _ | .failed _ | .unread _ => False

def IsNotFound : Reply β → Prop
  | .response status _ _ => status = 404
  | .unbuilt _ | .failed _ | .unread _ => False

/-- Another failure, in which the searched text stands in what is quoted: in a part of the path, in
the text of an error of the transport or in the body of the response. -/
def Quotes (sub : String) (parts : List String) : Reply β → Prop
  | .unbuilt err | .unread err => contains err sub
  | .failed err => ∃ s ∈ err::parts, contains s sub
  | .response status body _ => 400 ≤ status ∧ status ≠ 404 ∧ ∃ s ∈ body::parts, contains s sub

/-- A status that begins as 404 does. HTTP has none of these, since a status has three digits. -/
def Resembles : Reply β → Prop
  | .response status _ _ => 400 ≤ status ∧ status ≠ 404 ∧ "404".toList <+: (toString status).toList
  | .unbuilt _ | .failed _ | .unread _ => False

variable {sub : String} {parts : List String} {reply : Reply β}

theorem Quotes.other (h : reply.Quotes sub parts) : ¬reply.Succeeded ∧ ¬reply.IsNotFound := by
  cases reply with
  | unbuilt err | failed err | unread err => exact ⟨id,id⟩
  | response status body decoded => exact ⟨Nat.not_lt.mpr h.1,h.2.1⟩

theorem Resembles.other (h : reply.Resembles) : ¬reply.Succeeded ∧ ¬reply.IsNotFound := by
  cases reply with
  | unbuilt err | failed err | unread err => exact h.elim
  | response status body decoded => exact ⟨Nat.not_lt.mpr h.1,h.2.1⟩

end Go.Reply

namespace LosantDevice.Clients
open Effect Go

/-- A text that no part of an error of the clients contains by itself or together with the next. -/
structure Searched (sub : String) : Prop where
  begins : ∃ x l, sub.toList = x::l ∧ x ≠ ' '
  colon : ':' ∉ sub.toList
  slash : '/' ∉ sub.toList
  build : ¬contains "build request" sub
  read : ¬contains "read response body" sub

namespace Searched
variable {sub : String} (hs : Searched sub)
include hs

theorem wrapped (a b : String) :
    contains (a ++ (": " ++ b)) sub ↔ contains a sub ∨ contains b sub := by
  obtain ⟨x,l,hsub,hx⟩ := hs.begins
  exact contains_wrapped hsub hx hs.colon a b

theorem separated (a b : String) : contains (a ++ (String.singleton '/' ++ b)) sub ↔
    contains a sub ∨ contains b sub := contains_separated hs.slash a b

theorem unbuilt (err : String) : contains ("build request: " ++ err) sub ↔ contains err sub := by
  change contains (("build request" ++ ": ") ++ err) sub ↔ _
  rw [String.append_assoc,hs.wrapped]
  exact or_iff_right hs.build

theorem unread (err : String) :
    contains ("read response body: " ++ err) sub ↔ contains err sub := by
  change contains (("read response body" ++ ": ") ++ err) sub ↔ _
  rw [String.append_assoc,hs.wrapped]
  exact or_iff_right hs.read

theorem failed {request : String} {parts : List String}
    (hparts : contains request sub ↔ ∃ s ∈ parts, contains s sub) (err : String) :
    contains (request ++ ": " ++ err) sub ↔ ∃ s ∈ err::parts, contains s sub := by
  rw [String.append_assoc,hs.wrapped,hparts,List.exists_mem_cons_iff,or_comm]

theorem response {request : String} {parts : List String}
    (hparts : contains request sub ↔ ∃ s ∈ parts, contains s sub) (status : ℕ) (body : String) :
    contains (request ++ ": status " ++ toString status ++ ": " ++ body) sub ↔
      contains ("status " ++ toString status) sub ∨ ∃ s ∈ body::parts, contains s sub := by
  have htext : request ++ ": status " ++ toString status ++ ": " ++ body =
      (request ++ (": " ++ ("status " ++ toString status))) ++ (": " ++ body) := by
    apply String.toList_injective
    simp only [String.toList_append,List.append_assoc]
    rfl
  rw [htext,hs.wrapped,hs.wrapped,hparts,List.exists_mem_cons_iff,or_assoc,or_comm,or_assoc]

end Searched

/-! ## The client of Losant -/

section losant
open Losant

def status404 : String := "status 404"

theorem searched_status404 : Searched status404 where
  begins := ⟨'s',"tatus 404".toList,rfl,by decide⟩
  colon := by decide
  slash := by decide
  build := not_contains (x := '4') (by simp [status404]) (by simp)
  read := not_contains (x := '4') (by simp [status404]) (by simp)

theorem contains_statusLine (n : ℕ) : contains ("status " ++ toString n) status404 = true ↔
    "404".toList <+: (toString n).toList := by
  have hs : 's' ∉ (toString n).toList := fun h => absurd (isDigit_of_mem_toString h) (by decide)
  simp only [contains,decide_eq_true_eq,String.toList_append]
  generalize (toString n).toList = digits at hs ⊢
  have hrest : ¬['s','t','a','t','u','s',' ','4','0','4'] <:+: digits :=
    fun h => hs (h.subset List.mem_cons_self)
  change ['s','t','a','t','u','s',' ','4','0','4'] <:+: ['s','t','a','t','u','s',' '] ++ digits ↔ _
  simp [List.infix_cons_iff,List.cons_prefix_cons,hrest]

/-- The errors of `doRequest` that are taken for a missing resource; `hparts` says what the path of
the request quotes. -/
theorem interpret_contains {req : Losant.Request} {parts : List String}
    (hparts : contains ("losant api " ++ req.method ++ " " ++ req.path) status404 ↔
      ∃ s ∈ parts, contains s status404) (reply : Reply req.Decoded) :
    (∃ err, interpret req reply = .error err ∧ contains err status404) ↔
      reply.IsNotFound ∨ reply.Quotes status404 parts ∨ reply.Resembles := by
  cases reply with
  | unbuilt err =>
    have htext := searched_status404.unbuilt err
    simpa [interpret,Reply.IsNotFound,Reply.Quotes,Reply.Resembles] using htext
  | failed err =>
    have htext := searched_status404.failed hparts err
    simpa [interpret,Reply.IsNotFound,Reply.Quotes,Reply.Resembles] using htext
  | unread err =>
    have htext := searched_status404.unread err
    simpa [interpret,Reply.IsNotFound,Reply.Quotes,Reply.Resembles] using htext
  | response status body decoded =>
    have htext := searched_status404.response hparts status body
    rw [contains_statusLine] at htext
    by_cases hge : 400 ≤ status
    · have htaken : (∃ err, interpret req (.response status body decoded) = .error err ∧
          contains err status404) ↔ "404".toList <+: (toString status).toList ∨
            ∃ s ∈ body::parts, contains s status404 := by simpa [interpret,hge] using htext
      rw [htaken]
      by_cases heq : status = 404
      · subst heq
        exact iff_of_true (.inl (by decide)) (.inl rfl)
      · simp only [Reply.IsNotFound,Reply.Quotes,Reply.Resembles,heq,hge,ne_eq,not_false_eq_true,
          true_and,false_or]
        exact or_comm
    · have hne : status ≠ 404 := by omega
      simp [interpret,Reply.IsNotFound,Reply.Quotes,Reply.Resembles,hge,hne]

theorem deleteDevice_parts (app id : String) :
    contains ("losant api " ++ (Losant.Request.deleteDevice app id).method ++ " " ++
        (Losant.Request.deleteDevice app id).path) status404 ↔
      ∃ s ∈ [app,id], contains s status404 := by
  have htext : "losant api " ++ (Losant.Request.deleteDevice app id).method ++ " " ++
      (Losant.Request.deleteDevice app id).path =
        "losant api DELETE https://api.losant.com/applications" ++ (String.singleton '/' ++
          (app ++ (String.singleton '/' ++ ("devices" ++ (String.singleton '/' ++ id))))) := by
    apply String.toList_injective
    simp [Losant.Request.path,Losant.Request.method,Losant.Request.apiBase]
  have happlications :
    ¬contains "losant api DELETE https://api.losant.com/applications" status404 :=
    not_contains (x := '4') (by simp [status404]) (by simp)
  have hdevices : ¬contains "devices" status404 :=
    not_contains (x := '4') (by simp [status404]) (by simp)
  rw [htext]
  simp only [searched_status404.separated,List.exists_mem_cons_iff,List.not_mem_nil,false_and,
    exists_false,or_false]
  simp [happlications,hdevices]

theorem release_parts (app flowID version : String) (ids : List String) :
    contains ("losant api " ++ (Losant.Request.release app flowID version ids).method ++ " " ++
        (Losant.Request.release app flowID version ids).path) status404 ↔
      ∃ s ∈ [app], contains s status404 := by
  have htext : "losant api " ++ (Losant.Request.release app flowID version ids).method ++ " " ++
      (Losant.Request.release app flowID version ids).path =
        "losant api POST https://api.losant.com/applications" ++ (String.singleton '/' ++
          (app ++ (String.singleton '/' ++ "edge/deployments/release"))) := by
    apply String.toList_injective
    simp [Losant.Request.path,Losant.Request.method,Losant.Request.apiBase]
  have happlications : ¬contains "losant api POST https://api.losant.com/applications" status404 :=
    not_contains (x := '4') (by simp [status404]) (by simp)
  have hrelease : ¬contains "edge/deployments/release" status404 :=
    not_contains (x := '4') (by simp [status404]) (by simp)
  rw [htext]
  simp only [searched_status404.separated,List.exists_mem_cons_iff,List.not_mem_nil,false_and,
    exists_false,or_false]
  simp [happlications,hrelease]

variable (c : Losant.HTTPClient) (s : Program.Strategy http) (h : History http)

theorem interpret_ok (req : Losant.Request) (reply : Reply req.Decoded) :
    (∃ r, interpret req reply = .ok r) ↔ reply.Succeeded := by
  cases reply with
  | unbuilt err | failed err | unread err => simp [interpret,Reply.Succeeded]
  | response status body decoded =>
    by_cases hge : 400 ≤ status
    · simp [interpret,Reply.Succeeded,hge]
    · simp [interpret,Reply.Succeeded,hge,Nat.lt_of_not_le hge]

/-- `DeleteDevice` returns nil after a success and after an error that it takes for a 404. -/
theorem deleteDevice_nil (app id : String) :
    (Program.run s h (c.deleteDevice app id)).2 = .ok () ↔
      (∃ r, interpret (.deleteDevice app id) (s h (c.token,.deleteDevice app id)) = .ok r) ∨
      ∃ err, interpret (.deleteDevice app id) (s h (c.token,.deleteDevice app id)) = .error err ∧
        contains err status404 := by
  rw [run_deleteDevice]
  cases interpret (.deleteDevice app id) (s h (c.token,.deleteDevice app id)) with
  | error err => simp [sent,notFoundIsNil,status404]
  | ok r => simp [sent,notFoundIsNil]

theorem run_send (req : Losant.Request) : (Program.run s h (c.send req)).2 =
    sent (interpret req (s h (c.token,req))) := rfl

theorem releaseWorkflow_notFound (app id flowID version : String) :
    (∃ err, (Program.run s h (c.releaseWorkflow app id flowID version)).2 = .error err ∧
        err.workflowNotFound) ↔
      ∃ err, interpret (.release app flowID version [id])
          (s h (c.token,.release app flowID version [id])) = .error err ∧
            contains err status404 := by
  rw [Losant.HTTPClient.releaseWorkflow,Program.run_bind,run_send]
  cases interpret (.release app flowID version [id])
    (s h (c.token,.release app flowID version [id])) with
  | error err =>
    by_cases hc : contains err "status 404"
    · simp [sent,status404,hc]
    · simp [sent,status404,hc]
  | ok r => simp [sent]

end losant

/-! ## The client of Rancher -/

section rancher
open Rancher

theorem searched_errNotFound : Searched errNotFound where
  begins := ⟨'r',"ancher resource not found".toList,rfl,by decide⟩
  colon := by decide
  slash := by decide
  build := not_contains (x := 'a') (by simp [errNotFound]) (by simp)
  read := not_contains (x := 'h') (by simp [errNotFound]) (by simp)

variable (c : Rancher.HTTPClient)

theorem deleteCluster_parts (id : String) :
    contains ("rancher api " ++ (Rancher.Request.deleteCluster id).method ++ " " ++
        (Rancher.Request.deleteCluster id).path c.baseURL) errNotFound ↔
      ∃ s ∈ [c.baseURL,id], contains s errNotFound := by
  have htext : "rancher api " ++ (Rancher.Request.deleteCluster id).method ++ " " ++
      (Rancher.Request.deleteCluster id).path c.baseURL = ("rancher api DELETE " ++ c.baseURL) ++
        (String.singleton '/' ++ ("v3/clusters" ++ (String.singleton '/' ++ id))) := by
    apply String.toList_injective
    simp [Rancher.Request.path,Rancher.Request.method]
  have hclusters : ¬contains "v3/clusters" errNotFound :=
    not_contains (x := 'n') (by simp [errNotFound]) (by simp)
  have hbase : contains ("rancher api DELETE " ++ c.baseURL) errNotFound ↔
      contains c.baseURL errNotFound := by
    simp only [contains,decide_eq_true_eq,String.toList_append]
    simp [errNotFound,List.infix_cons_iff,List.cons_prefix_cons]
  rw [htext]
  simp only [searched_errNotFound.separated,List.exists_mem_cons_iff,List.not_mem_nil,false_and,
    exists_false,or_false]
  simp [hbase,hclusters]

theorem rancher_interpret_ok (req : Rancher.Request) (reply : Reply req.Decoded) :
    (∃ r, c.interpret req reply = .ok r) ↔ reply.Succeeded := by
  cases reply with
  | unbuilt err | failed err | unread err => simp [Rancher.HTTPClient.interpret,Reply.Succeeded]
  | response status body decoded =>
    by_cases heq : status = 404
    · simp [Rancher.HTTPClient.interpret,Reply.Succeeded,heq]
    · by_cases hge : 400 ≤ status
      · simp [Rancher.HTTPClient.interpret,Reply.Succeeded,heq,hge]
      · simp [Rancher.HTTPClient.interpret,Reply.Succeeded,heq,hge,Nat.lt_of_not_le hge]

theorem not_contains_statusLine (n : ℕ) : ¬contains ("status " ++ toString n) errNotFound := by
  refine not_contains (x := 'r') (by decide) ?_
  intro h
  rw [String.toList_append] at h
  rcases List.mem_append.mp h with h | h
  · exact absurd h (by decide)
  · exact absurd (isDigit_of_mem_toString h) (by decide)

theorem rancher_interpret_contains {req : Rancher.Request} {parts : List String}
    (hparts : contains ("rancher api " ++ req.method ++ " " ++ req.path c.baseURL) errNotFound ↔
      ∃ s ∈ parts, contains s errNotFound) (reply : Reply req.Decoded) :
    (∃ err, c.interpret req reply = .error err ∧ contains err.text errNotFound) ↔
      reply.IsNotFound ∨ reply.Quotes errNotFound parts := by
  cases reply with
  | unbuilt err =>
    have htext := searched_errNotFound.unbuilt err
    simpa [Rancher.HTTPClient.interpret,Reply.IsNotFound,Reply.Quotes] using htext
  | failed err =>
    have htext := searched_errNotFound.failed hparts err
    simpa [Rancher.HTTPClient.interpret,Reply.IsNotFound,Reply.Quotes] using htext
  | unread err =>
    have htext := searched_errNotFound.unread err
    simpa [Rancher.HTTPClient.interpret,Reply.IsNotFound,Reply.Quotes] using htext
  | response status body decoded =>
    have htext := searched_errNotFound.response hparts status body
    rw [or_iff_right (not_contains_statusLine status)] at htext
    by_cases heq : status = 404
    · have hfound : contains (errNotFound ++ ": " ++ req.method ++ " " ++ req.path c.baseURL)
          errNotFound := by
        have h :=
          contains_append "" errNotFound (": " ++ (req.method ++ (" " ++ req.path c.baseURL)))
        simpa [String.append_assoc] using h
      simpa [Rancher.HTTPClient.interpret,Reply.IsNotFound,heq] using hfound
    · by_cases hge : 400 ≤ status
      · simpa [Rancher.HTTPClient.interpret,Reply.IsNotFound,Reply.Quotes,heq,hge] using htext
      · simp [Rancher.HTTPClient.interpret,Reply.IsNotFound,Reply.Quotes,heq,hge]

theorem deleteCluster_nil (id : String) (reply : Reply Unit) :
    c.returned (.deleteCluster id) reply = .ok () ↔
      (∃ r, c.interpret (.deleteCluster id) reply = .ok r) ∨
      ∃ err, c.interpret (.deleteCluster id) reply = .error err ∧
        contains err.text errNotFound := by
  dsimp only [Rancher.HTTPClient.returned]
  cases c.interpret (.deleteCluster id) reply with
  | error err =>
    change (if contains err.text errNotFound then .ok () else .error err) =
      (.ok () : Except Rancher.Error Unit) ↔ _
    simp
  | ok r => exact iff_of_true rfl (.inl ⟨r,rfl⟩)

end rancher

/-- A test that holds in the wrong cases `C` besides the right ones is exact if there are none. -/
theorem exact_iff {A B C : Prop} (htaken : A ↔ B ∨ C) (hother : C → ¬B) : (A ↔ B) ↔ ¬C := by
  constructor
  · intro h hc
    exact hother hc (h.mp (htaken.mpr (.inr hc)))
  · intro hc
    rw [htaken]
    exact or_iff_left hc

/-- Exactly the failures that quote the searched text are misjudged. -/
theorem notFound_exact_iff (c : Losant.HTTPClient) (s : Program.Strategy Losant.http)
    (h : History Losant.http) (app id flowID version : String) (rc : Rancher.HTTPClient)
    (clusterID : String) (reply : Reply Unit) :
    (((Program.run s h (c.deleteDevice app id)).2 = .ok () ↔
        (s h (c.token,.deleteDevice app id)).Succeeded ∨
          (s h (c.token,.deleteDevice app id)).IsNotFound) ↔
      ¬((s h (c.token,.deleteDevice app id)).Quotes status404 [app,id] ∨
        (s h (c.token,.deleteDevice app id)).Resembles)) ∧
    (((∃ err, (Program.run s h (c.releaseWorkflow app id flowID version)).2 = .error err ∧
          err.workflowNotFound) ↔
        (s h (c.token,.release app flowID version [id])).IsNotFound) ↔
      ¬((s h (c.token,.release app flowID version [id])).Quotes status404 [app] ∨
        (s h (c.token,.release app flowID version [id])).Resembles)) ∧
    ((rc.returned (.deleteCluster clusterID) reply = .ok () ↔ reply.Succeeded ∨ reply.IsNotFound) ↔
      ¬reply.Quotes Rancher.errNotFound [rc.baseURL,clusterID]) := by
  refine ⟨?_,?_,?_⟩
  · refine exact_iff ?_ ?_
    · have hok := interpret_ok (.deleteDevice app id) (s h (c.token,.deleteDevice app id))
      have htaken :=
        interpret_contains (deleteDevice_parts app id) (s h (c.token,.deleteDevice app id))
      exact (deleteDevice_nil c s h app id).trans ((or_congr hok htaken).trans or_assoc.symm)
    · rintro (hq | hr)
      · exact not_or.mpr hq.other
      · exact not_or.mpr hr.other
  · refine exact_iff ?_ ?_
    · exact (releaseWorkflow_notFound c s h app id flowID version).trans
        (interpret_contains (release_parts app flowID version [id]) _)
    · rintro (hq | hr)
      · exact hq.other.2
      · exact hr.other.2
  · refine exact_iff ?_ ?_
    · have hok := rancher_interpret_ok rc (.deleteCluster clusterID) reply
      have htaken := rancher_interpret_contains rc (deleteCluster_parts rc clusterID) reply
      exact (deleteCluster_nil rc clusterID reply).trans ((or_congr hok htaken).trans or_assoc.symm)
    · intro hq
      exact not_or.mpr hq.other

/-- Every request is answered with a failure that speaks of another one. -/
def misleading : Program.Strategy Losant.http :=
  fun _ _ => .response 502 "upstream: status 404" (.error "")

theorem contains_upstream (a : String) :
    contains (a ++ "upstream: status 404") status404 = true := by
  have h := contains_append (a ++ "upstream: ") status404 ""
  rw [String.append_assoc] at h
  exact h

/-- A device and a cluster that are still there are taken for gone, and a workflow for missing. -/
theorem notFound_misled :
    (Program.run misleading []
      ((⟨"token","app"⟩ : Losant.HTTPClient).deleteDevice "app" "device")).2 =
      .ok () ∧
    (Program.run misleading []
      ((⟨"token","app"⟩ : Losant.HTTPClient).releaseWorkflow "app" "device" "flow" "v1")).2 =
      .error
        { text :=
          "workflow not found: losant api POST https://api.losant.com/applications/app/edge" ++
            "/deployments/release: status 502: upstream: status 404"
          workflowNotFound := true } ∧
    (⟨"https://rancher","token","ca"⟩ : Rancher.HTTPClient).returned (.deleteCluster "c-1")
      (.response 500 "rancher resource not found in cache" (.error "")) =
      (.ok () : Except Rancher.Error Unit) := by
  refine ⟨?_,?_,?_⟩
  · exact (deleteDevice_nil _ _ _ "app" "device").mpr (.inr ⟨_,rfl,contains_upstream _⟩)
  · rw [Losant.HTTPClient.releaseWorkflow,Program.run_bind,run_send]
    change (Program.run _ _ (if contains (_ ++ "upstream: status 404") status404 then _ else _)).2 =
      _
    rw [if_pos (contains_upstream _)]
    decide +kernel
  · refine (deleteCluster_nil _ _ _).mpr (.inr ⟨_,rfl,?_⟩)
    decide +kernel

end LosantDevice.Clients

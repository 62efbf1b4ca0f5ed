import LosantDevice.Go.Query
import LosantDevice.Rancher.Client

/-!
# Looking a cluster up by its name

`FindCluster` puts the name into the URL as it is. Rancher takes the URL apart and lists the
clusters that have the name it finds there. A name with a blank makes a request that is always
refused.
-/
namespace LosantDevice.Rancher
open Go Query

/-- The clusters that Rancher lists: without a name in the URL, all of them. -/
def listed (keep : Bool) (url : Bytes) (clusters : List Cluster) : List Cluster :=
  match parameter keep url (bytes "name") with
  | some v => clusters.filter (fun cl => bytes cl.name = v)
  | none => clusters

def HTTPClient.lookupURL (c : HTTPClient) (name : String) : Bytes :=
  bytes ((Request.listClusters name).path c.baseURL)

/-- The replies to the request of `FindCluster` when Rancher has the clusters. A first line that
cannot be read is a bad request. -/
def Answered (keep : Bool) (c : HTTPClient) (name : String) (clusters : List Cluster) :
    Reply (List Cluster) → Prop
  | .unbuilt _ | .failed _ | .unread _ => True
  | .response status _ decoded => buildable (c.lookupURL name) ∧
      (status < 400 → blank ∉ query (c.lookupURL name) ∧
        decoded = .ok (listed keep (c.lookupURL name) clusters))

/-- What `FindCluster` returns, given the reply to its request. -/
def HTTPClient.findCluster (c : HTTPClient) (name : String) (reply : Reply (List Cluster)) :
    Except Error (Option String) := c.returned (.findCluster name) reply

/-- `FindCluster` finds a cluster with exactly the name, and none only if there is none. -/
def FindsExactly (c : HTTPClient) (name : String) (clusters : List Cluster)
    (reply : Reply (List Cluster)) : Prop :=
  (∀ id, c.findCluster name reply = .ok (some id) →
    ∃ cl ∈ clusters, cl.id = id ∧ cl.name = name) ∧
  (c.findCluster name reply = .ok none → ∀ cl ∈ clusters, cl.name ≠ name)

/-- The name has no character that means something in a URL. -/
def PlainName (keep : Bool) (name : String) : Prop :=
  hash ∉ bytes name ∧ ampersand ∉ bytes name ∧ Literal keep (bytes name)

variable {keep : Bool} {c : HTTPClient} {name : String}

theorem lookupURL_eq : c.lookupURL name =
    (bytes c.baseURL ++ bytes "/v3/clusters") ++
      questionMark::(bytes "name" ++ equalsSign::bytes name) := by
  have hpath : (Request.listClusters name).path c.baseURL =
      c.baseURL ++ ("/v3/clusters" ++ ("?" ++ ("name" ++ ("=" ++ name)))) := by
    apply String.toList_injective
    simp [Request.path]
  rw [HTTPClient.lookupURL,hpath]
  simp only [bytes_append,List.append_assoc]
  rfl

theorem key_name : Key keep (bytes "name") where
  literal := by cases keep <;> exact ⟨by decide,by decide⟩
  equalsSign := by decide
  ampersand := by decide
  hash := by decide

/-- Rancher sees the name that was asked for exactly if it is a plain one. -/
theorem parameter_lookupURL (hhash : hash ∉ bytes c.baseURL)
    (hquery : questionMark ∉ bytes c.baseURL) :
    parameter keep (c.lookupURL name) (bytes "name") = some (bytes name) ↔ PlainName keep name := by
  rw [lookupURL_eq]
  refine parameter_eq_self_iff key_name ?_ ?_ _
  · intro h
    rcases List.mem_append.mp h with h | h
    · exact hhash h
    · exact absurd h (by decide)
  · intro h
    rcases List.mem_append.mp h with h | h
    · exact hquery h
    · exact absurd h (by decide)

theorem findCluster_response {status : ℕ} {body : String} {decoded : Except String (List Cluster)}
    {r : Option String} : c.findCluster name (.response status body decoded) = .ok r ↔
      status < 400 ∧ ∃ data, decoded = .ok data ∧ r = data.head?.map Cluster.id := by
  simp only [HTTPClient.findCluster,HTTPClient.returned,HTTPClient.interpret]
  by_cases h404 : status = 404
  · rw [if_pos h404]
    exact iff_of_false nofun (fun h => absurd h.1 (by omega))
  · rw [if_neg h404]
    by_cases hge : 400 ≤ status
    · rw [if_pos hge]
      exact iff_of_false nofun (fun h => absurd h.1 (Nat.not_lt.mpr hge))
    · rw [if_neg hge]
      cases decoded with
      | error err => exact iff_of_false nofun (fun ⟨_,_,h,_⟩ => nomatch h)
      | ok data =>
        constructor
        · intro h
          exact ⟨Nat.lt_of_not_le hge,data,rfl,(Except.ok.inj h).symm⟩
        · rintro ⟨-,data,h,rfl⟩
          cases h
          rfl

/-- What `FindCluster` returns without an error is the head of the list it was sent. -/
theorem findCluster_ok {reply : Reply (List Cluster)} {r : Option String} {clusters : List Cluster}
    (ha : Answered keep c name clusters reply) (hr : c.findCluster name reply = .ok r) :
    answerable (c.lookupURL name) ∧
      r = (listed keep (c.lookupURL name) clusters).head?.map Cluster.id := by
  cases reply with
  | unbuilt err | failed err | unread err => cases hr
  | response status body decoded =>
    obtain ⟨hbuild,hlist⟩ := ha
    obtain ⟨hs,data,hdata,rfl⟩ := findCluster_response.mp hr
    obtain ⟨hread,hlist⟩ := hlist hs
    cases hlist.symm.trans hdata
    exact ⟨by simp [answerable,hbuild,hread],rfl⟩

/-- Rancher answers with the list. -/
theorem findCluster_listed (keep : Bool) (clusters : List Cluster)
    (hsend : answerable (c.lookupURL name)) :
    ∃ reply, Answered keep c name clusters reply ∧ c.findCluster name reply =
      .ok ((listed keep (c.lookupURL name) clusters).head?.map Cluster.id) := by
  obtain ⟨hbuild,hread⟩ := (Bool.and_eq_true _ _).mp hsend
  refine ⟨.response 200 "" (.ok (listed keep (c.lookupURL name) clusters)),
    ⟨hbuild,fun _ => ⟨of_decide_eq_true hread,rfl⟩⟩,?_⟩
  exact findCluster_response.mpr ⟨by decide,_,rfl,rfl⟩

/-- Exactly the names that have a meaning in a URL are looked up wrongly, unless they make it
impossible to answer the request. -/
theorem findCluster_exact_iff (keep : Bool) (c : HTTPClient) (hhash : hash ∉ bytes c.baseURL)
    (hquery : questionMark ∉ bytes c.baseURL) (name : String) :
    (∀ clusters reply, Answered keep c name clusters reply → FindsExactly c name clusters reply) ↔
      answerable (c.lookupURL name) = false ∨ PlainName keep name := by
  rw [← parameter_lookupURL hhash hquery]
  constructor
  · intro h
    by_cases hsend : answerable (c.lookupURL name)
    · refine .inr ?_
      cases hp : parameter keep (c.lookupURL name) (bytes "name") with
      | none =>
        -- Every cluster is listed, whatever its name.
        obtain ⟨reply,ha,hr⟩ := findCluster_listed keep [⟨"c-1",name ++ "-2"⟩] hsend
        rw [listed,hp] at hr
        obtain ⟨cl,hcl,-,hname⟩ := (h _ reply ha).1 "c-1" hr
        rw [List.mem_singleton.mp hcl] at hname
        exact absurd (congrArg String.length hname) (by simp)
      | some v =>
        by_contra hne
        -- The only cluster has the name that was asked for, but another is looked for.
        obtain ⟨reply,ha,hr⟩ := findCluster_listed keep [⟨"c-1",name⟩] hsend
        have hv : bytes name ≠ v := fun hv => hne (congrArg some hv.symm)
        simp only [listed,hp,List.filter_cons,hv,decide_false,Bool.false_eq_true,if_false] at hr
        exact (h _ reply ha).2 hr _ List.mem_cons_self rfl
    · exact .inl (Bool.eq_false_iff.mpr hsend)
  · rintro (hsend | hp) clusters reply ha
    · refine ⟨fun id hr => ?_,fun hr => ?_⟩
      · exact absurd (findCluster_ok ha hr).1 (Bool.eq_false_iff.mp hsend)
      · exact absurd (findCluster_ok ha hr).1 (Bool.eq_false_iff.mp hsend)
    · have hlisted : listed keep (c.lookupURL name) clusters =
          clusters.filter (fun cl => bytes cl.name = bytes name) := by rw [listed,hp]
      refine ⟨fun id hr => ?_,fun hr cl hcl hname => ?_⟩
      · obtain ⟨-,heq⟩ := findCluster_ok ha hr
        obtain ⟨cl,hhead,hid⟩ := Option.map_eq_some_iff.mp heq.symm
        rw [hlisted] at hhead
        obtain ⟨hcl,hname⟩ := List.mem_filter.mp (List.mem_of_mem_head? hhead)
        exact ⟨cl,hcl,hid,bytes_injective (of_decide_eq_true hname)⟩
      · obtain ⟨-,heq⟩ := findCluster_ok ha hr
        have hnil := List.head?_eq_none_iff.mp (Option.map_eq_none_iff.mp heq.symm)
        rw [hlisted] at hnil
        exact absurd (decide_eq_true (congrArg bytes hname)) (List.filter_eq_nil_iff.mp hnil cl hcl)

def labClient : HTTPClient := ⟨"https://rancher.lab","token","ca"⟩

/-- A name that can be looked up. -/
theorem findCluster_exact_plain : hash ∉ bytes labClient.baseURL ∧
    questionMark ∉ bytes labClient.baseURL ∧ answerable (labClient.lookupURL "edge-site-7") = true ∧
    PlainName false "edge-site-7" ∧
    ∀ clusters reply, Answered false labClient "edge-site-7" clusters reply →
      FindsExactly labClient "edge-site-7" clusters reply := by
  have hhash : hash ∉ bytes labClient.baseURL := by decide
  have hquery : questionMark ∉ bytes labClient.baseURL := by decide
  have hplain : PlainName false "edge-site-7" := ⟨by decide,by decide,by decide,by decide⟩
  exact ⟨hhash,hquery,by decide +kernel,hplain,
    (findCluster_exact_iff false labClient hhash hquery "edge-site-7").mpr (.inr hplain)⟩

/-- The cluster of another name is found, and one of the name that was asked for is not. -/
theorem findCluster_misses :
    (∃ reply, Answered false labClient "edge&west" [⟨"c-1","edge"⟩,⟨"c-2","edge&west"⟩] reply ∧
      labClient.findCluster "edge&west" reply = .ok (some "c-1")) ∧
    ∃ reply, Answered false labClient "site#7" [⟨"c-1","site#7"⟩] reply ∧
      labClient.findCluster "site#7" reply = .ok none := by
  have hsend : answerable (labClient.lookupURL "edge&west") ∧
      answerable (labClient.lookupURL "site#7") := by decide +kernel
  have hadopts : listed false (labClient.lookupURL "edge&west")
      [⟨"c-1","edge"⟩,⟨"c-2","edge&west"⟩] = [⟨"c-1","edge"⟩] := by decide +kernel
  have hmisses : listed false (labClient.lookupURL "site#7") [⟨"c-1","site#7"⟩] = [] := by
    decide +kernel
  obtain ⟨reply,ha,hr⟩ := findCluster_listed false [⟨"c-1","edge"⟩,⟨"c-2","edge&west"⟩] hsend.1
  obtain ⟨reply',ha',hr'⟩ := findCluster_listed false [⟨"c-1","site#7"⟩] hsend.2
  rw [hadopts] at hr
  rw [hmisses] at hr'
  exact ⟨⟨reply,ha,hr⟩,reply',ha',hr'⟩

end LosantDevice.Rancher

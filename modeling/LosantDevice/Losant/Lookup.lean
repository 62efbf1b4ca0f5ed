import LosantDevice.Go.Escape
import LosantDevice.Losant.Client

/-!
# Looking a device up by its name

`findDeviceByName` and `GetEdgeDeployments` put what they look for into the query of a URL. What a
server reads there is what the methods were asked for, whatever the name or the id is. If it filters
by what it reads, the methods return the device of that name and the deployments on that device.
-/
namespace LosantDevice.Losant
open Effect Go Query

/-- A reply with the answer in it, or one without an answer. -/
def Brings {β : Type} (answer : β) : Reply β → Prop
  | .unbuilt _ | .failed _ | .unread _ => True
  | .response status _ decoded => status < 400 → decoded = .ok answer

/-- What the client assumes of Losant: of the devices of an application those are listed whose name
is the value of `filter` if `filterField` is `name`, and of the deployments those on the device that
is the value of `deviceId`. Nothing is assumed of other requests. -/
structure Filters (keep : Bool) (devices : String → List Device)
    (deployments : String → List (String × EdgeDeploymentStatus)) (s : Program.Strategy http) :
    Prop where
  devices : ∀ h token app name v,
    parameter keep (bytes (Request.listDevices app name).path) (bytes "filterField") =
      some (bytes "name") →
    parameter keep (bytes (Request.listDevices app name).path) (bytes "filter") = some (bytes v) →
    Brings ((devices app).filter (·.name = v)) (s h (token,.listDevices app name))
  deployments : ∀ h token app id v,
    parameter keep (bytes (Request.deployments app id).path) (bytes "deviceId") = some (bytes v) →
    Brings (((deployments app).filter (·.1 = v)).map Prod.snd) (s h (token,.deployments app id))

/-- An id that does not end the path of a URL, and no percent sign but in an escape. -/
structure PathSegment (app : String) : Prop where
  plain : ∀ x ∈ bytes app, x ≠ hash ∧ x ≠ questionMark ∧ control x = false
  escaped : wellEscaped (bytes app) = true

variable {app name id : String}

/-- The URL of a resource of the application. -/
def resource (app path : String) : Bytes :=
  bytes Request.apiBase ++ bytes "/applications/" ++ bytes app ++ bytes path

theorem listDevices_url : bytes (Request.listDevices app name).path = resource app "/devices" ++
    questionMark::written [(bytes "filterField",bytes "name"),(bytes "filter",bytes name)] := by
  have hquery : bytes "/devices?filterField=name&filter=" = bytes "/devices" ++ questionMark::
      (assignment (bytes "filterField",bytes "name") ++
        ampersand::(bytes "filter" ++ [equalsSign])) := by decide +kernel
  simp only [Request.path,bytes_append,bytes_queryEscape,hquery,resource,written,List.append_assoc,
    List.cons_append,List.nil_append]
  rfl

theorem deployments_url : bytes (Request.deployments app id).path =
    resource app "/edge/deployments" ++ questionMark::written [(bytes "deviceId",bytes id)] := by
  have hquery : bytes "/edge/deployments?deviceId=" = bytes "/edge/deployments" ++ questionMark::
      (bytes "deviceId" ++ [equalsSign]) := by decide +kernel
  simp only [Request.path,bytes_append,bytes_queryEscape,hquery,resource,written,
    List.append_assoc,List.cons_append,List.nil_append]
  rfl

theorem resource_plain {path : String} (happ : PathSegment app) (hpath : PathSegment path) :
    ∀ x ∈ resource app path, x ≠ hash ∧ x ≠ questionMark ∧ control x = false := by
  have hstart : ∀ x ∈ bytes Request.apiBase ++ bytes "/applications/",
      x ≠ hash ∧ x ≠ questionMark ∧ control x = false := by decide +kernel
  intro x hx
  rcases List.mem_append.mp hx with hx | hx
  · rcases List.mem_append.mp hx with hx | hx
    · exact hstart x hx
    · exact happ.plain x hx
  · exact hpath.plain x hx

theorem resource_escaped {path : String} (happ : PathSegment app) (hpath : PathSegment path) :
    wellEscaped (resource app path) = true := by
  have hstart : wellEscaped (bytes Request.apiBase ++ bytes "/applications/") = true := by
    decide +kernel
  exact wellEscaped_append (wellEscaped_append hstart happ.escaped) hpath.escaped

section query
variable {path : String} {ps : List (Bytes × Bytes)} (happ : PathSegment app)
  (hpath : PathSegment path) (hps : ∀ p ∈ ps, plainKey p.1 = true)
include happ hpath hps

theorem answerable_resource :
    answerable (resource app path ++ questionMark::written ps) = true := by
  have hplain := resource_plain happ hpath
  exact answerable_written (fun h => (hplain _ h).1 rfl) (fun h => (hplain _ h).2.1 rfl)
    (fun x hx => (hplain x hx).2.2) (resource_escaped happ hpath) hps

theorem parameter_resource (keep : Bool) (hne : ps ≠ []) (key : Bytes) :
    parameter keep (resource app path ++ questionMark::written ps) key = ps.lookup key := by
  have hplain := resource_plain happ hpath
  exact parameter_written (fun h => (hplain _ h).1 rfl) (fun h => (hplain _ h).2.1 rfl) hne hps key

end query

/-- The keys of the two queries. -/
theorem plainKeys : plainKey (bytes "filterField") = true ∧ plainKey (bytes "filter") = true ∧
    plainKey (bytes "deviceId") = true := by decide +kernel

theorem paths : PathSegment "/devices" ∧ PathSegment "/edge/deployments" :=
  ⟨⟨by decide +kernel,by decide +kernel⟩,by decide +kernel,by decide +kernel⟩

theorem keys_listDevices (name : String) :
    ∀ p ∈ [(bytes "filterField",bytes "name"),(bytes "filter",bytes name)],
      plainKey p.1 = true := by
  simp [plainKeys.1,plainKeys.2.1]

theorem keys_deployments (id : String) :
    ∀ p ∈ [(bytes "deviceId",bytes id)], plainKey p.1 = true := by
  simp [plainKeys.2.2]

/-- What a server reads in the request for a name. -/
theorem parameters_listDevices (keep : Bool) (happ : PathSegment app) (name : String) :
    parameter keep (bytes (Request.listDevices app name).path) (bytes "filterField") =
      some (bytes "name") ∧
    parameter keep (bytes (Request.listDevices app name).path) (bytes "filter") =
      some (bytes name) := by
  have hother : (bytes "filter" == bytes "filterField") = false := by decide +kernel
  have hlookup := parameter_resource happ paths.1 (keys_listDevices name) keep (by simp)
  rw [listDevices_url]
  constructor
  · rw [hlookup,List.lookup_cons_self]
  · rw [hlookup,List.lookup_cons,hother,List.lookup_cons_self]

theorem parameters_deployments (keep : Bool) (happ : PathSegment app) (id : String) :
    parameter keep (bytes (Request.deployments app id).path) (bytes "deviceId") =
      some (bytes id) := by
  rw [deployments_url,parameter_resource happ paths.2 (keys_deployments id) keep (by simp),
    List.lookup_cons_self]

/-- A body that is decoded is the answer. -/
theorem fetched_brings {req : Request} {what : String} {answer x : req.Decoded}
    {reply : Reply req.Decoded} (ha : Brings answer reply)
    (hx : fetched what (interpret req reply) = .ok x) : x = answer := by
  cases reply with
  | unbuilt err | failed err | unread err => cases hx
  | response status body decoded =>
    change fetched what (if 400 ≤ status then _ else _) = _ at hx
    by_cases hstatus : 400 ≤ status
    · rw [if_pos hstatus] at hx
      cases hx
    · rw [if_neg hstatus,ha (Nat.lt_of_not_le hstatus)] at hx
      cases hx
      rfl

theorem run_findDeviceByName {c : HTTPClient} {s : Program.Strategy http} {h : History http}
    {r : Option Device} (hr : (Program.run s h (c.findDeviceByName app name)).2 = .ok r) :
    ∃ items, fetched "device list" (interpret (.listDevices app name)
      (s h (c.token,.listDevices app name))) = .ok items ∧ r = List.head? (α := Device) items := by
  rw [HTTPClient.findDeviceByName,Program.run_bind] at hr
  cases hitems : (Program.run s h (c.fetch (.listDevices app name) "device list")).2 with
  | error err =>
    rw [hitems] at hr
    cases hr
  | ok items =>
    rw [hitems] at hr
    cases hr
    exact ⟨items,hitems,rfl⟩

/-- Whatever the name and the id are: the requests can be answered, `findDeviceByName` returns the
first device with exactly the name, and `GetEdgeDeployments` the deployments on exactly the
device. -/
theorem lookups_exact (keep : Bool) (devices : String → List Device)
    (deployments : String → List (String × EdgeDeploymentStatus)) (s : Program.Strategy http)
    (hs : Filters keep devices deployments s) (c : HTTPClient) (app : String)
    (happ : PathSegment app) (h : History http) :
    (∀ name, answerable (bytes (Request.listDevices app name).path) = true ∧
      ∀ r, (Program.run s h (c.findDeviceByName app name)).2 = .ok r →
        r = (devices app).find? (·.name = name)) ∧
    (∀ id, answerable (bytes (Request.deployments app id).path) = true ∧
      ∀ l, (Program.run s h (c.getEdgeDeployments app id)).2 = .ok l →
        l = ((deployments app).filter (·.1 = id)).map Prod.snd) := by
  constructor
  · intro name
    refine ⟨?_,fun r hr => ?_⟩
    · rw [listDevices_url]
      exact answerable_resource happ paths.1 (keys_listDevices name)
    · obtain ⟨hfield,hfilter⟩ := parameters_listDevices keep happ name
      obtain ⟨items,hitems,rfl⟩ := run_findDeviceByName hr
      obtain rfl := fetched_brings (hs.devices h c.token app name name hfield hfilter) hitems
      exact List.head?_filter
  · intro id
    refine ⟨?_,fun l hl => ?_⟩
    · rw [deployments_url]
      exact answerable_resource happ paths.2 (keys_deployments id)
    · have hid := parameters_deployments keep happ id
      exact fetched_brings (hs.deployments h c.token app id id hid) hl

/-- Losant with two devices, whose names have a meaning in a query. -/
def twoDevices (_ : String) : List Device := [⟨"d1","edge",[]⟩,⟨"d2","edge&filter=x#1 %41",[]⟩]

/-- It filters by what it reads, and answers nothing else. -/
def byName : Program.Strategy http := fun _ call =>
  match call with
  | (_,.listDevices app name) =>
    .response 200 "" (.ok ((twoDevices app).filter fun d =>
      parameter true (bytes (Request.listDevices app name).path) (bytes "filter") =
        some (bytes d.name)))
  | (_,.application _) | (_,.createDevice _ _) | (_,.patchAttributes _ _ _) | (_,.createKey _ _)
  | (_,.deleteDevice _ _) | (_,.release _ _ _ _) | (_,.deployments _ _) => .failed "not asked"

theorem filters_byName : Filters true twoDevices (fun _ => []) byName := by
  refine ⟨fun h token app name v _ hv _ => ?_,fun h token app id v _ => trivial⟩
  refine congrArg Except.ok (List.filter_congr fun d _ => ?_)
  rw [hv]
  simp only [Option.some.injEq,bytes_injective.eq_iff,eq_comm]

theorem lookups_exact_special : ∃ r, (Program.run byName []
    (HTTPClient.findDeviceByName ⟨"token","app"⟩ "app" "edge&filter=x#1 %41")).2 = .ok r ∧
    r.map Device.deviceID = some "d2" := by
  have happ : PathSegment "app" := ⟨by decide +kernel,by decide +kernel⟩
  obtain ⟨r,hr⟩ : ∃ r, (Program.run byName [] (HTTPClient.findDeviceByName ⟨"token","app"⟩ "app"
      "edge&filter=x#1 %41")).2 = .ok r := ⟨_,rfl⟩
  refine ⟨r,hr,?_⟩
  rw [((lookups_exact true twoDevices _ byName filters_byName ⟨"token","app"⟩ "app" happ []).1
    "edge&filter=x#1 %41").2 r hr]
  decide +kernel

end LosantDevice.Losant

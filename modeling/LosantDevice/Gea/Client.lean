import LosantDevice.Api.V1alpha1

/-!
# The client of the gateway edge agent

`internal/gea/client.go`. The controller sets no timestamp, so none is carried here.
-/
namespace LosantDevice.Gea

inductive Value
  | int (n : ℤ)
  | float (x : ℚ)
  | bool (b : Bool)
  | string (s : String)
  deriving DecidableEq

structure StatePayload where
  deviceID : String
  attributes : List (String × Value)
  deriving DecidableEq

structure HTTPClient where
  endpoint : String
  deriving DecidableEq

def newHTTPClient (spec : GEASpec) : HTTPClient :=
  ⟨"http://" ++ spec.serviceRef ++ ":" ++ toString spec.port ++ "/state"⟩

/-- The outcomes of a post. The body is read only for an error, and only as far as it goes. -/
inductive Posted
  | unbuilt (err : String)
  | failed (err : String)
  | response (status : ℕ) (body : String)

/-- What `ReportState` returns. -/
def HTTPClient.reported (c : HTTPClient) : Posted → Except String Unit
  | .unbuilt err => .error ("build gea request: " ++ err)
  | .failed err => .error ("gea post " ++ c.endpoint ++ ": " ++ err)
  | .response status body =>
    if 400 ≤ status then
      .error ("gea post " ++ c.endpoint ++ ": status " ++ toString status ++ ": " ++ body)
    else .ok ()

end LosantDevice.Gea

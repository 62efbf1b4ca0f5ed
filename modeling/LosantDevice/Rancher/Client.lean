import LosantDevice.Api.V1alpha1
import LosantDevice.Go.Http

/-!
# The Rancher client

`internal/rancher/client.go`. Every method of the client makes one request and computes what it
returns from the reply to it.
-/
namespace LosantDevice.Rancher
open Go

/-- `ErrNotFound`. -/
def errNotFound : String := "rancher resource not found"

/-- An error of the client: its text, and whether it wraps `ErrNotFound`. -/
structure Error where
  text : String
  notFound : Bool := false
  deriving DecidableEq

structure Cluster where
  id : String
  name : String
  deriving DecidableEq

inductive Request
  | listClusters (name : String)
  | createCluster (name : String)
  | registrationTokens (clusterID : String)
  | getCluster (clusterID : String)
  | deleteCluster (clusterID : String)

namespace Request

/-- What the body of a response to the request is decoded to; of a token, its manifest URL. -/
def Decoded : Request → Type
  | listClusters _ => List Cluster
  | createCluster _ => Cluster
  | registrationTokens _ => List String
  | getCluster _ | deleteCluster _ => Unit

def method : Request → String
  | listClusters _ | registrationTokens _ | getCluster _ => "GET"
  | createCluster _ => "POST"
  | deleteCluster _ => "DELETE"

-- Neither the name nor the id is escaped.
def path (baseURL : String) : Request → String
  | listClusters name => baseURL ++ "/v3/clusters?name=" ++ name
  | createCluster _ => baseURL ++ "/v3/clusters"
  | registrationTokens id => baseURL ++ "/v3/clusterregistrationtokens?clusterId=" ++ id
  | getCluster id | deleteCluster id => baseURL ++ "/v3/clusters/" ++ id

end Request

structure HTTPClient where
  baseURL : String
  token : String
  ca : String
  deriving DecidableEq

/-- `strings.TrimRight(s, "/")`. -/
def trimSlashes (s : String) : String :=
  String.ofList (s.toList.reverse.dropWhile (· = '/')).reverse

def newHTTPClient (lib : Externals) (secret : Secret) : Except String HTTPClient :=
  let ref := "credentials secret " ++ secret.namespace_ ++ "/" ++ secret.name
  match secret.data.lookup "RANCHER_URL",secret.data.lookup "RANCHER_TOKEN",
      secret.data.lookup "RANCHER_CA" with
  | none,_,_ => .error (ref ++ " missing key \"RANCHER_URL\"")
  | some _,none,_ => .error (ref ++ " missing key \"RANCHER_TOKEN\"")
  | some _,some _,none => .error (ref ++ " missing key \"RANCHER_CA\"")
  | some rawURL,some token,some caData =>
    if lib.appendCertsFromPEM caData then .ok ⟨trimSlashes rawURL,token,caData⟩
    else .error (ref ++ ": RANCHER_CA contains no valid PEM certificates")

namespace HTTPClient
variable (c : HTTPClient)

/-- What `doRequest` makes of a reply: the decoding of the body, or an error. -/
def interpret (req : Request) : Reply req.Decoded → Except Error (Except String req.Decoded)
  | .unbuilt err => .error { text := "build request: " ++ err }
  | .failed err => .error
      { text := "rancher api " ++ req.method ++ " " ++ req.path c.baseURL ++ ": " ++ err }
  | .unread err => .error { text := "read response body: " ++ err }
  | .response status body decoded =>
    if status = 404 then
      .error { text := errNotFound ++ ": " ++ req.method ++ " " ++ req.path c.baseURL
               notFound := true }
    else if 400 ≤ status then
      .error { text := "rancher api " ++ req.method ++ " " ++ req.path c.baseURL ++ ": status " ++
                 toString status ++ ": " ++ body }
    else .ok decoded

end HTTPClient

/-- The methods of `RancherClient`. -/
inductive Method
  | findCluster (name : String)
  | createCluster (name : String)
  | getRegistrationToken (clusterID : String)
  | getCluster (clusterID : String)
  | deleteCluster (clusterID : String)
  deriving DecidableEq

namespace Method

/-- `FindCluster` answers with the id when it has found a cluster. -/
def Answer : Method → Type
  | findCluster _ => Except Error (Option String)
  | createCluster _ | getRegistrationToken _ => Except Error String
  | getCluster _ | deleteCluster _ => Except Error Unit

def request : Method → Request
  | findCluster name => .listClusters name
  | createCluster name => .createCluster name
  | getRegistrationToken id => .registrationTokens id
  | getCluster id => .getCluster id
  | deleteCluster id => .deleteCluster id

end Method

/-- What a method of the client returns, given the reply to its request. -/
def HTTPClient.returned (c : HTTPClient) : (m : Method) → Reply m.request.Decoded → m.Answer
  | .findCluster name,reply =>
    match c.interpret (.listClusters name) reply with
    | .error err => .error err
    | .ok (.error err) => .error { text := "decode cluster list response: " ++ err }
    | .ok (.ok data) => .ok ((List.head? (α := Cluster) data).map Cluster.id)
  | .createCluster name,reply =>
    match c.interpret (.createCluster name) reply with
    | .error err => .error err
    | .ok (.error err) => .error { text := "decode create cluster response: " ++ err }
    | .ok (.ok cl) =>
      if Cluster.id cl = "" then .error { text := "create cluster: empty id in response" }
      else .ok (Cluster.id cl)
  | .getRegistrationToken id,reply =>
    match c.interpret (.registrationTokens id) reply with
    | .error err => .error err
    | .ok (.error err) => .error { text := "decode registration token response: " ++ err }
    | .ok (.ok data) =>
      match List.head? (α := String) data with
      | none | some "" => .error { text := "no registration token found for cluster " ++ id }
      | some url => .ok url
  | .getCluster id,reply =>
    match c.interpret (.getCluster id) reply with
    | .error err => .error err
    | .ok _ => .ok ()
  | .deleteCluster id,reply =>
    match c.interpret (.deleteCluster id) reply with
    | .error err => if contains err.text errNotFound then .ok () else .error err
    | .ok _ => .ok ()

end LosantDevice.Rancher

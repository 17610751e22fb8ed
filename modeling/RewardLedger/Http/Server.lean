import RewardLedger.Http.Routes

/-!
# The server

A request is answered by the first route that has its method and whose form its path has. A path that
only other methods have is refused as such; a path that would have a route but for slashes at its end
is redirected. The pages that describe the program are no routes, but their paths are known. What a
failed operation has changed stays changed.
-/

namespace RewardLedger.Http.Server

/-- The path without the slashes at its end. -/
def withoutEndSlashes (path : String) : String :=
  String.ofList (path.toList.reverse.dropWhile (· == '/')).reverse

/-- The forms of the paths of the pages that describe the program. -/
def pages : List (List Segment) :=
  [[.fixed "openapi.json"], [.fixed "docs"], [.fixed "docs", .fixed "oauth2-redirect"],
   [.fixed "redoc"]]

/-- The path has the form of a route or belongs to a page. -/
def isKnown (routes : List Route) (path : String) : Bool :=
  routes.any (·.fits path) || pages.any (Segment.fits · path)

/-- The reply to a request that no route answers. -/
def unrouted (routes : List Route) (path : String) : Reply :=
  if isKnown routes path then .detail 405 "Method Not Allowed"
  else if path ≠ "/" ∧ path.endsWith "/" ∧ isKnown routes (withoutEndSlashes path) then
    .redirect
  else .detail 404 "Not Found"

/-- The route that answers a request, with the open parts of its path. -/
def route? (routes : List Route) (request : Request) : Option (Route × List String) :=
  routes.findSome? fun r =>
    if r.method = request.method then (r.pathArguments? request.path).map (r, ·) else none

/-- The reply to a body that is no JSON. -/
def unreadable : Body.Fault → Reply
  | .notJson position => .invalid [⟨[.field "body", .index position], .notJson⟩]
  | .unreadable => .detail 400 "There was an error parsing the body"

/-- The value of the body of a request, as far as the route reads it. -/
def bodyFor (r : Route) (request : Request) : Except Body.Fault (Option Value) :=
  match request.body with
  | some body => if r.takesBody then body.read else .ok none
  | none => .ok none

/-- The reply with the result of an operation. -/
def replyWith (answer : Answer) : Reply :=
  match answer.body.halvedText?, answer.body.jsonForm with
  | some text, _ => .crash (.unsendable text)
  | none, .ok body => .json answer.status body
  | none, .error e => .crash e

/-- The reply to the outcome of an operation. -/
def replyOf : Except Failure Answer → Reply
  | .ok answer => replyWith answer
  | .error e => .ofFailure e

/-- Let a route answer. -/
def answer (r : Route) (path : List String) (request : Request) (w : World) : Reply × World :=
  match bodyFor r request with
  | .error fault => (unreadable fault, w)
  | .ok body =>
    match r.respond ⟨path, .read request.query, body⟩ with
    | .invalid issues => (.ofIssues (body.getD .null) issues, w)
    | .valid op =>
      let (result, w') := op.perform w
      (replyOf result, w')

/-- Answer a request. -/
def respond (cfg : Config) (request : Request) (w : World) : Reply × World :=
  match route? (routes cfg) request with
  | some (r, path) => answer r path request w
  | none => (unrouted (routes cfg) request.path, w)

/-- Answer requests, one after the other. -/
def respondAll (cfg : Config) : List Request → World → List Reply × World
  | [], w => ([], w)
  | request :: rest, w =>
    let (reply, w') := respond cfg request w
    let (replies, w'') := respondAll cfg rest w'
    (reply :: replies, w'')

/-- A request that no route answers changes nothing. -/
theorem respond_of_route?_eq_none {cfg : Config} {request : Request}
    (h : route? (routes cfg) request = none) (w : World) : (respond cfg request w).2 = w := by
  simp [respond, h]

end RewardLedger.Http.Server

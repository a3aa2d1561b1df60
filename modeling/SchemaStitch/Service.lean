import SchemaStitch.Service.Request

/-! # The service

    The service answers a request with a response and keeps nothing in between.  It has
    two endpoints: one tells that it runs, and one does a job. -/

namespace SchemaStitch.Service

/-! ## Requests and responses -/

/-- A request. -/
structure Request where
  method : Text
  path : Text
  contentType : Text
  body : Bytes
  deriving DecidableEq, Repr

/-- What a response carries. -/
inductive Content
  | none
  | json (value : Json)
  | text (text : Text)
  deriving Repr

/-- The content type of a response. -/
def Content.type? : Content → Option Text
  | .none => Option.none
  | .json _ => some "application/json"
  | .text _ => some "text/plain; charset=utf-8"

/-- A response: its status and what it carries. -/
structure Response where
  status : Nat
  content : Content
  deriving Repr

/-- A response that tells what went wrong. -/
def Response.detail (status : Nat) (detail : Json) : Response :=
  ⟨status, .json (.record [("detail", detail)])⟩

/-- The response to a request that cannot be answered as it should be. -/
def Response.broken (detail : Text) : Response :=
  ⟨500, .json (.record
    [("error", .text "Schema merge failed"), ("detail", .text detail)])⟩

/-! ## The state of the service -/

/-- The version of the service. -/
def version : Text := "0.1.0"

/-- The response that tells that the service runs. -/
def healthy : Response :=
  ⟨200, .json (.record [("status", .text "healthy"), ("version", .text version)])⟩

/-! ## Doing a job -/

/-- The status of a failed job: it is the texts that are to blame, except for a name with
    more digits than can be compared. -/
def failureStatus : JobError → Nat
  | .checking (.invalid (.numeral _)) => 500
  | _ => 400

/-- The positions of definitions without a name. -/
def namelessFrom (index : Nat) : List (Option Text) → List Nat
  | [] => []
  | some _ :: rest => namelessFrom (index + 1) rest
  | none :: rest => index :: namelessFrom (index + 1) rest

/-- What is said about a definition without a name. -/
def namelessMessage (index : Nat) : Text :=
  "\ntypes." ++ Text.ofNat index
    ++ "\n  Input should be a valid string [type=string_type, input_value=None, "
    ++ "input_type=NoneType]"
    ++ "\n    For further information visit https://errors.pydantic.dev/2.14/v/string_type"

/-- What is said about definitions without a name, given where they stand. -/
def namelessDetail (positions : List Nat) : Text :=
  let count := Text.ofNat positions.length
  let word : Text :=
    if positions.length = 1 then " validation error" else (" validation errors" : Text)
  count ++ word ++ " for MergeResponse" ++ positions.flatMap namelessMessage

/-- The result of a job in the JSON form, which needs a name for every definition. -/
def jsonResult (stitched : Stitched) : Response :=
  match namelessFrom 0 stitched.restNames with
  | [] =>
      ⟨200, .json (.record
        [("status", .text "success"), ("sdl", .text stitched.print),
          ("merged_types", .array (stitched.mergedNames.map Json.optionalText)),
          ("types", .array (stitched.restNames.map Json.optionalText))])⟩
  | positions => .broken (namelessDetail positions)

/-- The response to a request to stitch. -/
def StitchRequest.answer (request : StitchRequest) : Response :=
  match request.job.run with
  | .error error => .detail (failureStatus error) (.text error.message)
  | .ok stitched =>
      match request.format with
      | .sdl => ⟨200, .text stitched.print⟩
      | .json => jsonResult stitched

/-- The response that reports what is wrong with a body.  Numbers that are not finite and
    halves of characters cannot be repeated in it. -/
def complaintsResponse (complaints : List Complaint) : Response :=
  let detail := Json.array (complaints.map Complaint.json)
  let report := Json.record [("detail", detail)]
  if report.isFinite then
    match Utf8.encodeRaw report.print with
    | .ok _ => ⟨422, .json report⟩
    | .error fault => .broken fault.message
  else .broken "Out of range float values are not JSON compliant"

/-- The response to a body from which no request can be had. -/
def refusal : BodyError → Response
  | .unreadable => .detail 400 (.text "There was an error parsing the body")
  | .undecodable fault => .broken fault.message
  | .refused complaints => complaintsResponse complaints

/-- The response to a body. -/
def stitch (contentType : Text) (body : Bytes) : Response :=
  match StitchRequest.ofBody contentType body with
  | .error error => refusal error
  | .ok request => request.answer

/-! ## Routing -/

/-- What the service can be asked for. -/
inductive Endpoint
  | health | merge
  deriving DecidableEq, Repr

namespace Endpoint

/-- The path of an endpoint. -/
def path : Endpoint → Text
  | .health => "/health"
  | .merge => "/merge"

/-- The method that an endpoint answers. -/
def method : Endpoint → Text
  | .health => "GET"
  | .merge => "POST"

/-- The endpoints, in order. -/
def all : List Endpoint :=
  [.health, .merge]

/-- The endpoint of a path; a line feed may stand behind the path. -/
def ofPath? (path : Text) : Option Endpoint :=
  all.find? fun endpoint => endpoint.path == path || endpoint.path ++ ['\n'] == path

/-- The response of an endpoint to a request with its method. -/
def answer (request : Request) : Endpoint → Response
  | .health => healthy
  | .merge => stitch request.contentType request.body

end Endpoint

/-- A character of a path as it is repeated in a response: one that would end the path or
    look like a slash is escaped, and tabs and line ends are left out. -/
def shownInPath (c : Char) : Text :=
  if c = '?' then "%3F"
  else if c = '#' then "%23"
  else if c = '\\' then "%5C"
  else if c = '\t' || c = '\n' || c = '\r' then []
  else [c]

/-- A path as it is repeated in a response: it starts with a slash. -/
def shownPath (path : Text) : Text :=
  let rooted := if ("/" : Text).isPrefixOf path then path else '/' :: path
  rooted.flatMap shownInPath

/-- The response for a path without an endpoint: a path that has one but for slashes at
    its end is sent there. -/
def lost (request : Request) : Response :=
  let trimmed := Text.dropEndWhile (fun c => c = '/') request.path
  if (Endpoint.ofPath? trimmed).isSome then ⟨307, .none⟩
  else
    ⟨404, .json (.record
      [("error", .text "Endpoint not found"), ("method", .text request.method),
        ("path", .text (shownPath request.path)),
        ("endpoints", .array (Endpoint.all.map fun endpoint => .text endpoint.path))])⟩

/-- The response to a request. -/
def handle (request : Request) : Response :=
  match Endpoint.ofPath? request.path with
  | none => lost request
  | some endpoint =>
      if request.method = endpoint.method then endpoint.answer request
      else .detail 405 (.text "Method Not Allowed")

end SchemaStitch.Service

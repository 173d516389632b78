import Reckon.Service.Basic

/-!
# The service over HTTP

Expressions are sent to `/evaluate`, `/ws` opens a socket, and `/healthz` tells that the service is
alive.  A path that exists may be asked for with its own method only.
-/

namespace Reckon
namespace Service

/-- A request. -/
structure Request where
  method : Bytes
  /-- The path with what follows a question mark. -/
  target : Bytes
  body : Bytes
  deriving DecidableEq, Repr

/-- A response. -/
structure Response where
  status : Nat
  contentType : Bytes
  /-- The methods that the path can be asked for with, told when another was used. -/
  allow : Option Bytes
  body : Bytes
  deriving DecidableEq, Repr

/-- What a path is for. -/
inductive Route where
  | evaluate
  | socket
  | health
  deriving DecidableEq, Repr

namespace Route

/-- The route of a path. -/
def ofPath? (path : Bytes) : Option Route :=
  if path = ("/evaluate" : Bytes) then some .evaluate
  else if path = ("/ws" : Bytes) then some .socket
  else if path = ("/healthz" : Bytes) then some .health
  else none

/-- The methods of a route. -/
def methods : Route → List Bytes
  | .evaluate => ["POST"]
  | .socket | .health => ["GET", "HEAD"]

end Route

/-- The content type of plain text. -/
def plainType : Bytes :=
  "text/plain; charset=utf-8"

/-- A response of plain text. -/
def plain (status : Nat) (body : Bytes) : Response :=
  ⟨status, plainType, none, body⟩

/-- A response that carries a reply; one that cannot be sent leaves the body empty and is logged. -/
def ofReply (status : Nat) (r : Reply) (lib : Libraries := {}) : Response × Bytes :=
  match r.encode lib with
  | .ok line => (⟨status, "application/json", none, line⟩, [])
  | .error e =>
    (⟨status, "application/json", none, []⟩, "Write response: " ++ e ++ ".\n")

/-- What is said of a body that is no request, with what the reader says of it. -/
def badBody (detail : Bytes) : Bytes :=
  "invalid request body: " ++ detail

/-- The response to a body sent for evaluation, and what is logged. -/
def respondEvaluate (s : Service) (body : Bytes) (lib : Libraries := {}) (location : UInt64 := 0) :
    Response × Bytes :=
  match readRequest? body with
  | none => ofReply 400 (.badRequest (badBody (lib.refusal body))) lib
  | some expression =>
    let a := s.evaluate expression lib location
    let (response, log) := ofReply (if a.succeeded then 200 else 422) a.reply lib
    (response, a.log ++ log)

/-- What is logged of a request for a socket that does not ask for the protocol. -/
def noUpgrade : Bytes :=
  "Websocket upgrade: websocket: the client is not using the websocket protocol: "
    ++ "'upgrade' token not found in 'Connection' header.\n"

/-- The path of a target. -/
def pathOf (target : Bytes) : Bytes :=
  target.takeWhile (· != 0x3F)

/-- The parts of a path with the empty ones and those that stand for the same or the upper directory
worked out. -/
def cleanParts (parts : List Bytes) : List Bytes :=
  (parts.foldl
    (fun kept part =>
      if part.isEmpty || part = ("." : Bytes) then kept
      else if part = (".." : Bytes) then kept.drop 1
      else part :: kept)
    []).reverse

/-- A path in its plain form; a slash at the end is kept. -/
def cleanPath (path : Bytes) : Bytes :=
  let body := 0x2F :: Bytes.join [0x2F] (cleanParts (Bytes.splitOn 0x2F path))
  if path.getLast? = some 0x2F && body != [0x2F] then body ++ [0x2F] else body

/-- A path with its hexadecimal escapes worked out. -/
def unescape : Bytes → Bytes
  | 0x25 :: a :: b :: rest =>
    match Bytes.hexValue? a, Bytes.hexValue? b with
    | some x, some y => (16 * x + y).toUInt8 :: unescape rest
    | _, _ => 0x25 :: unescape (a :: b :: rest)
  | b :: rest => b :: unescape rest
  | [] => []

/-- A text with the characters that have a meaning in HTML escaped. -/
def escapeHtml (s : Bytes) : Bytes :=
  s.flatMap fun b =>
    match b with
    | 0x26 => "&amp;"
    | 0x3C => "&lt;"
    | 0x3E => "&gt;"
    | 0x22 => "&#34;"
    | 0x27 => "&#39;"
    | _ => [b]

/-- The response that sends a client to the plain form of a path. -/
def redirect (method location : Bytes) : Response :=
  if method = ("GET" : Bytes) then
    ⟨307, "text/html; charset=utf-8", none,
      "<a href=\"" ++ escapeHtml location ++ "\">Temporary Redirect</a>.\n\n"⟩
  else if method = ("HEAD" : Bytes) then ⟨307, "text/html; charset=utf-8", none, []⟩
  else ⟨307, [], none, []⟩

/-- The response to a request for a path in its plain form, and what is logged. -/
def respondPath (s : Service) (method path body : Bytes) (lib : Libraries := {})
    (location : UInt64 := 0) : Response × Bytes :=
  match Route.ofPath? (unescape path) with
  | none => (plain 404 "404 page not found\n", [])
  | some route =>
    if !route.methods.contains method then
      ({ plain 405 "Method Not Allowed\n" with allow := some (Bytes.join ", " route.methods) }, [])
    else match route with
      | .evaluate => s.respondEvaluate body lib location
      | .socket => (plain 400 "Bad Request\n", noUpgrade)
      | .health => (plain 200 "ok\n", [])

/-- The response to a request, and what is logged.  If the request asks for a value in arbitrary
precision, that is going to stand at `location`. -/
def respond (s : Service) (r : Request) (lib : Libraries := {}) (location : UInt64 := 0) :
    Response × Bytes :=
  let path := pathOf r.target
  let plainPath := cleanPath path
  if plainPath != path && r.method != ("CONNECT" : Bytes) then
    (redirect r.method (plainPath ++ r.target.drop path.length), [])
  else s.respondPath r.method path r.body lib location

end Service
end Reckon

import Reckon.Service.Basic

/-!
# The service over a socket

A client sends one expression to a message and gets one reply.  The connection ends when the client
closes it, drops it or breaks the protocol.
-/

namespace Reckon
namespace Service

/-- What a client sends. -/
inductive Frame where
  | text (payload : Bytes)
  | binary (payload : Bytes)
  | close (code : Nat) (reason : Bytes)
  deriving DecidableEq, Repr

/-- What a client receives. -/
inductive Receipt where
  | reply (line : Bytes)
  /-- The connection was closed with a code. -/
  | closed (code : Nat)
  deriving DecidableEq, Repr

/-- How a connection ended. -/
inductive Ending where
  /-- The client closed or dropped it. -/
  | closed (code : Nat) (reason : Bytes)
  /-- The service closed it. -/
  | refused
  deriving DecidableEq, Repr

/-- What passed over a connection. -/
structure Exchange where
  receipts : List Receipt
  log : Bytes
  deriving DecidableEq, Repr

namespace Ending

/-- The name of a code, if it has one. -/
def codeName : Nat → Bytes
  | 1000 => " (normal)"
  | 1001 => " (going away)"
  | 1002 => " (protocol error)"
  | 1003 => " (unsupported data)"
  | 1005 => " (no status)"
  | 1006 => " (abnormal closure)"
  | 1007 => " (invalid payload data)"
  | 1008 => " (policy violation)"
  | 1009 => " (message too big)"
  | 1010 => " (mandatory extension missing)"
  | 1011 => " (internal server error)"
  | 1015 => " (TLS handshake error)"
  | _ => []

/-- Whether a code is one of those a client leaves with in good order. -/
def isExpected (code : Nat) : Bool :=
  code = 1000 || code = 1001

/-- What is logged when a connection ends. -/
def log (verbose : Bool) (peer : Bytes) : Ending → Bytes
  | .refused => if verbose then "Websocket connection from " ++ peer ++ " closed.\n" else []
  | .closed code reason =>
    if isExpected code then
      if verbose then "Websocket connection from " ++ peer ++ " closed.\n" else []
    else
      let detail : Bytes := if reason.isEmpty then [] else ": " ++ reason
      "Websocket read: websocket: close " ++ Bytes.ofNat code ++ codeName code ++ detail ++ ".\n"

end Ending

/-- The code of a connection that was dropped. -/
def droppedCode : Nat :=
  1006

/-- The code of a closing frame without a code. -/
def noStatus : Nat :=
  1005

/-- Whether a client may close with a code. -/
def isClosingCode (code : Nat) : Bool :=
  (1000 ≤ code && code ≤ 1003) || (1007 ≤ code && code ≤ 1013) || (3000 ≤ code && code ≤ 4999)

/-- The end of a connection by a closing frame, and the code that the client gets back. -/
def closing (code : Nat) (reason : Bytes) : Ending × Nat :=
  if code = noStatus then (.closed noStatus [], noStatus)
  else if isClosingCode code && Utf8.isValid reason then (.closed code reason, code)
  else (.refused, 1002)

/-- The name of the peer in the log. -/
def peer : Bytes :=
  "pipe"

/-- The reply to a message that is not text. -/
def notText : Reply :=
  .badRequest "expected a text frame"

/-- The end of an exchange. -/
def ended (s : Service) (receipts : List Receipt) (e : Ending) : Exchange :=
  ⟨receipts, e.log s.verbose peer⟩

/-- An exchange with a receipt and a log in front. -/
def Exchange.after (x : Exchange) (r : Receipt) (log : Bytes) : Exchange :=
  ⟨r :: x.receipts, log ++ x.log⟩

/-- A frame, why the reply to it cannot be delivered, if it cannot, and where in memory the value of its
expression is going to stand, if it has one in arbitrary precision. -/
structure Turn where
  frame : Frame
  fault : Option Bytes := none
  location : UInt64 := 0
  deriving DecidableEq, Repr

/-- What is logged when a reply cannot be written. -/
def writeFault (e : Bytes) : Bytes :=
  "Websocket write: " ++ e ++ ".\n"

/-- An exchange that starts with a reply.  The connection ends when the reply cannot be encoded, in
which case an empty message is sent, and when it cannot be delivered. -/
def deliver (r : Reply) (log : Bytes) (fault : Option Bytes) (next : Exchange)
    (lib : Libraries := {}) : Exchange :=
  match r.encode lib, fault with
  | .ok line, none => next.after (.reply line) log
  | .ok _, some e => ⟨[], log ++ writeFault e⟩
  | .error e, _ => ⟨[.reply []], log ++ writeFault e⟩

/-- Serves a client turn by turn, who drops the connection at the end.  A message that is too long ends
the connection. -/
def serveTurns (s : Service) (turns : List Turn) (lib : Libraries := {}) : Exchange :=
  match turns with
  | [] => s.ended [] (.closed droppedCode "unexpected EOF")
  | ⟨.close code reason, _, _⟩ :: _ =>
    let (ending, code) := closing code reason
    s.ended [.closed code] ending
  | ⟨.text payload, fault, location⟩ :: rest =>
    if payload.length > maxSize then s.ended [.closed 1009] .refused
    else
      let a := s.evaluate payload lib location
      deliver a.reply a.log fault (s.serveTurns rest lib) lib
  | ⟨.binary payload, fault, _⟩ :: rest =>
    if payload.length > maxSize then s.ended [.closed 1009] .refused
    else deliver notText [] fault (s.serveTurns rest lib) lib

/-- Serves the frames of a client to whom every reply can be delivered. -/
def serveFrames (s : Service) (frames : List Frame) : Exchange :=
  s.serveTurns (frames.map fun frame => { frame })

/-- Serves one client from the start of the service to its end. -/
def serveClient (s : Service) (frames : List Frame) : Exchange :=
  let x := s.serveFrames frames
  let greeting : Bytes :=
    if s.verbose then "Websocket connection from " ++ peer ++ ".\n" else []
  { x with log := "Listening on " ++ peer ++ ".\n" ++ greeting ++ x.log }

end Service
end Reckon

import Reckon.Text.Quoted

/-!
# Addresses to listen on

An address is a host and a port with a colon between them; a host that contains colons stands in
brackets.
-/

namespace Reckon

/-- Why a service cannot listen on an address. -/
inductive AddressFault where
  | missingPort (address : Bytes)
  | tooManyColons (address : Bytes)
  | missingBracket (address : Bytes)
  | strayOpening (address : Bytes)
  | strayClosing (address : Bytes)
  | invalidPort (port : Bytes)
  | unknownPort (port : Bytes)
  deriving DecidableEq, Repr

namespace AddressFault

/-- The message of a fault. -/
def message : AddressFault → Bytes
  | .missingPort a => "address " ++ a ++ ": missing port in address"
  | .tooManyColons a => "address " ++ a ++ ": too many colons in address"
  | .missingBracket a => "address " ++ a ++ ": missing ']' in address"
  | .strayOpening a => "address " ++ a ++ ": unexpected '[' in address"
  | .strayClosing a => "address " ++ a ++ ": unexpected ']' in address"
  | .invalidPort p => "address " ++ p ++ ": invalid port"
  | .unknownPort p => "lookup tcp/" ++ p ++ ": unknown port"

end AddressFault

namespace Address

/-- The text in front of the last occurrence of a byte and the text behind it. -/
def splitLast? (b : UInt8) (s : Bytes) : Option (Bytes × Bytes) :=
  let tail := s.reverse.takeWhile (· != b)
  if tail.length = s.length then none
  else some (s.take (s.length - tail.length - 1), tail.reverse)

/-- An address without brackets in front: the port, when the rest holds no colon. -/
def plainPort (address head port : Bytes) : Except AddressFault Bytes :=
  if head.contains 0x3A then .error (.tooManyColons address)
  else if address.contains 0x5B then .error (.strayOpening address)
  else if address.contains 0x5D then .error (.strayClosing address)
  else .ok port

/-- An address whose host stands in brackets; `inner` is what follows the opening one. -/
def bracketedPort (address inner head port : Bytes) : Except AddressFault Bytes :=
  let host := inner.takeWhile (· != 0x5D)
  let after := inner.drop (host.length + 1)
  if host.length = inner.length then .error (.missingBracket address)
  else if after.isEmpty then .error (.missingPort address)
  else if host.length + 2 != head.length then
    if after.head? = some 0x3A then .error (.tooManyColons address)
    else .error (.missingPort address)
  else if inner.contains 0x5B then .error (.strayOpening address)
  else if after.contains 0x5D then .error (.strayClosing address)
  else .ok port

/-- The port of an address. -/
def portOf (address : Bytes) : Except AddressFault Bytes :=
  match splitLast? 0x3A address with
  | none => .error (.missingPort address)
  | some (head, port) =>
    match address with
    | 0x5B :: inner => bracketedPort address inner head port
    | _ => plainPort address head port

/-- Checks a port: a number below 2^16 with an optional sign, or nothing for any free port. -/
def checkPort (port : Bytes) : Except AddressFault Unit :=
  let (negative, digits) : Bool × Bytes :=
    match port with
    | 0x2B :: ds => (false, ds)
    | 0x2D :: ds => (true, ds)
    | ds => (false, ds)
  if !digits.all Bytes.isDigit then .error (.unknownPort port)
  else
    let n := Bytes.natOfDigits digits
    if n > 65535 || (negative && n > 0) then .error (.invalidPort port) else .ok ()

/-- Checks an address; the empty one stands for any free port. -/
def check (address : Bytes) : Except AddressFault Unit :=
  if address.isEmpty then .ok ()
  else
    match portOf address with
    | .error e => .error e
    | .ok port => checkPort port

/-- The message of a service that cannot listen on an address. -/
def listenMessage (address : Bytes) (fault : AddressFault) : Bytes :=
  "listen " ++ Quoted.text address ++ ": listen tcp: " ++ fault.message

end Address
end Reckon

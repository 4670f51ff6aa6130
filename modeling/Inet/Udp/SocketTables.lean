import Mathlib.Logic.Function.Basic
import Inet.Lib.Except

/-!
# The tables of UDP sockets

Sockets are found by their number, and by their local port in the order in which they came to it. A
port is free when there is no list for it.
-/
namespace Inet.Udp.Tables

open Lib

inductive UdpSourceFilterMode
  | UDP_INCLUDE_MCAST_SOURCES
  | UDP_EXCLUDE_MCAST_SOURCES
deriving DecidableEq

def EPHEMERAL_PORTRANGE_START : Nat := 1024

def EPHEMERAL_PORTRANGE_END : Nat := 5000

/-- An address, or none where it is unspecified. -/
abbrev L3Address (A : Type) := Option A

structure MulticastMembership (A : Type) where
  multicastAddress : A
  filterMode : UdpSourceFilterMode
  sourceList : List A

structure SockDesc (A : Type) where
  sockId : Int
  isBound : Bool := false
  onlyLocalPortIsSet : Bool := false
  reuseAddr : Bool := false
  localAddr : L3Address A := none
  remoteAddr : L3Address A := none
  localPort : Int := -1
  remotePort : Int := -1
  isBroadcast : Bool := false
  multicastMembershipTable : List (MulticastMembership A) := []

/-- A socket in the lists of the ports is meant by its number. -/
structure State (A : Type) where
  socketsByIdMap : Int → Option (SockDesc A) := fun _ => none
  socketsByPortMap : Int → Option (List Int) := fun _ => none
  lastEphemeralPort : Nat := EPHEMERAL_PORTRANGE_START

variable {A : Type}

namespace State

/-- `socketsByPortMap[port]`, which is empty where there is no list. -/
def listAt (state : State A) (port : Int) : List Int := (state.socketsByPortMap port).getD []

/-- The sockets of a port. -/
def socketsAt (state : State A) (port : Int) : List (SockDesc A) :=
  (state.listAt port).filterMap state.socketsByIdMap

def setList (port : Int) (list : Option (List Int)) (state : State A) : State A :=
  { state with socketsByPortMap := Function.update state.socketsByPortMap port list }

def setSocket (sockId : Int) (sd : Option (SockDesc A)) (state : State A) : State A :=
  { state with socketsByIdMap := Function.update state.socketsByIdMap sockId sd }

end State

/-! ### Ephemeral ports -/

def nextEphemeralPort (port : Nat) : Nat :=
  if port + 1 = EPHEMERAL_PORTRANGE_END then EPHEMERAL_PORTRANGE_START else port + 1

/-- The loop of `getEphemeralPort`, if it has ended after some rounds. -/
def searchEphemeralPort (state : State A) (searchUntil : Nat) :
    Nat → Nat → Option (Except String Nat)
  | 0, _ => none
  | rounds + 1, port =>
    if (state.socketsByPortMap port).isSome then
      if port = searchUntil then
        some (.error "Ephemeral port range 1024..5000 exhausted, all ports occupied")
      else searchEphemeralPort state searchUntil rounds (nextEphemeralPort port)
    else some (.ok port)

/-- There are no more rounds than ports. -/
def getEphemeralPort (state : State A) : Except String (Int × State A) :=
  match searchEphemeralPort state state.lastEphemeralPort
    (EPHEMERAL_PORTRANGE_END - EPHEMERAL_PORTRANGE_START)
    (nextEphemeralPort state.lastEphemeralPort) with
  | some (.ok port) => .ok (port, { state with lastEphemeralPort := port })
  | some (.error text) => .error text
  | none => .error "The search for a port has not ended"

/-! ### Commands -/

/-- The port -1 stands for an ephemeral port. -/
def choosePort (localPort : Int) (state : State A) : Except String (Int × State A) :=
  if localPort = -1 then getEphemeralPort state else .ok (localPort, state)

def createSocket (sockId : Int) (localAddr : L3Address A) (localPort : Int) (state : State A) :
    Except String (SockDesc A × State A) := do
  let (port, state) ← choosePort localPort state
  let sd := { sockId, localAddr, localPort := port, onlyLocalPortIsSet := localAddr.isNone }
  return (sd, (state.setSocket sockId (some sd)).setList port (some (state.listAt port ++ [sockId])))

def getOrCreateSocket (sockId : Int) (state : State A) : Except String (SockDesc A × State A) :=
  if sockId = -1 then .error "sockId in Udp command not filled in"
  else match state.socketsByIdMap sockId with
    | some sd => .ok (sd, state)
    | none => createSocket sockId none (-1) state

section
variable [DecidableEq A]

/-- The port is converted to 16 bits. -/
def findFirstSocketByLocalAddress (localAddr : L3Address A) (localPort : Int) (state : State A) :
    Option (SockDesc A) :=
  (state.socketsAt (localPort % 65536)).find? fun sd =>
    sd.localAddr.isNone || decide (sd.localAddr = localAddr)

/-- Two sockets may have the same address and port if both of them may be reused. -/
def isTaken (sd : Option (SockDesc A)) (localAddr : L3Address A) (localPort : Int)
    (state : State A) : Bool :=
  match findFirstSocketByLocalAddress localAddr localPort state with
  | none => false
  | some existing => match sd with
    | none => true
    | some sd => !sd.reuseAddr || !existing.reuseAddr

/-- What `bind` does with a socket that is there. -/
def rebind (sockId : Int) (sd : SockDesc A) (localAddr : L3Address A) (localPort : Int)
    (state : State A) : State A :=
  let bound := { sd with isBound := true, localAddr }
  if localPort ≠ -1 ∧ sd.localPort ≠ localPort then
    let removed := state.setList sd.localPort (some ((state.listAt sd.localPort).filter (· ≠ sockId)))
    (removed.setSocket sockId (some { bound with localPort })).setList localPort
      (some (removed.listAt localPort ++ [sockId]))
  else state.setSocket sockId (some bound)

def bind (sockId : Int) (localAddr : L3Address A) (localPort : Int) (state : State A) :
    Except String (State A) :=
  if sockId = -1 then .error "sockId in BIND message not filled in"
  else if localPort < -1 ∨ 65535 < localPort then .error "bind: invalid local port number"
  else
    let sd := state.socketsByIdMap sockId
    if isTaken sd localAddr localPort state then .error "bind: local address/port already taken"
    else match sd with
      | some sd =>
        if sd.isBound then .error "bind: socket is already bound"
        else .ok (rebind sockId sd localAddr localPort state)
      | none => do
        let (sd, state) ← createSocket sockId localAddr localPort state
        return state.setSocket sockId (some { sd with isBound := true })

def connect (sockId : Int) (remoteAddr : L3Address A) (remotePort : Int) (state : State A) :
    Except String (State A) :=
  if remoteAddr.isNone then .error "connect: unspecified remote address"
  else if remotePort ≤ 0 ∨ 65535 < remotePort then .error "connect: invalid remote port number"
  else do
    let (sd, state) ← getOrCreateSocket sockId state
    return state.setSocket sockId (some { sd with
      remoteAddr, remotePort, onlyLocalPortIsSet := false })

/-- A number that no socket has is only reported. -/
def close (sockId : Int) (state : State A) : State A :=
  match state.socketsByIdMap sockId with
  | none => state
  | some sd =>
    let list := (state.listAt sd.localPort).erase sockId
    (state.setSocket sockId none).setList sd.localPort (if list.isEmpty then none else some list)

/-- The options that change what a socket receives, and the others. -/
inductive SocketOption (A : Type) where
  | reuseAddress (reuseAddr : Bool)
  | broadcast (broadcast : Bool)
  | memberships (table : List (MulticastMembership A))
  | other

def SocketOption.apply : SocketOption A → SockDesc A → SockDesc A
  | .reuseAddress reuseAddr, sd => { sd with reuseAddr }
  | .broadcast isBroadcast, sd => { sd with isBroadcast }
  | .memberships multicastMembershipTable, sd => { sd with multicastMembershipTable }
  | .other, sd => sd

/-- Options and packets to send make a socket when there is none. -/
def setOption (sockId : Int) (option : SocketOption A) (state : State A) :
    Except String (State A) := do
  let (sd, state) ← getOrCreateSocket sockId state
  return state.setSocket sockId (some (option.apply sd))

/-! ### Runs -/

inductive Command (A : Type) where
  | bind (sockId : Int) (localAddr : L3Address A) (localPort : Int)
  | connect (sockId : Int) (remoteAddr : L3Address A) (remotePort : Int)
  | close (sockId : Int)
  | setOption (sockId : Int) (option : SocketOption A)

def perform : Command A → State A → Except String (State A)
  | .bind sockId localAddr localPort => bind sockId localAddr localPort
  | .connect sockId remoteAddr remotePort => connect sockId remoteAddr remotePort
  | .close sockId => fun state => .ok (close sockId state)
  | .setOption sockId option => setOption sockId option

/-- The states after commands that meet a condition, from no sockets on. -/
inductive Reachable (allowed : State A → Command A → Prop) : State A → Prop
  | initial : Reachable allowed {}
  | after {state next : State A} (command : Command A) : Reachable allowed state →
      allowed state command → perform command state = .ok next → Reachable allowed next

end

end Inet.Udp.Tables

import Mathlib

/-!
# A bridge of the spanning tree protocol

Each port stores the best vector it has received: root, cost of the path to it, and the bridge and
port that have sent it. From these the bridge elects a root and gives its ports their roles. Timers,
port states and topology changes are left out. The interface at an index has that index as its
identifier.
-/
namespace Inet.Ieee8021d

inductive PortRole
  | ALTERNATE | NOTASSIGNED | DISABLED | DESIGNATED | BACKUP | ROOT
  deriving DecidableEq

structure Ieee8021dInterfaceData where
  priority : Nat
  linkCost : Nat
  role : PortRole
  rootPriority : Nat
  rootAddress : Nat
  rootPathCost : Nat
  bridgePriority : Nat
  bridgeAddress : Nat
  portPriority : Nat
  portNum : Nat
  maxAge : Int
  deriving DecidableEq

/-- Configuration BPDU. -/
structure BpduCfg where
  rootPriority : Nat
  rootAddress : Nat
  rootPathCost : Nat
  bridgePriority : Nat
  bridgeAddress : Nat
  portPriority : Nat
  portNum : Nat
  messageAge : Int
  maxAge : Int
  deriving DecidableEq

/-- The first bridge is superior if the result is positive, the second one if it is negative. -/
def compareBridgeIDs (aPriority aAddress bPriority bAddress : Nat) : Int :=
  if aPriority < bPriority then 1
  else if aPriority > bPriority then -1
  else if aAddress < bAddress then 1
  else if aAddress > bAddress then -1
  else 0

def comparePortIDs (aPriority aNum bPriority bNum : Nat) : Int :=
  if aPriority < bPriority then 1
  else if aPriority > bPriority then -1
  else if aNum < bNum then 1
  else if aNum > bNum then -1
  else 0

def comparePorts (portA portB : Ieee8021dInterfaceData) : Int :=
  let result := compareBridgeIDs portA.rootPriority portA.rootAddress portB.rootPriority
    portB.rootAddress
  if result ≠ 0 then result
  else if portA.rootPathCost < portB.rootPathCost then 1
  else if portA.rootPathCost > portB.rootPathCost then -1
  else
    -- designated bridge
    let result := compareBridgeIDs portA.bridgePriority portA.bridgeAddress portB.bridgePriority
      portB.bridgeAddress
    if result ≠ 0 then result
    -- designated port of designated bridge
    else comparePortIDs portA.portPriority portA.portNum portB.portPriority portB.portNum

/-- The sum of two `unsigned int` costs. -/
def addCost (a b : Nat) : Nat := (a + b) % 2 ^ 32

structure Stp where
  bridgePriority : Nat
  bridgeAddress : Nat
  maxAge : Int
  ports : List Ieee8021dInterfaceData
  isRoot : Bool
  rootInterfaceId : Nat
  desPorts : List Nat
  rootPathCost : Nat
  rootPriority : Nat
  rootAddress : Nat
  currentMaxAge : Int
  deriving DecidableEq

namespace Stp

/-! ### BPDUs -/

/-- The priorities of a BPDU have 16 bits. -/
def generateBPDU (stp : Stp) (interfaceId : Nat) (port : Ieee8021dInterfaceData) : BpduCfg where
  bridgeAddress := stp.bridgeAddress
  bridgePriority := stp.bridgePriority % 2 ^ 16
  rootPathCost := stp.rootPathCost
  rootAddress := stp.rootAddress
  rootPriority := stp.rootPriority % 2 ^ 16
  portNum := interfaceId
  portPriority := port.priority
  messageAge := 0
  maxAge := stp.currentMaxAge

/-- The vector of a BPDU at the port that receives it. -/
def received (port : Ieee8021dInterfaceData) (bpdu : BpduCfg) : Ieee8021dInterfaceData :=
  { port with
    rootPriority := bpdu.rootPriority
    rootAddress := bpdu.rootAddress
    rootPathCost := addCost bpdu.rootPathCost port.linkCost
    bridgePriority := bpdu.bridgePriority
    bridgeAddress := bpdu.bridgeAddress
    portPriority := bpdu.portPriority
    portNum := bpdu.portNum }

def setSuperiorBPDU (port : Ieee8021dInterfaceData) (bpdu : BpduCfg) : Ieee8021dInterfaceData :=
  -- BPDU is out-of-date
  if bpdu.messageAge ≥ bpdu.maxAge then port
  else { received port bpdu with maxAge := bpdu.maxAge }

/-- Whether the port is not superior to the BPDU, and the port afterwards. -/
def isSuperiorBPDU (port : Ieee8021dInterfaceData) (bpdu : BpduCfg) :
    Bool × Ieee8021dInterfaceData :=
  if comparePorts port (received port bpdu) > 0 then (false, port)
  else (true, setSuperiorBPDU port bpdu)

/-! ### Election -/

def checkRootEligibility (stp : Stp) : Bool :=
  stp.ports.all fun port => decide
    (compareBridgeIDs port.rootPriority port.rootAddress stp.bridgePriority stp.bridgeAddress ≤ 0)

/-- The index and the data of the best port from an index on, or of the best one before it. -/
def bestPort : List Ieee8021dInterfaceData → Nat → Nat × Ieee8021dInterfaceData →
    Nat × Ieee8021dInterfaceData
  | [], _, best => best
  | currentPort :: rest, i, best =>
    let result := comparePorts currentPort best.2
    bestPort rest (i + 1) <|
      if result > 0 then (i, currentPort)
      else if result < 0 then best
      else if currentPort.priority < best.2.priority then (i, currentPort)
      else best

def setRole (role : PortRole) (port : Ieee8021dInterfaceData) : Ieee8021dInterfaceData :=
  { port with role }

def selectRootPort (stp : Stp) : Stp :=
  match stp.ports with
  | [] => stp
  | first :: rest =>
    let ports := (first :: rest).map (setRole .NOTASSIGNED)
    let best := bestPort (first :: rest) 0 (0, first)
    { stp with
      ports := ports.modify best.1 (setRole .ROOT)
      rootInterfaceId := best.1
      desPorts := []
      rootPathCost := best.2.rootPathCost
      rootAddress := best.2.rootAddress
      rootPriority := best.2.rootPriority
      currentMaxAge := best.2.maxAge }

/-- The vector that the bridge offers on a port, with the cost of the port's link. -/
def bridgeGlobal (stp : Stp) (interfaceId : Nat) (port : Ieee8021dInterfaceData) :
    Ieee8021dInterfaceData :=
  { port with
    bridgePriority := stp.bridgePriority
    bridgeAddress := stp.bridgeAddress
    rootAddress := stp.rootAddress
    rootPriority := stp.rootPriority
    portPriority := port.priority
    portNum := interfaceId
    rootPathCost := addCost stp.rootPathCost port.linkCost }

/-- The port is designated if the vector of the bridge is superior to the stored one. -/
def selectRole (stp : Stp) (interfaceId : Nat) (port : Ieee8021dInterfaceData) : PortRole :=
  if port.role = .ROOT ∨ port.role = .DISABLED then port.role
  else
    let result := comparePorts (stp.bridgeGlobal interfaceId port) port
    if result > 0 then .DESIGNATED
    else if result < 0 then .ALTERNATE
    else port.role

def selectDesignatedPorts (stp : Stp) : Stp :=
  { stp with
    ports := stp.ports.mapIdx fun i port => setRole (stp.selectRole i port) port
    desPorts := stp.ports.zipIdx.filterMap fun (port, i) =>
      if port.role ≠ .ROOT ∧ port.role ≠ .DISABLED ∧
        comparePorts (stp.bridgeGlobal i port) port > 0 then some i else none }

def setAllDesignated (stp : Stp) : Stp :=
  { stp with
    ports := stp.ports.map fun port =>
      if port.role = .DISABLED then port else setRole .DESIGNATED port
    desPorts := stp.ports.zipIdx.filterMap fun (port, i) =>
      if port.role = .DISABLED then none else some i }

def tryRoot (stp : Stp) : Stp :=
  if stp.checkRootEligibility then
    { stp.setAllDesignated with
      isRoot := true
      rootPriority := stp.bridgePriority
      rootAddress := stp.bridgeAddress
      rootPathCost := 0
      currentMaxAge := stp.maxAge }
  else ({ stp with isRoot := false }.selectRootPort).selectDesignatedPorts

/-- A BPDU that arrives on a port that exists. -/
def handleBPDU (stp : Stp) (arrivalGate : Nat) (bpdu : BpduCfg) : Stp :=
  { stp with ports := stp.ports.modify arrivalGate fun port => (isSuperiorBPDU port bpdu).2 }.tryRoot

/-- The vector a port stores before it has received one. -/
def initInterfacedata (stp : Stp) (port : Ieee8021dInterfaceData) : Ieee8021dInterfaceData :=
  { port with
    role := .NOTASSIGNED
    rootPriority := stp.bridgePriority
    rootAddress := stp.bridgeAddress
    rootPathCost := 0
    bridgePriority := stp.bridgePriority
    bridgeAddress := stp.bridgeAddress
    portPriority := 2 ^ 32 - 1
    portNum := 2 ^ 32 - 1 }

end Stp

end Inet.Ieee8021d

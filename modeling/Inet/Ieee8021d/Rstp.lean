import Inet.Ieee8021d.Stp

/-!
# A bridge of the rapid spanning tree protocol

The handlers of BPDUs, of the hello and upgrade timers and of carrier changes, as functions of the
bridge and of the time. The MAC address table, the topology change timers and the BPDUs that are
sent are left out: no role, state or timer depends on them. The interface at an index has that index
as its identifier, and the delays are not negative.
-/
namespace Inet.Ieee8021d

inductive PortState
  | DISCARDING | LEARNING | FORWARDING
  deriving DecidableEq

/-- What the bridge keeps about a port, and whether the port has a carrier. -/
structure RstpInterfaceData extends Ieee8021dInterfaceData where
  edge : Bool
  state : PortState
  age : Int
  lostBPDU : Nat
  nextUpgrade : Nat
  hasCarrier : Bool
  deriving DecidableEq

inductive CompareResult
  | WORSE_PORT | WORSE_SRC | WORSE_RPC | WORSE_ROOT | SIMILAR
  | BETTER_ROOT | BETTER_RPC | BETTER_SRC | BETTER_PORT
  deriving DecidableEq

def CompareResult.value : CompareResult → Int
  | WORSE_PORT => -4
  | WORSE_SRC => -3
  | WORSE_RPC => -2
  | WORSE_ROOT => -1
  | SIMILAR => 0
  | BETTER_ROOT => 1
  | BETTER_RPC => 2
  | BETTER_SRC => 3
  | BETTER_PORT => 4

def compareRSTPData (rootPriority1 rootPriority2 : Int) (rootAddress1 rootAddress2 : Nat)
    (rootPathCost1 rootPathCost2 : Int) (bridgePriority1 bridgePriority2 : Int)
    (bridgeAddress1 bridgeAddress2 : Nat) (portPriority1 portPriority2 : Int)
    (portNum1 portNum2 : Int) : CompareResult :=
  if rootPriority1 ≠ rootPriority2 then
    if rootPriority1 < rootPriority2 then .WORSE_ROOT else .BETTER_ROOT
  else if rootAddress1 ≠ rootAddress2 then
    if rootAddress1 < rootAddress2 then .WORSE_ROOT else .BETTER_ROOT
  else if rootPathCost1 ≠ rootPathCost2 then
    if rootPathCost1 < rootPathCost2 then .WORSE_RPC else .BETTER_RPC
  else if bridgePriority1 ≠ bridgePriority2 then
    if bridgePriority1 < bridgePriority2 then .WORSE_SRC else .BETTER_SRC
  else if bridgeAddress1 ≠ bridgeAddress2 then
    if bridgeAddress1 < bridgeAddress2 then .WORSE_SRC else .BETTER_SRC
  else if portPriority1 ≠ portPriority2 then
    if portPriority1 < portPriority2 then .WORSE_PORT else .BETTER_PORT
  else if portNum1 ≠ portNum2 then
    if portNum1 < portNum2 then .WORSE_PORT else .BETTER_PORT
  else .SIMILAR

/-- An `unsigned int` that is passed as an `int`. -/
def asInt (a : Nat) : Int := Int.bmod a (2 ^ 32)

structure Rstp (n : Nat) where
  bridgePriority : Nat
  bridgeAddress : Nat
  maxAge : Int
  forwardDelay : Nat
  migrateTime : Nat
  ports : Fin n → RstpInterfaceData
  /-- The time for which the upgrade timer is scheduled. -/
  upgradeTimer : Option Nat

namespace Rstp
variable {n : Nat}

def modify (s : Rstp n) (i : Fin n) (f : RstpInterfaceData → RstpInterfaceData) : Rstp n :=
  { s with ports := Function.update s.ports i (f (s.ports i)) }

/-! ### The upgrade timer -/

/-- The port waits for its next upgrade. -/
def waits (port : RstpInterfaceData) : Bool :=
  port.hasCarrier &&
    (port.role = .NOTASSIGNED ||
      port.role = .DESIGNATED && (port.state = .DISCARDING || port.state = .LEARNING))

def nextInterface (s : Rstp n) : Option (Fin n) :=
  ((List.finRange n).filter fun i => waits (s.ports i)).foldl (fun next i =>
    match next with
    | none => some i
    | some k => if (s.ports i).nextUpgrade < (s.ports k).nextUpgrade then some i else some k) none

def scheduleNextUpgrade (s : Rstp n) : Rstp n :=
  { s with upgradeTimer := s.nextInterface.map fun i => (s.ports i).nextUpgrade }

/-! ### Comparisons -/

def getRootInterfaceId (s : Rstp n) : Option (Fin n) :=
  (List.finRange n).find? fun i => (s.ports i).role = .ROOT

def compareInterfacedata (s : Rstp n) (interfaceId : Fin n) (msg : BpduCfg) (linkCost : Nat) :
    CompareResult :=
  let ifd := s.ports interfaceId
  compareRSTPData (asInt ifd.rootPriority) (asInt msg.rootPriority) ifd.rootAddress msg.rootAddress
    (asInt ifd.rootPathCost) (asInt (addCost msg.rootPathCost linkCost))
    (asInt ifd.bridgePriority) (asInt msg.bridgePriority) ifd.bridgeAddress msg.bridgeAddress
    (asInt ifd.portPriority) (asInt msg.portPriority) (asInt ifd.portNum) (asInt msg.portNum)

/-- What the bridge would send through a port against the best BPDU of that port. -/
def contestInterfacedata (s : Rstp n) (portNum : Fin n) : Except String CompareResult :=
  match s.getRootInterfaceId with
  | none => .error "getInterfaceById(): no interface with ID=-1"
  | some r =>
    let rootPort := s.ports r
    let ifd := s.ports portNum
    .ok (compareRSTPData (asInt rootPort.rootPriority) (asInt ifd.rootPriority)
      rootPort.rootAddress ifd.rootAddress
      (asInt (addCost rootPort.rootPathCost ifd.linkCost)) (asInt ifd.rootPathCost)
      (asInt s.bridgePriority) (asInt ifd.bridgePriority) s.bridgeAddress ifd.bridgeAddress
      (asInt ifd.portPriority) (asInt ifd.portPriority) (asInt portNum) (asInt ifd.portNum))

/-- What the bridge would send through a port against a BPDU. -/
def contestBpdu (s : Rstp n) (msg : BpduCfg) (interfaceId : Fin n) : Except String CompareResult :=
  match s.getRootInterfaceId with
  | none => .error "getInterfaceById(): no interface with ID=-1"
  | some r =>
    let rootPort := s.ports r
    let ifd := s.ports interfaceId
    .ok (compareRSTPData (asInt rootPort.rootPriority) (asInt msg.rootPriority)
      rootPort.rootAddress msg.rootAddress
      (asInt rootPort.rootPathCost) (asInt msg.rootPathCost)
      (asInt s.bridgePriority) (asInt msg.bridgePriority) s.bridgeAddress msg.bridgeAddress
      (asInt ifd.portPriority) (asInt msg.portPriority) (asInt interfaceId) (asInt msg.portNum))

def comparePorts (s : Rstp n) (j candidate : Fin n) : CompareResult :=
  let jPort := s.ports j
  let candidatePort := s.ports candidate
  compareRSTPData (asInt jPort.rootPriority) (asInt candidatePort.rootPriority)
    jPort.rootAddress candidatePort.rootAddress
    (asInt jPort.rootPathCost) (asInt candidatePort.rootPathCost)
    (asInt jPort.bridgePriority) (asInt candidatePort.bridgePriority)
    jPort.bridgeAddress candidatePort.bridgeAddress
    (asInt jPort.portPriority) (asInt candidatePort.portPriority)
    (asInt jPort.portNum) (asInt candidatePort.portNum)

def getBestAlternate (s : Rstp n) : Option (Fin n) :=
  ((List.finRange n).filter fun j => (s.ports j).role = .ALTERNATE).foldl (fun candidate j =>
    match candidate with
    | none => some j
    | some k => if (s.comparePorts j k).value < 0 then some j else some k) none

/-! ### Changes of a port -/

/-- A port that knows no better root than the bridge. -/
def initData (s : Rstp n) (ifd : RstpInterfaceData) : RstpInterfaceData :=
  { ifd with
    rootPriority := s.bridgePriority
    rootAddress := s.bridgeAddress
    rootPathCost := 0
    age := 0
    bridgePriority := s.bridgePriority
    bridgeAddress := s.bridgeAddress
    portPriority := 2 ^ 32 - 1
    portNum := 2 ^ 32 - 1
    lostBPDU := 0 }

def initInterfacedata (s : Rstp n) (interfaceId : Fin n) : Rstp n :=
  s.modify interfaceId s.initData

def updateInterfacedata (s : Rstp n) (frame : BpduCfg) (portNum : Fin n) : Rstp n :=
  s.modify portNum fun ifd =>
    { ifd with
      rootPriority := frame.rootPriority
      rootAddress := frame.rootAddress
      rootPathCost := addCost frame.rootPathCost ifd.linkCost
      age := frame.messageAge + 1
      bridgePriority := frame.bridgePriority
      bridgeAddress := frame.bridgeAddress
      portPriority := frame.portPriority
      portNum := frame.portNum
      lostBPDU := 0 }

def setRole (s : Rstp n) (i : Fin n) (role : PortRole) : Rstp n :=
  s.modify i fun port => { port with role }

def setRoleState (s : Rstp n) (i : Fin n) (role : PortRole) (state : PortState) : Rstp n :=
  s.modify i fun port => { port with role, state }

def setLostBPDU (s : Rstp n) (i : Fin n) (lostBPDU : Nat) : Rstp n :=
  s.modify i fun port => { port with lostBPDU }

/-- The port contends to become forwarding. -/
def setDesignated (s : Rstp n) (now : Nat) (i : Fin n) : Rstp n :=
  (s.modify i fun port =>
    { port with
      role := .DESIGNATED
      state := .DISCARDING
      nextUpgrade := now + s.forwardDelay }).scheduleNextUpgrade

/-! ### Timers -/

def upgradePort (s : Rstp n) (now : Nat) (port : RstpInterfaceData) : RstpInterfaceData :=
  if port.hasCarrier ∧ port.nextUpgrade = now then
    if port.role = .NOTASSIGNED then
      { port with
        role := .DESIGNATED
        state := .DISCARDING
        nextUpgrade := now + s.forwardDelay }
    else if port.role = .DESIGNATED then
      match port.state with
      | .DISCARDING => { port with state := .LEARNING, nextUpgrade := now + s.forwardDelay }
      | .LEARNING => { port with state := .FORWARDING }
      | .FORWARDING => port
    else port
  else port

def handleUpgrade (s : Rstp n) (now : Nat) : Rstp n :=
  { s with ports := fun i => s.upgradePort now (s.ports i) }.scheduleNextUpgrade

def initPort (s : Rstp n) (now : Nat) (port : RstpInterfaceData) : RstpInterfaceData :=
  if port.edge then { port with role := .DESIGNATED, state := .FORWARDING }
  else
    { port with
      role := .NOTASSIGNED
      state := .DISCARDING
      nextUpgrade := now + s.migrateTime }

def initPorts (s : Rstp n) (now : Nat) : Rstp n :=
  { s with ports := fun j => s.initData (s.initPort now (s.ports j)) }.scheduleNextUpgrade

/-- The fourth hello time without the best BPDU of a port. -/
def expirePort (s : Rstp n) (now : Nat) (i : Fin n) : Rstp n :=
  if (s.ports i).role = .ROOT then
    match s.getBestAlternate with
    | some candidate =>
      ((((s.setDesignated now i).initInterfacedata i).setRoleState candidate
        .ROOT .FORWARDING).setLostBPDU candidate 0).setLostBPDU i 0
    | none => (s.initPorts now).setLostBPDU i 0
  else ((s.setDesignated now i).initInterfacedata i).setLostBPDU i 0

def helloPort (s : Rstp n) (now : Nat) (i : Fin n) : Rstp n :=
  let port := s.ports i
  if ¬ port.edge ∧ (port.role = .ROOT ∨ port.role = .ALTERNATE ∨ port.role = .BACKUP) then
    let s := s.setLostBPDU i (port.lostBPDU + 1)
    if (s.ports i).lostBPDU > 3 then s.expirePort now i else s
  else s

def handleHelloTime (s : Rstp n) (now : Nat) : Rstp n :=
  (List.finRange n).foldl (fun s i => s.helloPort now i) s

/-! ### BPDUs -/

/-- A BPDU of the bridge itself. -/
def handleBackup (s : Rstp n) (frame : BpduCfg) (arrivalInterfaceId : Fin n) :
    Except String (Rstp n) :=
  let port := s.ports arrivalInterfaceId
  if frame.portPriority < port.portPriority ∨
      frame.portPriority = port.portPriority ∧ frame.portNum < arrivalInterfaceId then
    .ok ((s.setRoleState arrivalInterfaceId .BACKUP .DISCARDING).setLostBPDU arrivalInterfaceId 0)
  else if inside : frame.portNum < n then
    if frame.portPriority > port.portPriority ∨
        frame.portPriority = port.portPriority ∧ frame.portNum > arrivalInterfaceId then
      .ok ((s.setRoleState ⟨frame.portNum, inside⟩ .BACKUP .DISCARDING).setLostBPDU
        ⟨frame.portNum, inside⟩ 0)
    else
      -- the port has received its own message
      .ok (s.setRoleState ⟨frame.portNum, inside⟩ .DISABLED .DISCARDING)
  else .error s!"getInterfaceById(): no interface with ID={frame.portNum}"

def resetPort (s : Rstp n) (now : Nat) (i : Fin n) : Rstp n :=
  ((s.modify i fun port =>
    { port with
      role := .NOTASSIGNED
      state := .DISCARDING
      nextUpgrade := now + s.migrateTime }).scheduleNextUpgrade).initInterfacedata i

/-- Every port but the one that has received a better root starts again; clients do not. -/
def resetOthers (s : Rstp n) (now : Nat) (arrivalInterfaceId : Fin n) : Rstp n :=
  (List.finRange n).foldl (fun s i =>
    if ¬ (s.ports i).edge ∧ i ≠ arrivalInterfaceId then s.resetPort now i else s) s

/-- The arrival port becomes the root port, and the root port an alternate for the time of the
contest. -/
def takeOver (s : Rstp n) (arrivalInterfaceId r : Fin n) : Rstp n :=
  ((s.setRoleState arrivalInterfaceId .ROOT .FORWARDING).setLostBPDU arrivalInterfaceId 0).setRole
    r .ALTERNATE

/-- The comparison of the root port with a BPDU that the arrival port has stored decides. -/
def challenge (s : Rstp n) (now : Nat) (frame : BpduCfg) (arrivalInterfaceId r : Fin n) :
    CompareResult → Except String (Rstp n)
  | .SIMILAR =>
    -- double link to the same port of the root source
    if (s.ports r).portPriority < (s.ports arrivalInterfaceId).portPriority ∨
        (s.ports r).portPriority = (s.ports arrivalInterfaceId).portPriority ∧
          r < arrivalInterfaceId then
      .ok ((s.setRoleState arrivalInterfaceId .ALTERNATE .DISCARDING).setLostBPDU
        arrivalInterfaceId 0)
    else
      .ok (((s.setRoleState r .ALTERNATE .DISCARDING).setRoleState arrivalInterfaceId
        .ROOT .FORWARDING).setLostBPDU arrivalInterfaceId 0)
  | .BETTER_ROOT =>
    .ok (((s.resetOthers now arrivalInterfaceId).setRoleState arrivalInterfaceId
      .ROOT .FORWARDING).setLostBPDU arrivalInterfaceId 0)
  | .BETTER_RPC | .BETTER_SRC | .BETTER_PORT =>
    match (s.takeOver arrivalInterfaceId r).contestInterfacedata r with
    | .error e => .error e
    | .ok case3 =>
      if case3.value ≥ 0 then
        .ok ((s.takeOver arrivalInterfaceId r).setRoleState r .ALTERNATE .DISCARDING)
      else .ok ((s.takeOver arrivalInterfaceId r).setDesignated now r)
  | .WORSE_ROOT => .ok s
  | .WORSE_RPC | .WORSE_SRC | .WORSE_PORT =>
    match s.contestBpdu frame arrivalInterfaceId with
    | .error e => .error e
    | .ok case3 =>
      if case3.value < 0 then .ok (s.setDesignated now arrivalInterfaceId)
      else
        .ok ((s.setRoleState arrivalInterfaceId .ALTERNATE .DISCARDING).setLostBPDU
          arrivalInterfaceId 0)

/-- The arrival port, that has stored the BPDU, challenges the root port. -/
def challengeRoot (s : Rstp n) (now : Nat) (frame : BpduCfg) (arrivalInterfaceId : Fin n) :
    Except String (Rstp n) :=
  match s.getRootInterfaceId with
  | none =>
    .ok ((s.setRoleState arrivalInterfaceId .ROOT .FORWARDING).setLostBPDU arrivalInterfaceId 0)
  | some r =>
    s.challenge now frame arrivalInterfaceId r
      (s.compareInterfacedata r frame (s.ports arrivalInterfaceId).linkCost)

def processBetterSource (s : Rstp n) (now : Nat) (frame : BpduCfg) (arrivalInterfaceId : Fin n) :
    Except String (Rstp n) :=
  (s.updateInterfacedata frame arrivalInterfaceId).challengeRoot now frame arrivalInterfaceId

/-- All ports have started again. The arrival port stays the root port if the bridge is not
better. -/
def keepRoot (s : Rstp n) (frame : BpduCfg) (arrivalInterfaceId : Fin n) : Rstp n :=
  if (s.compareInterfacedata arrivalInterfaceId frame (s.ports arrivalInterfaceId).linkCost).value >
      0 then
    (s.updateInterfacedata frame arrivalInterfaceId).setRoleState arrivalInterfaceId
      .ROOT .FORWARDING
  else s

/-- The source of a port's best BPDU has announced a worse root. -/
def processWorseRoot (s : Rstp n) (now : Nat) (frame : BpduCfg) (arrivalInterfaceId : Fin n) :
    Rstp n :=
  if (s.ports arrivalInterfaceId).role = .ROOT then
    match s.getBestAlternate with
    | some alternative =>
      ((s.setDesignated now arrivalInterfaceId).setRoleState alternative
        .ROOT .FORWARDING).updateInterfacedata frame arrivalInterfaceId
    | none => (s.initPorts now).keepRoot frame arrivalInterfaceId
  else if (s.ports arrivalInterfaceId).role = .ALTERNATE then
    (s.setDesignated now arrivalInterfaceId).updateInterfacedata frame arrivalInterfaceId
  else s

/-- The alternative has become the root port; the old root port is designated for the time of the
contest. -/
def giveWay (s : Rstp n) (now : Nat) (frame : BpduCfg) (arrivalInterfaceId : Fin n) :
    Except String (Rstp n) :=
  match s.contestBpdu frame arrivalInterfaceId with
  | .error e => .error e
  | .ok case3 =>
    if case3.value < 0 then
      .ok ((s.setDesignated now arrivalInterfaceId).updateInterfacedata frame arrivalInterfaceId)
    else
      .ok ((s.setRoleState arrivalInterfaceId .ALTERNATE .DISCARDING).updateInterfacedata frame
        arrivalInterfaceId)

/-- The source of a port's best BPDU has announced a worse route to the root. -/
def processWorseRoute (s : Rstp n) (now : Nat) (frame : BpduCfg) (arrivalInterfaceId : Fin n) :
    Except String (Rstp n) :=
  if (s.ports arrivalInterfaceId).role = .ROOT then
    match s.getBestAlternate with
    | some alternative =>
      if (s.compareInterfacedata alternative frame (s.ports arrivalInterfaceId).linkCost).value <
          0 then
        (((s.setLostBPDU arrivalInterfaceId 0).setRoleState alternative .ROOT .FORWARDING).setRole
          arrivalInterfaceId .DESIGNATED).giveWay now frame arrivalInterfaceId
      else .ok (s.updateInterfacedata frame arrivalInterfaceId)
    | none => .ok (s.updateInterfacedata frame arrivalInterfaceId)
  else if (s.ports arrivalInterfaceId).role = .ALTERNATE then
    match s.contestBpdu frame arrivalInterfaceId with
    | .error e => .error e
    | .ok case2 =>
      if case2.value < 0 then
        .ok ((s.setDesignated now arrivalInterfaceId).updateInterfacedata frame arrivalInterfaceId)
      else
        .ok ((s.setLostBPDU arrivalInterfaceId 0).updateInterfacedata frame arrivalInterfaceId)
  else .ok (s.updateInterfacedata frame arrivalInterfaceId)

/-- The comparison of a port's best BPDU with one from the same source decides. -/
def updateSource (s : Rstp n) (now : Nat) (frame : BpduCfg) (arrivalInterfaceId : Fin n) :
    CompareResult → Except String (Rstp n)
  | .SIMILAR => .ok (s.setLostBPDU arrivalInterfaceId 0)
  | .WORSE_ROOT => .ok (s.processWorseRoot now frame arrivalInterfaceId)
  | .WORSE_RPC | .WORSE_SRC | .WORSE_PORT => s.processWorseRoute now frame arrivalInterfaceId
  | _ => .ok s

def processSameSource (s : Rstp n) (now : Nat) (frame : BpduCfg) (arrivalInterfaceId : Fin n) :
    Except String (Rstp n) :=
  s.updateSource now frame arrivalInterfaceId
    (s.compareInterfacedata arrivalInterfaceId frame (s.ports arrivalInterfaceId).linkCost)

def processBPDU (s : Rstp n) (now : Nat) (frame : BpduCfg) (arrivalInterfaceId : Fin n) :
    Except String (Rstp n) :=
  if (s.compareInterfacedata arrivalInterfaceId frame (s.ports arrivalInterfaceId).linkCost).value >
      0 ∧ frame.rootAddress ≠ s.bridgeAddress then
    s.processBetterSource now frame arrivalInterfaceId
  else if frame.bridgeAddress = (s.ports arrivalInterfaceId).bridgeAddress ∧
      frame.rootAddress ≠ s.bridgeAddress then
    s.processSameSource now frame arrivalInterfaceId
  else .ok s

def handleIncomingFrame (s : Rstp n) (now : Nat) (src : Nat) (frame : BpduCfg)
    (arrivalInterfaceId : Fin n) : Except String (Rstp n) :=
  if frame.messageAge < s.maxAge then
    if src = s.bridgeAddress then s.handleBackup frame arrivalInterfaceId
    else s.processBPDU now frame arrivalInterfaceId
  else .ok s

/-! ### Carrier -/

def receiveSignal (s : Rstp n) (now : Nat) (i : Fin n) (hasCarrier : Bool) : Rstp n :=
  let s := s.modify i fun port => { port with hasCarrier }
  if hasCarrier then
    (s.modify i fun port =>
      if port.role = .NOTASSIGNED then { port with nextUpgrade := now + s.migrateTime }
      else if port.role = .DESIGNATED ∧ (port.state = .DISCARDING ∨ port.state = .LEARNING) then
        { port with nextUpgrade := now + s.forwardDelay }
      else port).scheduleNextUpgrade
  else s

/-! ### Events -/

inductive Event (n : Nat)
  | bpdu (src : Nat) (frame : BpduCfg) (arrivalInterfaceId : Fin n)
  | hello
  | upgrade
  | carrier (i : Fin n) (hasCarrier : Bool)

def step (s : Rstp n) (now : Nat) : Event n → Except String (Rstp n)
  | .bpdu src frame i => s.handleIncomingFrame now src frame i
  | .hello => .ok (s.handleHelloTime now)
  | .upgrade => .ok (s.handleUpgrade now)
  | .carrier i hasCarrier => .ok (s.receiveSignal now i hasCarrier)

end Rstp

end Inet.Ieee8021d

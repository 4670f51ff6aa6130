import Inet.Ipv4.RoutingTableRuns

/-!
# What a throw leaves of the routing table

The functions of the table as programs that change it step by step. A route that is added is checked
before anything is changed. A route that is changed is taken out first and checked then.
-/
namespace Inet.Ipv4

open Lib Throwing

variable {route : Ipv4Route}

/-! ### The programs -/

namespace RoutingProgram

/-- Programs of the routing table. -/
abbrev Program := Throwing String Ipv4RoutingTable

def deleteRoute (entry : RouteId) : Program Bool := do
  match (← get).internalRemoveRoute entry with
  | none => return false
  | some table =>
    set table
    let _ ← reading (·.removed entry)
    modify (·.store entry none)
    return true

def replaceDefaultRoute (route : Ipv4Route) : Program Unit := do
  if route.netmask.isUnspecified then
    match ← reading (·.getDefaultRoute) with
    | none => return
    | some oldDefaultRoute => let _ ← deleteRoute oldDefaultRoute

/-- The place is found before anything is changed. -/
def insertRoute (entry : RouteId) : Program Unit := do
  set (← reading (·.insertRoute entry))

def internalAddRoute (entry : RouteId) : Program Unit := do
  let route ← reading (·.deref entry)
  reading fun _ => route.check
  replaceDefaultRoute route
  insertRoute entry

def addRoute (entry : RouteId) : Program Unit := internalAddRoute entry

def routeChanged (entry : RouteId) (fieldCode : ChangeCodes) : Program Unit := do
  if fieldCode = .F_DESTINATION ∨ fieldCode = .F_PREFIX_LENGTH ∨ fieldCode = .F_METRIC then
    match (← get).internalRemoveRoute entry with
    | none => throw "ASSERT(entry != nullptr)"
    | some table =>
      set table
      internalAddRoute entry

def change (entry : RouteId) (setter : Ipv4Route → Ipv4Route.Changed) : Program Unit := do
  let route ← reading (·.deref entry)
  modify (·.store entry (some (setter route).1))
  match (setter route).2 with
  | none => return
  | some fieldCode => if (setter route).1.rt then routeChanged entry fieldCode

/-! ### They do what the functions do -/

variable {entry : RouteId}

end RoutingProgram

/-! ### Throws -/

/-- The calls that the table checks a route in. -/
inductive RouteCall
  | addRoute (entry : RouteId)
  | change (entry : RouteId) (field : FieldChange)

namespace RouteCall

def program : RouteCall → RoutingProgram.Program Unit
  | .addRoute entry => RoutingProgram.addRoute entry
  | .change entry field => RoutingProgram.change entry field.setter

/-- The route that is checked, as it is then. -/
def checked (table : Ipv4RoutingTable) : RouteCall → Option Ipv4Route
  | .addRoute entry => table.heap entry
  | .change entry field => (table.heap entry).map fun route => (field.setter route).1

end RouteCall

namespace Ipv4RoutingTable

/-- The route fails a check, and the call throws the error of it. -/
def Rejects (table : Ipv4RoutingTable) (call : RouteCall) (left : Ipv4RoutingTable) : Prop :=
  ∃ route error, call.checked table = some route ∧ route.check = .error error ∧
    attempt call.program table = (.error error, left)

/-- The answer of a lookup. -/
def answer (table : Ipv4RoutingTable) (dest : Ipv4Address) : Except String (Option RouteId) :=
  (table.findBestMatchingRoute dest).map (·.1)

/-- The routes, their order and the answers are the same. -/
structure Unaltered (table left : Ipv4RoutingTable) : Prop where
  routes : left.routes = table.routes
  answers : ∀ dest, left.answer dest = table.answer dest

/-- A call that throws leaves the table as it was. -/
def Atomic (table : Ipv4RoutingTable) (call : RouteCall) : Prop :=
  ∀ left, table.Rejects call left → table.Unaltered left

end Ipv4RoutingTable

/-- The netmask is one, the destination has bits inside it unless it is zero and none outside it,
and there is an interface. -/
structure Ipv4Route.Addable (route : Ipv4Route) : Prop where
  netmask : route.netmask.isValidNetmask = true
  inside : route.netmask ≠ 0 → route.dest &&& route.netmask ≠ 0
  outside : route.dest &&& ~~~route.netmask = 0
  interfacePtr : route.interfacePtr ≠ none

/-- The field is one by which the routes are sorted. -/
def FieldChange.Sorts : FieldChange → Prop
  | .destination _ | .netmask _ | .metric _ => True
  | _ => False

/-- The call adds a route, or changes one that is not in the table, or a field by which the routes
are not sorted, or one that has the value already, or the route may be added with the new value. -/
def RouteCall.Safe (table : Ipv4RoutingTable) : RouteCall → Prop
  | .addRoute _ => True
  | .change entry field => ∀ route, table.heap entry = some route → route.rt = true →
    entry ∈ table.routes → field.Sorts → (field.setter route).1 ≠ route →
    (field.setter route).1.Addable

theorem Ipv4Route.check_eq_ok : route.check = .ok () ↔ route.Addable := by
  unfold Ipv4Route.check
  constructor
  · intro passed
    split at passed
    · cases passed
    · split at passed
      · cases passed
      · split at passed
        · cases passed
        · split at passed
          · cases passed
          next netmask inside outside interfacePtr =>
            refine ⟨?_, ?_, ?_, interfacePtr⟩
            · simpa using netmask
            · simpa using inside
            · simpa using outside
  · rintro ⟨netmask, inside, outside, interfacePtr⟩
    have nonzero : (route.netmask != 0 && route.dest &&& route.netmask == 0) = false := by
      simpa using inside
    rw [if_neg (by simp [netmask]), if_neg (ne_true_of_eq_false nonzero),
      if_neg (by simp [outside]), if_neg interfacePtr]

theorem head?_append_of_eq {text rest : String} {first : Char}
    (starts : text.toList.head? = some first) : (text ++ rest).toList.head? = some first := by
  rw [String.toList_append, List.head?_append, starts]
  rfl

/-- The texts of the checks start with the name of the function. -/
theorem Ipv4Route.head?_of_check {error : String}
    (failed : route.check = .error error) : error.toList.head? = some 'a' := by
  unfold Ipv4Route.check at failed
  split at failed
  · cases failed
    exact head?_append_of_eq (head?_append_of_eq (by decide +kernel))
  · split at failed
    · cases failed
      exact head?_append_of_eq (head?_append_of_eq (head?_append_of_eq (by decide +kernel)))
    · split at failed
      · cases failed
        exact head?_append_of_eq (head?_append_of_eq (head?_append_of_eq (by decide +kernel)))
      · split at failed
        · cases failed
          decide +kernel
        · cases failed

/-- The field has been changed, and the table is told so. -/
structure Tells (route : Ipv4Route) (changed : Ipv4Route.Changed) (sorts : Prop)
    (fieldCode : ChangeCodes) : Prop where
  told : changed.2 = some fieldCode
  other : changed.1 ≠ route
  rt : changed.1.rt = route.rt
  sorts : (fieldCode = .F_DESTINATION ∨ fieldCode = .F_PREFIX_LENGTH ∨ fieldCode = .F_METRIC) ↔ sorts

theorem setField_tells {α : Type} [DecidableEq α] (get : Ipv4Route → α)
    (put : α → Ipv4Route → Ipv4Route) {fieldCode : ChangeCodes} {value : α}
    {sorts : Prop} (written : get (put value route) = value) (kept : (put value route).rt = route.rt)
    (sorted : (fieldCode = .F_DESTINATION ∨ fieldCode = .F_PREFIX_LENGTH ∨ fieldCode = .F_METRIC) ↔
      sorts) :
    Ipv4Route.setField get put fieldCode value route = (route, none) ∨
      ∃ fieldCode', Tells route (Ipv4Route.setField get put fieldCode value route) sorts
        fieldCode' := by
  unfold Ipv4Route.setField
  split
  next other =>
    refine .inr ⟨fieldCode, rfl, fun same => other ?_, kept, sorted⟩
    rw [← written, show put value route = route from same]
  next => exact .inl rfl

theorem FieldChange.setter_cases (field : FieldChange) (route : Ipv4Route) :
    field.setter route = (route, none) ∨
      ∃ fieldCode, Tells route (field.setter route) field.Sorts fieldCode := by
  cases field with
  | destination dest =>
    refine setField_tells (·.dest) (fun dest route => { route with dest }) rfl rfl ?_
    simp [Sorts]
  | netmask netmask =>
    refine setField_tells (·.netmask) (fun netmask route => { route with netmask }) rfl rfl ?_
    simp [Sorts]
  | gateway gateway =>
    refine setField_tells (·.gateway) (fun gateway route => { route with gateway }) rfl rfl ?_
    simp [Sorts]
  | interface interfacePtr =>
    refine setField_tells (·.interfacePtr)
      (fun interfacePtr route => { route with interfacePtr }) rfl rfl ?_
    simp [Sorts]
  | sourceType sourceType =>
    refine setField_tells (·.sourceType)
      (fun sourceType route => { route with sourceType }) rfl rfl ?_
    simp [Sorts]
  | adminDist adminDist =>
    refine setField_tells (·.adminDist) (fun adminDist route => { route with adminDist }) rfl rfl ?_
    simp [Sorts]
  | metric metric =>
    refine setField_tells (·.metric) (fun metric route => { route with metric }) rfl rfl ?_
    simp [Sorts]
  | source source =>
    refine setField_tells (·.source) (fun source route => { route with source }) rfl rfl ?_
    simp [Sorts]

/-! ### Which calls are atomic -/

namespace Ipv4RoutingTable

variable {table left : Ipv4RoutingTable} {entry : RouteId} {route : Ipv4Route} {error : String}

/-- The check of a route that is added comes before all changes. -/
theorem attempt_internalAddRoute (found : table.heap entry = some route)
    (failed : route.check = .error error) :
    attempt (RoutingProgram.internalAddRoute entry) table = (.error error, table) := by
  unfold RoutingProgram.internalAddRoute
  have read : attempt (reading (·.deref entry)) table = (.ok route, table) := by
    rw [attempt_reading, deref_eq_ok.mpr found]
  rw [attempt_bind_ok read]
  refine attempt_bind_error ?_
  rw [attempt_reading, failed]

/-- The part of a change that the table has to do with. -/
theorem attempt_change {setter : Ipv4Route → Ipv4Route.Changed}
    (found : table.heap entry = some route) :
    attempt (RoutingProgram.change entry setter) table =
      attempt (match (setter route).2 with
        | none => pure ()
        | some fieldCode =>
          if (setter route).1.rt then RoutingProgram.routeChanged entry fieldCode else pure ())
        (table.store entry (some (setter route).1)) := by
  unfold RoutingProgram.change
  have read : attempt (reading (·.deref entry)) table = (.ok route, table) := by
    rw [attempt_reading, deref_eq_ok.mpr found]
  rw [attempt_bind_ok read]
  cases (setter route).2 with
  | none => rfl
  | some fieldCode => rfl

theorem attempt_routeChanged {fieldCode : ChangeCodes}
    (sorts : fieldCode = .F_DESTINATION ∨ fieldCode = .F_PREFIX_LENGTH ∨ fieldCode = .F_METRIC) :
    attempt (RoutingProgram.routeChanged entry fieldCode) table =
      if entry ∈ table.routes then
        attempt (RoutingProgram.internalAddRoute entry) (table.erase entry)
      else (.error "ASSERT(entry != nullptr)", table) := by
  unfold RoutingProgram.routeChanged
  rw [if_pos sorts]
  show attempt (match table.internalRemoveRoute entry with
    | none => _
    | some table => _) table = _
  rcases table.internalRemoveRoute_cases entry with ⟨outside, removal⟩ | ⟨member, removal⟩
  · rw [removal, if_neg outside]
    rfl
  · rw [removal, if_pos member]
    rfl

/-- A route of the table that is changed and then fails a check is lost. -/
theorem Rejects.lost {field : FieldChange} (rejected : table.Rejects (.change entry field) left) :
    ∃ route, table.heap entry = some route ∧ route.rt = true ∧ entry ∈ table.routes ∧
      field.Sorts ∧ (field.setter route).1 ≠ route ∧
      left = (table.store entry (some (field.setter route).1)).erase entry := by
  obtain ⟨changed, error, checked, failed, thrown⟩ := rejected
  obtain ⟨route, found, rfl⟩ := Option.map_eq_some_iff.mp checked
  refine ⟨route, found, ?_⟩
  rw [RouteCall.program, attempt_change found] at thrown
  rcases field.setter_cases route with same | ⟨fieldCode, tells⟩
  · rw [same] at thrown
    cases thrown
  · simp only [tells.told, tells.rt] at thrown
    split at thrown
    next inTable =>
      by_cases sorts : fieldCode = .F_DESTINATION ∨ fieldCode = .F_PREFIX_LENGTH ∨
          fieldCode = .F_METRIC
      · rw [attempt_routeChanged sorts] at thrown
        split at thrown
        next member =>
          have stored : ((table.store entry (some (field.setter route).1)).erase entry).heap entry =
              some (field.setter route).1 := store_heap_same _
          rw [attempt_internalAddRoute stored failed] at thrown
          cases thrown
          exact ⟨inTable, member, tells.sorts.mp sorts, tells.other, rfl⟩
        next =>
          cases thrown
          cases Ipv4Route.head?_of_check failed
      · rw [RoutingProgram.routeChanged, if_neg sorts] at thrown
        cases thrown
    next => cases thrown

/-- A change that is not safe loses the route. -/
theorem rejects_of_lost {field : FieldChange} (found : table.heap entry = some route)
    (inTable : route.rt = true) (member : entry ∈ table.routes) (sorts : field.Sorts)
    (other : (field.setter route).1 ≠ route) (failed : (field.setter route).1.check = .error error) :
    table.Rejects (.change entry field)
      ((table.store entry (some (field.setter route).1)).erase entry) := by
  refine ⟨(field.setter route).1, error, ?_, failed, ?_⟩
  · rw [RouteCall.checked, found]
    rfl
  · rw [RouteCall.program, attempt_change found]
    rcases field.setter_cases route with same | ⟨fieldCode, tells⟩
    · exact absurd (congrArg Prod.fst same) other
    · simp only [tells.told, tells.rt, inTable, if_true]
      rw [attempt_routeChanged (tells.sorts.mpr sorts)]
      refine (if_pos member).trans (attempt_internalAddRoute ?_ failed)
      exact store_heap_same _

/-- A call leaves the table as it was when it throws if and only if it is safe. -/
theorem atomic_iff_safe (table : Ipv4RoutingTable) (call : RouteCall) :
    table.Atomic call ↔ call.Safe table := by
  cases call with
  | addRoute entry =>
    refine iff_of_true ?_ trivial
    rintro left ⟨route, error, found, failed, thrown⟩
    rw [RouteCall.program, RoutingProgram.addRoute, attempt_internalAddRoute found failed] at thrown
    cases thrown
    exact ⟨rfl, fun _ => rfl⟩
  | change entry field =>
    constructor
    · intro atomic route found inTable member sorts other
      by_contra unfit
      cases checked : (field.setter route).1.check with
      | ok _ => exact unfit (Ipv4Route.check_eq_ok.mp checked)
      | error e =>
        have lost := atomic _ (rejects_of_lost found inTable member sorts other checked)
        -- One route fewer is in the list.
        have fewer := congrArg List.length lost.routes
        have shorter := List.length_erase_of_mem member
        have some := List.length_pos_of_mem member
        change (table.routes.erase entry).length = _ at fewer
        omega
    · intro safe left rejected
      obtain ⟨route, found, inTable, member, sorts, other, _⟩ := rejected.lost
      obtain ⟨changed, error, checked, failed, _⟩ := rejected
      rw [RouteCall.checked, found] at checked
      cases checked
      rw [Ipv4Route.check_eq_ok.mpr (safe route found inTable member sorts other)] at failed
      cases failed

/-- The route to 10.0.0.0/8 is to become one to 10.1.0.0/16, and its destination is set first. -/
theorem not_atomic_renumbered : ∃ table, Reached false table ∧
    ¬ table.Atomic (.change 0 (.destination 0x0a010000#32)) ∧
    ∃ left, table.Rejects (.change 0 (.destination 0x0a010000#32)) left ∧
      table.answer 0x0a010001#32 = .ok (some 0) ∧ left.answer 0x0a010001#32 = .ok none := by
  have made := Reached.call (.newRoute 0) (.start : Reached false _) trivial rfl
  have named := made.call (.change 0 (.destination 0x0a000000#32)) trivial rfl
  have masked := named.call (.change 0 (.netmask 0xff000000#32)) trivial rfl
  have bound := masked.call (.change 0 (.interface (some 1))) trivial rfl
  have added := bound.call (.addRoute 0) List.not_mem_nil rfl
  refine ⟨_, added, fun atomic => ?_, _, ⟨_, _, rfl, rfl, rfl⟩, rfl, rfl⟩
  have lost := atomic _ ⟨_, _, rfl, rfl, rfl⟩
  cases lost.routes

end Ipv4RoutingTable

end Inet.Ipv4

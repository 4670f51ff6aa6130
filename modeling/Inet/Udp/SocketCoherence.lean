import Inet.Udp.SocketTables

/-!
# The tables of UDP sockets agree

In every run the list of a port has the sockets of that port, each once. Only a `bind` of a socket
that is there can leave an empty list behind, or a mark that the socket has nothing but a port.
-/
namespace Inet.Udp.Tables

open Lib

variable {A : Type} {state next : State A} {sockId : Int} {sd : SockDesc A}
variable (port other : Int) (list : Option (List Int)) {localPort : Int} {localAddr : L3Address A}
  {sd' : SockDesc A} {searchUntil : Nat}

/-! ### Ephemeral ports -/

def IsEphemeral (port : Nat) : Prop :=
  EPHEMERAL_PORTRANGE_START ≤ port ∧ port < EPHEMERAL_PORTRANGE_END

/-- How many ports come before the last one that is tried. -/
def portsToGo (searchUntil port : Nat) : Nat :=
  if port ≤ searchUntil then searchUntil - port
  else EPHEMERAL_PORTRANGE_END - EPHEMERAL_PORTRANGE_START - (port - searchUntil)

theorem nextEphemeralPort_cases (port : Nat) :
    port + 1 = 5000 ∧ nextEphemeralPort port = 1024 ∨
      port + 1 ≠ 5000 ∧ nextEphemeralPort port = port + 1 := by
  by_cases wraps : port + 1 = 5000
  · exact .inl ⟨wraps, if_pos wraps⟩
  · exact .inr ⟨wraps, if_neg wraps⟩

theorem portsToGo_cases (searchUntil port : Nat) :
    port ≤ searchUntil ∧ portsToGo searchUntil port = searchUntil - port ∨
      searchUntil < port ∧ portsToGo searchUntil port = 3976 - (port - searchUntil) := by
  by_cases before : port ≤ searchUntil
  · exact .inl ⟨before, if_pos before⟩
  · exact .inr ⟨Nat.lt_of_not_le before, if_neg before⟩

theorem nextEphemeralPort_range {port : Nat} (inRange : IsEphemeral port) :
    IsEphemeral (nextEphemeralPort port) := by
  simp only [IsEphemeral, EPHEMERAL_PORTRANGE_START, EPHEMERAL_PORTRANGE_END] at *
  have := nextEphemeralPort_cases port
  omega

/-- Each port that is tried is closer to the last one. -/
theorem portsToGo_next {port : Nat} (inRange : IsEphemeral port)
    (last : IsEphemeral searchUntil) (different : port ≠ searchUntil) :
    portsToGo searchUntil (nextEphemeralPort port) + 1 = portsToGo searchUntil port := by
  simp only [IsEphemeral, EPHEMERAL_PORTRANGE_START, EPHEMERAL_PORTRANGE_END] at *
  have := nextEphemeralPort_cases port
  have := portsToGo_cases searchUntil port
  have := portsToGo_cases searchUntil (nextEphemeralPort port)
  omega

/-- The search begins as far from the last port as a port can be. -/
theorem portsToGo_first {other : Nat} (last : IsEphemeral searchUntil) (range : IsEphemeral other) :
    portsToGo searchUntil other ≤ portsToGo searchUntil (nextEphemeralPort searchUntil) ∧
      portsToGo searchUntil (nextEphemeralPort searchUntil) < 3976 := by
  simp only [IsEphemeral, EPHEMERAL_PORTRANGE_START, EPHEMERAL_PORTRANGE_END] at *
  have := nextEphemeralPort_cases searchUntil
  have := portsToGo_cases searchUntil other
  have := portsToGo_cases searchUntil (nextEphemeralPort searchUntil)
  omega

theorem portsToGo_injective {port other : Nat} (inRange : IsEphemeral port)
    (last : IsEphemeral searchUntil) (range : IsEphemeral other)
    (same : portsToGo searchUntil port = portsToGo searchUntil other) : port = other := by
  simp only [IsEphemeral, EPHEMERAL_PORTRANGE_START, EPHEMERAL_PORTRANGE_END] at *
  have := portsToGo_cases searchUntil port
  have := portsToGo_cases searchUntil other
  omega

/-- The search ends at a port without a list, or when all ports have one. -/
theorem searchEphemeralPort_spec (state : State A) {rounds port : Nat} (last : IsEphemeral searchUntil)
    (inRange : IsEphemeral port) (enough : portsToGo searchUntil port < rounds) :
    ∃ result, searchEphemeralPort state searchUntil rounds port = some result ∧
      match result with
      | .ok found => IsEphemeral found ∧ state.socketsByPortMap found = none
      | .error _ => ∀ other : Nat, IsEphemeral other →
        portsToGo searchUntil other ≤ portsToGo searchUntil port →
          (state.socketsByPortMap other).isSome = true := by
  induction rounds generalizing port with
  | zero => omega
  | succ rounds ih =>
    simp only [searchEphemeralPort]
    split
    · next used =>
      split
      · next same =>
        refine ⟨_, rfl, fun other range before => ?_⟩
        subst same
        have zero : portsToGo port port = 0 := by simp [portsToGo]
        have : portsToGo port other = portsToGo port port := by omega
        rwa [portsToGo_injective range last inRange this]
      · next different =>
        have closer := portsToGo_next inRange last different
        obtain ⟨result, ended, spec⟩ := ih (nextEphemeralPort_range inRange) (by omega)
        refine ⟨result, ended, ?_⟩
        cases result with
        | ok found => exact spec
        | error text =>
          intro other range' before
          by_cases here : portsToGo searchUntil other = portsToGo searchUntil port
          · rwa [portsToGo_injective range' last inRange here]
          · exact spec other range' (by omega)
    · next free => exact ⟨_, rfl, inRange, by simpa using free⟩

/-! ### The tables -/

@[simp] theorem listAt_setSocket (sd : Option (SockDesc A)) :
    (state.setSocket sockId sd).listAt port = state.listAt port := rfl

@[simp] theorem socket_setList :
    (state.setList port list).socketsByIdMap = state.socketsByIdMap := rfl

theorem listAt_setList :
    (state.setList port list).listAt other =
      if other = port then list.getD [] else state.listAt other := by
  simp only [State.listAt, State.setList, Function.update_apply]
  split <;> rfl

theorem socket_setSocket (sd : Option (SockDesc A)) :
    (state.setSocket sockId sd).socketsByIdMap other =
      if other = sockId then sd else state.socketsByIdMap other := by
  simp only [State.setSocket, Function.update_apply]

/-- What is so of a socket in every run. -/
structure SockDesc.Valid (sd : SockDesc A) : Prop where
  unbound : sd.isBound = false → sd.localAddr = none
  connected : sd.remoteAddr = none ↔ sd.remotePort = -1
  onlyLocal : sd.onlyLocalPortIsSet = true → sd.remoteAddr = none
  notOnly : sd.onlyLocalPortIsSet = false → sd.localAddr ≠ none ∨ sd.remoteAddr ≠ none

/-- The list of a port has the sockets of the port. -/
structure Indexed (state : State A) : Prop where
  once : ∀ port, (state.listAt port).Nodup
  member : ∀ port sockId, sockId ∈ state.listAt port ↔
    ∃ sd, state.socketsByIdMap sockId = some sd ∧ sd.localPort = port

/-- What is so in every run. -/
structure Sound (state : State A) : Prop where
  indexed : Indexed state
  valid : ∀ sockId sd, state.socketsByIdMap sockId = some sd → sd.Valid
  ephemeral : IsEphemeral state.lastEphemeralPort

theorem Indexed.insert (indexed : Indexed state) (sd : SockDesc A)
    (fresh : state.socketsByIdMap sockId = none) :
    Indexed ((state.setSocket sockId (some sd)).setList sd.localPort
      (some (state.listAt sd.localPort ++ [sockId]))) := by
  have outside (port : Int) : sockId ∉ state.listAt port := fun member => by
    obtain ⟨sd', there, -⟩ := (indexed.member port sockId).mp member
    rw [fresh] at there
    cases there
  constructor
  · intro port
    rw [listAt_setList]
    split
    · refine List.nodup_append.mpr ⟨indexed.once _, by simp, ?_⟩
      rintro other member _ same rfl
      exact outside _ (List.mem_singleton.mp same ▸ member)
    · exact indexed.once port
  · intro port other
    rw [listAt_setList, socket_setList, socket_setSocket]
    by_cases here : other = sockId
    · subst here
      by_cases same : port = sd.localPort
      · simp [same]
      · simp [same, outside port, Ne.symm same]
    · by_cases same : port = sd.localPort
      · simp [same, here, indexed.member]
      · simp [same, here, indexed.member]

theorem Indexed.modify (indexed : Indexed state)
    (there : state.socketsByIdMap sockId = some sd) (port : sd'.localPort = sd.localPort) :
    Indexed (state.setSocket sockId (some sd')) := by
  refine ⟨indexed.once, fun other id => ?_⟩
  rw [listAt_setSocket, indexed.member, socket_setSocket]
  by_cases here : id = sockId
  · subst here
    simp [there, port]
  · simp [here]

theorem Indexed.remove {list : Option (List Int)} (indexed : Indexed state)
    (there : state.socketsByIdMap sockId = some sd)
    (without : list.getD [] = (state.listAt sd.localPort).erase sockId) :
    Indexed ((state.setSocket sockId none).setList sd.localPort list) := by
  constructor
  · intro port
    rw [listAt_setList]
    split
    · rw [without]
      exact (indexed.once _).erase _
    · exact indexed.once port
  · intro port other
    rw [listAt_setList, socket_setList, socket_setSocket]
    by_cases same : port = sd.localPort
    · rw [if_pos same, without, (indexed.once _).mem_erase_iff, indexed.member, same]
      by_cases here : other = sockId <;> simp [here]
    · rw [if_neg same, listAt_setSocket, indexed.member]
      by_cases here : other = sockId
      · subst here
        simp [there, Ne.symm same]
      · simp [here]

theorem Sound.update (sound : Sound state) (sockId : Int) (indexed : Indexed next)
    (others : ∀ other, other ≠ sockId →
      next.socketsByIdMap other = state.socketsByIdMap other)
    (valid : ∀ sd, next.socketsByIdMap sockId = some sd → sd.Valid)
    (ephemeral : IsEphemeral next.lastEphemeralPort) : Sound next := by
  refine ⟨indexed, fun other sd' there => ?_, ephemeral⟩
  by_cases here : other = sockId
  · subst here
    exact valid sd' there
  · rw [others other here] at there
    exact sound.valid other sd' there

theorem Sound.modify (sound : Sound state)
    (there : state.socketsByIdMap sockId = some sd) (port : sd'.localPort = sd.localPort)
    (valid : sd'.Valid) : Sound (state.setSocket sockId (some sd')) := by
  refine sound.update sockId (sound.indexed.modify there port) (fun other different => ?_)
    (fun found here => ?_) sound.ephemeral
  · rw [socket_setSocket, if_neg different]
  · rw [socket_setSocket, if_pos rfl] at here
    cases here
    exact valid

/-! ### New sockets -/

theorem getEphemeralPort_spec (ephemeral : IsEphemeral state.lastEphemeralPort) :
    match getEphemeralPort state with
    | .ok (port, next) => ∃ found : Nat, port = found ∧ IsEphemeral found ∧
      state.socketsByPortMap found = none ∧ next = { state with lastEphemeralPort := found }
    | .error _ => ∀ port : Nat, IsEphemeral port → (state.socketsByPortMap port).isSome = true := by
  obtain ⟨result, ended, spec⟩ := searchEphemeralPort_spec state ephemeral
    (nextEphemeralPort_range ephemeral) (portsToGo_first ephemeral ephemeral).2
  have returned : searchEphemeralPort state state.lastEphemeralPort
      (EPHEMERAL_PORTRANGE_END - EPHEMERAL_PORTRANGE_START)
      (nextEphemeralPort state.lastEphemeralPort) = some result := ended
  unfold getEphemeralPort
  rw [returned]
  cases result with
  | ok found => exact ⟨found, rfl, spec.1, spec.2, rfl⟩
  | error text => exact fun port range => spec port range (portsToGo_first ephemeral range).1

/-- A new socket is put at the end of the list of its port. -/
theorem createSocket_effect (ephemeral : IsEphemeral state.lastEphemeralPort)
    (created : createSocket sockId localAddr localPort state = .ok (sd, next)) :
    ∃ last, IsEphemeral last ∧
      sd = { sockId, localAddr, localPort := sd.localPort
             onlyLocalPortIsSet := localAddr.isNone } ∧
      next = (({ state with lastEphemeralPort := last }).setSocket sockId (some sd)).setList
        sd.localPort (some (state.listAt sd.localPort ++ [sockId])) := by
  unfold createSocket at created
  obtain ⟨⟨port, chosen⟩, taken, rest⟩ := bind_eq_ok.mp created
  cases rest
  unfold choosePort at taken
  split at taken
  · have spec := getEphemeralPort_spec ephemeral
    rw [taken] at spec
    obtain ⟨found, rfl, range, -, rfl⟩ := spec
    exact ⟨found, range, rfl, rfl⟩
  · cases taken
    exact ⟨state.lastEphemeralPort, ephemeral, rfl, rfl⟩

/-- With a new socket, as it is when the command is done, the tables are as sound as before. -/
theorem Sound.create (sound : Sound state) (fresh : state.socketsByIdMap sockId = none)
    (created : createSocket sockId localAddr localPort state = .ok (sd, next))
    (port : sd'.localPort = sd.localPort) (valid : sd'.Valid) :
    Sound (next.setSocket sockId (some sd')) := by
  obtain ⟨last, range, -, rfl⟩ := createSocket_effect sound.ephemeral created
  have indexed : Indexed { state with lastEphemeralPort := last } :=
    ⟨sound.indexed.once, sound.indexed.member⟩
  have inserted := indexed.insert sd fresh
  have there : ((({ state with lastEphemeralPort := last }).setSocket sockId (some sd)).setList
      sd.localPort (some (state.listAt sd.localPort ++ [sockId]))).socketsByIdMap sockId =
      some sd := by
    rw [socket_setList, socket_setSocket, if_pos rfl]
  refine sound.update sockId (inserted.modify there port)
    (fun other different => ?_) (fun found here => ?_) range
  · rw [socket_setSocket, if_neg different, socket_setList, socket_setSocket, if_neg different]
  · rw [socket_setSocket, if_pos rfl] at here
    cases here
    exact valid

theorem created_valid (ephemeral : IsEphemeral state.lastEphemeralPort)
    (created : createSocket sockId none localPort state = .ok (sd, next)) : sd.Valid := by
  obtain ⟨-, -, same, -⟩ := createSocket_effect ephemeral created
  rw [same]
  exact ⟨fun _ => rfl, by simp, fun _ => rfl, by simp⟩

/-- What getting or creating a socket does, up to a change of the socket that comes next. -/
theorem getOrCreateSocket_spec (sound : Sound state)
    (returned : getOrCreateSocket sockId state = .ok (sd, next)) :
    sd.Valid ∧ ∀ sd' : SockDesc A, sd'.localPort = sd.localPort → sd'.Valid →
      Sound (next.setSocket sockId (some sd')) := by
  unfold getOrCreateSocket at returned
  split at returned
  · cases returned
  · cases there : state.socketsByIdMap sockId with
    | some found =>
      rw [there] at returned
      cases returned
      exact ⟨sound.valid _ _ there, fun sd' port valid => sound.modify there port valid⟩
    | none =>
      rw [there] at returned
      exact ⟨created_valid sound.ephemeral returned, fun sd' port valid =>
        sound.create there returned port valid⟩

/-! ### No leftovers -/

/-- No list is empty, and no socket with a local address is marked as having nothing but a port. -/
structure Tidy (state : State A) : Prop where
  lists : ∀ port, state.socketsByPortMap port ≠ some []
  marks : ∀ sockId sd, state.socketsByIdMap sockId = some sd → sd.onlyLocalPortIsSet = true →
    sd.localAddr = none

theorem map_setList :
    (state.setList port list).socketsByPortMap other =
      if other = port then list else state.socketsByPortMap other := by
  simp only [State.setList, Function.update_apply]

theorem Tidy.update (tidy : Tidy state) (sockId : Int) (lists : ∀ port, next.socketsByPortMap port ≠ some [])
    (others : ∀ other, other ≠ sockId →
      next.socketsByIdMap other = state.socketsByIdMap other)
    (mark : ∀ sd, next.socketsByIdMap sockId = some sd → sd.onlyLocalPortIsSet = true →
      sd.localAddr = none) : Tidy next := by
  refine ⟨lists, fun other sd' there => ?_⟩
  by_cases here : other = sockId
  · subst here
    exact mark sd' there
  · rw [others other here] at there
    exact tidy.marks other sd' there

theorem Tidy.modify (tidy : Tidy state)
    (mark : sd'.onlyLocalPortIsSet = true → sd'.localAddr = none) :
    Tidy (state.setSocket sockId (some sd')) := by
  refine tidy.update sockId tidy.lists (fun other different => ?_) (fun found here => ?_)
  · rw [socket_setSocket, if_neg different]
  · rw [socket_setSocket, if_pos rfl] at here
    cases here
    exact mark

theorem Tidy.setList {list : Option (List Int)} (tidy : Tidy state) (port : Int)
    (some : list ≠ some []) : Tidy (state.setList port list) := by
  refine ⟨fun other => ?_, tidy.marks⟩
  rw [map_setList]
  split
  · exact some
  · exact tidy.lists other

theorem Tidy.create (tidy : Tidy state) (ephemeral : IsEphemeral state.lastEphemeralPort)
    (created : createSocket sockId localAddr localPort state = .ok (sd, next)) : Tidy next := by
  obtain ⟨last, -, same, rfl⟩ := createSocket_effect ephemeral created
  have before : Tidy { state with lastEphemeralPort := last } := ⟨tidy.lists, tidy.marks⟩
  refine (before.modify ?_).setList _ (by simp)
  rw [same]
  exact Option.isNone_iff_eq_none.mp

theorem Tidy.getOrCreate (tidy : Tidy state) (ephemeral : IsEphemeral state.lastEphemeralPort)
    (returned : getOrCreateSocket sockId state = .ok (sd, next)) :
    Tidy next ∧ next.socketsByIdMap sockId = some sd := by
  unfold getOrCreateSocket at returned
  split at returned
  · cases returned
  · cases there : state.socketsByIdMap sockId with
    | some found =>
      rw [there] at returned
      cases returned
      exact ⟨tidy, there⟩
    | none =>
      rw [there] at returned
      refine ⟨tidy.create ephemeral returned, ?_⟩
      obtain ⟨last, -, -, rfl⟩ := createSocket_effect ephemeral returned
      rw [socket_setList, socket_setSocket, if_pos rfl]

/-! ### Commands -/

section
variable [DecidableEq A]

/-- A `bind` of a socket that is there does not take the last socket from its port, and gives no
address to one that is marked as having only a port. -/
def Careful (state : State A) : Command A → Prop
  | .bind sockId localAddr localPort => ∀ sd, state.socketsByIdMap sockId = some sd →
    (localPort ≠ -1 → sd.localPort ≠ localPort →
      state.socketsByPortMap sd.localPort ≠ some [sockId]) ∧
    (sd.onlyLocalPortIsSet = true → localAddr = none)
  | _ => True

/-- What `bind` does when it returns. -/
theorem bind_effect (returned : bind sockId localAddr localPort state = .ok next) :
    (∃ sd, state.socketsByIdMap sockId = some sd ∧ sd.isBound = false ∧
      next = rebind sockId sd localAddr localPort state) ∨
    state.socketsByIdMap sockId = none ∧ ∃ sd created,
      createSocket sockId localAddr localPort state = .ok (sd, created) ∧
      next = created.setSocket sockId (some { sd with isBound := true }) := by
  unfold bind at returned
  split at returned
  · cases returned
  · split at returned
    · cases returned
    · dsimp only at returned
      split at returned
      · cases returned
      · cases there : state.socketsByIdMap sockId with
        | some sd =>
          rw [there] at returned
          dsimp only at returned
          split at returned
          · cases returned
          · next unbound =>
            cases returned
            exact .inl ⟨sd, rfl, by simpa using unbound, rfl⟩
        | none =>
          rw [there] at returned
          obtain ⟨⟨sd, created⟩, made, rest⟩ := bind_eq_ok.mp returned
          cases rest
          exact .inr ⟨rfl, sd, created, made, rfl⟩

end

/-- Moving a socket to another port is removing it and putting it there anew. -/
theorem rebind_moved (localAddr : L3Address A)
    (indexed : Indexed state) (moved : localPort ≠ -1 ∧ sd.localPort ≠ localPort) :
    ∃ removed : State A, removed = (state.setSocket sockId none).setList sd.localPort
        (some ((state.listAt sd.localPort).erase sockId)) ∧
      rebind sockId sd localAddr localPort state =
        (removed.setSocket sockId (some { sd with isBound := true, localAddr, localPort })).setList
          localPort (some (removed.listAt localPort ++ [sockId])) := by
  refine ⟨_, rfl, ?_⟩
  unfold rebind
  rw [if_pos moved, (indexed.once sd.localPort).erase_eq_filter]
  have same : (fun other => decide (other ≠ sockId)) = fun other => other != sockId := by
    funext other
    by_cases here : other = sockId <;> simp [here]
  rw [same]
  simp only [State.setSocket, State.setList, State.listAt, Function.update_idem]

/-! ### Steps -/

/-- Moving a socket from its port keeps the tables sound, and tidy unless it was the last there. -/
theorem rebind_sound (sound : Sound state)
    (there : state.socketsByIdMap sockId = some sd) (unbound : sd.isBound = false) :
    Sound (rebind sockId sd localAddr localPort state) := by
  obtain ⟨unboundAddr, connected, onlyLocal, notOnly⟩ := sound.valid sockId sd there
  by_cases moved : localPort ≠ -1 ∧ sd.localPort ≠ localPort
  · obtain ⟨removed, taken, same⟩ := rebind_moved localAddr sound.indexed moved
    have indexed : Indexed removed := taken ▸ sound.indexed.remove there rfl
    have absent : removed.socketsByIdMap sockId = none := by
      rw [taken, socket_setList, socket_setSocket, if_pos rfl]
    rw [same]
    refine sound.update sockId
      (indexed.insert { sd with isBound := true, localAddr, localPort } absent)
      (fun other different => ?_) (fun found here => ?_) (taken ▸ sound.ephemeral)
    · rw [socket_setList, socket_setSocket, if_neg different, taken, socket_setList,
        socket_setSocket, if_neg different]
    · rw [socket_setList, socket_setSocket, if_pos rfl] at here
      cases here
      exact ⟨by simp, connected, onlyLocal, fun off =>
        .inr ((notOnly off).resolve_left fun some => some (unboundAddr unbound))⟩
  · unfold rebind
    rw [if_neg moved]
    exact sound.modify there rfl ⟨by simp, connected, onlyLocal, fun off =>
      .inr ((notOnly off).resolve_left fun some => some (unboundAddr unbound))⟩

theorem close_sound (sound : Sound state) : Sound (close sockId state) := by
  unfold close
  cases there : state.socketsByIdMap sockId with
  | none => exact sound
  | some sd =>
    refine sound.update sockId (sound.indexed.remove there ?_)
      (fun other different => ?_) (fun found here => ?_) sound.ephemeral
    · cases empty : (state.listAt sd.localPort).erase sockId <;> rfl
    · rw [socket_setList, socket_setSocket, if_neg different]
    · rw [socket_setList, socket_setSocket, if_pos rfl] at here
      cases here

variable [DecidableEq A]

/-- Every command keeps the tables sound. -/
theorem perform_sound {command : Command A} (sound : Sound state)
    (returned : perform command state = .ok next) : Sound next := by
  cases command with
  | bind sockId localAddr localPort =>
    rcases bind_effect returned with ⟨sd, there, unbound, rfl⟩ | ⟨fresh, sd, created, made, rfl⟩
    · exact rebind_sound sound there unbound
    · refine sound.create fresh made rfl ?_
      obtain ⟨-, -, same, -⟩ := createSocket_effect sound.ephemeral made
      rw [same]
      refine ⟨by simp, by simp, fun _ => rfl, fun off => .inl fun unspecified => ?_⟩
      dsimp only at off unspecified
      rw [unspecified] at off
      cases off
  | connect sockId remoteAddr remotePort =>
    change connect sockId remoteAddr remotePort state = _ at returned
    unfold connect at returned
    split at returned
    · cases returned
    · next specified =>
      split at returned
      · cases returned
      · next valid =>
        obtain ⟨⟨sd, created⟩, got, rest⟩ := bind_eq_ok.mp returned
        cases rest
        obtain ⟨before, change⟩ := getOrCreateSocket_spec sound got
        have remote : remoteAddr ≠ none := fun none => specified (by simp [none])
        refine change _ rfl ⟨before.unbound, ⟨fun none => absurd none remote, fun none => ?_⟩,
          by simp, fun _ => .inr remote⟩
        dsimp only at none
        omega
  | close sockId =>
    cases returned
    exact close_sound sound
  | setOption sockId option =>
    obtain ⟨⟨sd, created⟩, got, rest⟩ := bind_eq_ok.mp returned
    cases rest
    obtain ⟨before, change⟩ := getOrCreateSocket_spec sound got
    cases option with
    | _ => exact change _ rfl ⟨before.unbound, before.connected, before.onlyLocal, before.notOnly⟩

theorem reachable_sound {allowed : State A → Command A → Prop}
    (reachable : Reachable allowed state) : Sound state := by
  induction reachable with
  | initial =>
    exact ⟨⟨fun _ => List.nodup_nil, by simp [State.listAt]⟩, by simp, by
      simp [IsEphemeral, EPHEMERAL_PORTRANGE_START, EPHEMERAL_PORTRANGE_END]⟩
  | after _ _ _ returned ih => exact perform_sound ih returned

omit [DecidableEq A] in
/-- The list of a port loses its last socket if it has only that one. -/
theorem erase_eq_nil_iff (sound : Sound state) (there : state.socketsByIdMap sockId = some sd) :
    (state.listAt sd.localPort).erase sockId = [] ↔
      state.socketsByPortMap sd.localPort = some [sockId] := by
  have member : sockId ∈ state.listAt sd.localPort :=
    (sound.indexed.member _ _).mpr ⟨sd, there, rfl⟩
  have once := sound.indexed.once sd.localPort
  cases found : state.socketsByPortMap sd.localPort with
  | none => simp [State.listAt, found] at member
  | some list =>
    simp only [State.listAt, found, Option.getD_some] at member once ⊢
    rw [Option.some_inj]
    constructor
    · intro empty
      have length := List.length_erase_of_mem member
      rw [empty, List.length_nil] at length
      have positive := List.length_pos_of_mem member
      obtain ⟨only, rfl⟩ := List.length_eq_one_iff.mp (by omega : list.length = 1)
      rw [List.mem_singleton.mp member]
    · rintro rfl
      simp

omit [DecidableEq A] in
theorem rebind_tidy_iff (sound : Sound state)
    (tidy : Tidy state) (there : state.socketsByIdMap sockId = some sd) :
    Tidy (rebind sockId sd localAddr localPort state) ↔
      (localPort ≠ -1 → sd.localPort ≠ localPort →
        state.socketsByPortMap sd.localPort ≠ some [sockId]) ∧
      (sd.onlyLocalPortIsSet = true → localAddr = none) := by
  simp only [ne_eq, ← erase_eq_nil_iff sound there]
  by_cases moved : localPort ≠ -1 ∧ sd.localPort ≠ localPort
  · obtain ⟨removed, taken, same⟩ := rebind_moved localAddr sound.indexed moved
    rw [same]
    have left : removed.socketsByPortMap sd.localPort =
        some ((state.listAt sd.localPort).erase sockId) := by
      rw [taken, map_setList, if_pos rfl]
    constructor
    · intro after
      refine ⟨fun _ _ empty => after.lists sd.localPort ?_, fun marked => after.marks sockId
        { sd with isBound := true, localAddr, localPort } ?_ marked⟩
      · rw [map_setList, if_neg moved.2]
        exact left.trans (congrArg some empty)
      · rw [socket_setList, socket_setSocket, if_pos rfl]
    · rintro ⟨others, mark⟩
      refine Tidy.setList (tidy.update sockId (fun port => ?_)
        (fun other different => ?_) (fun found here => ?_)) _ (by simp)
      · change removed.socketsByPortMap port ≠ some []
        rw [taken, map_setList]
        split
        · intro empty
          exact others moved.1 moved.2 (Option.some_inj.mp empty)
        · exact tidy.lists port
      · rw [socket_setSocket, if_neg different, taken, socket_setList, socket_setSocket,
          if_neg different]
      · rw [socket_setSocket, if_pos rfl] at here
        cases here
        exact mark
  · unfold rebind
    rw [if_neg moved]
    constructor
    · intro after
      refine ⟨fun some different => absurd ⟨some, different⟩ moved, fun marked =>
        after.marks sockId { sd with isBound := true, localAddr } ?_ marked⟩
      rw [socket_setSocket, if_pos rfl]
    · rintro ⟨-, mark⟩
      exact tidy.modify mark

omit [DecidableEq A] in
theorem close_tidy (tidy : Tidy state) : Tidy (close sockId state) := by
  unfold close
  cases there : state.socketsByIdMap sockId with
  | none => exact tidy
  | some sd =>
    have removed : Tidy (state.setSocket sockId none) := by
      refine tidy.update sockId tidy.lists (fun other different => ?_)
        (fun found here => ?_)
      · rw [socket_setSocket, if_neg different]
      · rw [socket_setSocket, if_pos rfl] at here
        cases here
    refine removed.setList sd.localPort ?_
    cases (state.listAt sd.localPort).erase sockId <;> simp

/-- A command leaves the tables tidy exactly if it is careful. -/
theorem perform_tidy_iff {command : Command A} (sound : Sound state) (tidy : Tidy state)
    (returned : perform command state = .ok next) : Tidy next ↔ Careful state command := by
  cases command with
  | bind sockId localAddr localPort =>
    rcases bind_effect returned with ⟨sd, there, -, rfl⟩ | ⟨fresh, sd, created, made, rfl⟩
    · rw [rebind_tidy_iff sound tidy there]
      constructor
      · intro careful sd' there'
        cases there.symm.trans there'
        exact careful
      · exact fun careful => careful sd there
    · have after := tidy.create sound.ephemeral made
      refine ⟨fun _ sd' there' => ?_, fun _ => after.modify fun marked => ?_⟩
      · rw [fresh] at there'
        cases there'
      · obtain ⟨last, -, -, same⟩ := createSocket_effect sound.ephemeral made
        refine after.marks sockId sd ?_ marked
        rw [same, socket_setList, socket_setSocket, if_pos rfl]
  | connect sockId remoteAddr remotePort =>
    refine ⟨fun _ => trivial, fun _ => ?_⟩
    change connect sockId remoteAddr remotePort state = _ at returned
    unfold connect at returned
    split at returned
    · cases returned
    · split at returned
      · cases returned
      · obtain ⟨⟨sd, created⟩, got, rest⟩ := bind_eq_ok.mp returned
        cases rest
        exact (tidy.getOrCreate sound.ephemeral got).1.modify (by simp)
  | close sockId =>
    cases returned
    exact ⟨fun _ => trivial, fun _ => close_tidy tidy⟩
  | setOption sockId option =>
    refine ⟨fun _ => trivial, fun _ => ?_⟩
    obtain ⟨⟨sd, created⟩, got, rest⟩ := bind_eq_ok.mp returned
    cases rest
    obtain ⟨after, there⟩ := tidy.getOrCreate sound.ephemeral got
    refine after.modify fun marked => ?_
    cases option with
    | _ => exact after.marks sockId sd there marked

/-! ### Runs -/

/-- The tables agree: the ports with a list are those of the open sockets, the lists have these, and
the mark is on the sockets that have nothing but a port. -/
structure Coherent (state : State A) : Prop where
  ports : ∀ port, (state.socketsByPortMap port).isSome = true ↔
    ∃ sockId sd, state.socketsByIdMap sockId = some sd ∧ sd.localPort = port
  lists : ∀ port list, state.socketsByPortMap port = some list → list.Nodup ∧
    ∀ sockId, sockId ∈ list ↔ ∃ sd, state.socketsByIdMap sockId = some sd ∧ sd.localPort = port
  marks : ∀ sockId sd, state.socketsByIdMap sockId = some sd →
    (sd.onlyLocalPortIsSet = true ↔
      sd.localAddr = none ∧ sd.remoteAddr = none ∧ sd.remotePort = -1)

/-- An ephemeral port that no open socket has is found, unless there is none. -/
def EphemeralFound (state : State A) : Prop :=
  match getEphemeralPort state with
  | .ok (port, _) => EPHEMERAL_PORTRANGE_START ≤ port ∧ port < EPHEMERAL_PORTRANGE_END ∧
    ∀ sockId sd, state.socketsByIdMap sockId = some sd → sd.localPort ≠ port
  | .error _ => ∀ port : Nat, EPHEMERAL_PORTRANGE_START ≤ port → port < EPHEMERAL_PORTRANGE_END →
    ∃ sockId sd, state.socketsByIdMap sockId = some sd ∧ sd.localPort = port

omit [DecidableEq A] in
theorem coherent_iff (sound : Sound state) : Coherent state ↔ Tidy state := by
  constructor
  · intro coherent
    refine ⟨fun port empty => ?_, fun sockId sd there marked =>
      ((coherent.marks sockId sd there).mp marked).1⟩
    obtain ⟨sockId, sd, there, here⟩ := (coherent.ports port).mp (by rw [empty]; rfl)
    have member := ((coherent.lists port [] empty).2 sockId).mpr ⟨sd, there, here⟩
    cases member
  · intro tidy
    refine ⟨fun port => ⟨fun some => ?_, fun ⟨sockId, sd, there, here⟩ => ?_⟩,
      fun port list found => ?_, fun sockId sd there => ⟨fun marked => ?_, fun ⟨unspecified, remote, _⟩ => ?_⟩⟩
    · obtain ⟨list, found⟩ := Option.isSome_iff_exists.mp some
      obtain ⟨sockId, rest, rfl⟩ := List.exists_cons_of_ne_nil
        (fun empty => tidy.lists port (found.trans (congrArg _ empty)))
      exact ⟨sockId, (sound.indexed.member port sockId).mp (by simp [State.listAt, found])⟩
    · have member := (sound.indexed.member port sockId).mpr ⟨sd, there, here⟩
      cases found : state.socketsByPortMap port with
      | none => simp [State.listAt, found] at member
      | some list => rfl
    · have same : state.listAt port = list := by simp [State.listAt, found]
      exact ⟨same ▸ sound.indexed.once port, fun sockId => same ▸ sound.indexed.member port sockId⟩
    · have valid := sound.valid sockId sd there
      have remote := valid.onlyLocal marked
      exact ⟨tidy.marks sockId sd there marked, remote, valid.connected.mp remote⟩
    · by_contra off
      exact ((sound.valid sockId sd there).notOnly (by simpa using off)).elim
        (fun specified => specified unspecified) (fun specified => specified remote)

omit [DecidableEq A] in
theorem ephemeral_found (sound : Sound state) (coherent : Coherent state) :
    EphemeralFound state := by
  have spec := getEphemeralPort_spec sound.ephemeral
  unfold EphemeralFound
  cases found : getEphemeralPort state with
  | error text =>
    rw [found] at spec
    exact fun port start before => (coherent.ports port).mp (spec port ⟨start, before⟩)
  | ok result =>
    obtain ⟨port, next⟩ := result
    rw [found] at spec
    obtain ⟨free, rfl, ⟨start, before⟩, none, -⟩ := spec
    refine ⟨Int.ofNat_le.mpr start, Int.ofNat_lt.mpr before, fun sockId sd there here => ?_⟩
    have used := (coherent.ports free).mpr ⟨sockId, sd, there, here⟩
    rw [none] at used
    cases used

theorem reachable_coherent (reachable : Reachable Careful state) :
    Sound state ∧ Coherent state := by
  have sound := reachable_sound reachable
  refine ⟨sound, (coherent_iff sound).mpr ?_⟩
  clear sound
  induction reachable with
  | initial => exact ⟨by simp, by simp⟩
  | after _ before careful returned ih =>
    exact (perform_tidy_iff (reachable_sound before) ih returned).mpr careful

/-- In a run of careful commands the tables agree and ephemeral ports are found in every state, and a
command that is not careful is one after which they do not agree. -/
theorem tables_coherent (state : State A) (reachable : Reachable Careful state) :
    Coherent state ∧
    (searchEphemeralPort state state.lastEphemeralPort
      (EPHEMERAL_PORTRANGE_END - EPHEMERAL_PORTRANGE_START)
      (nextEphemeralPort state.lastEphemeralPort)).isSome = true ∧
    EphemeralFound state ∧
    ∀ command next, perform command state = .ok next →
      (Coherent next ↔ Careful state command) := by
  obtain ⟨sound, coherent⟩ := reachable_coherent reachable
  refine ⟨coherent, ?_, ephemeral_found sound coherent, fun command next returned => ?_⟩
  · obtain ⟨result, ended, -⟩ := searchEphemeralPort_spec state sound.ephemeral
      (nextEphemeralPort_range sound.ephemeral)
      (portsToGo_first sound.ephemeral sound.ephemeral).2
    exact Option.isSome_iff_exists.mpr ⟨result, ended⟩
  · rw [coherent_iff (perform_sound sound returned)]
    exact perform_tidy_iff sound ((coherent_iff sound).mp coherent) returned

/-- A socket that was connected is bound at its port, and another one at a port of its own. -/
theorem tables_coherent_bound :
    ∃ state : State Nat, Reachable Careful state ∧ Coherent state ∧ EphemeralFound state ∧
      state.socketsByPortMap 1025 = some [1] ∧ state.socketsByPortMap 53 = some [2] := by
  have connected : Reachable Careful _ := .after (.connect 1 (some 9) 80) .initial trivial rfl
  have bound : Reachable Careful _ := .after (.bind 1 (some 7) (-1)) connected
    (by
      rintro sd there
      cases there
      exact ⟨fun some => absurd rfl some, fun marked => by cases marked⟩) rfl
  have other : Reachable Careful _ := .after (.bind 2 none 53) bound
    (by rintro sd there; cases there) rfl
  have coherent := tables_coherent _ other
  exact ⟨_, other, coherent.1, coherent.2.2.1, rfl, rfl⟩

/-- A socket that is bound after it was connected leaves its port without sockets and not free, and one
that is bound after an option was set stays marked as having nothing but a port. -/
theorem bound_incoherent :
    (∃ state : State Nat, Reachable (fun _ _ => True) state ∧
      state.socketsByPortMap 1025 = some [] ∧ ¬Coherent state) ∧
    ∃ (state : State Nat) (sd : SockDesc Nat), Reachable (fun _ _ => True) state ∧
      state.socketsByIdMap 1 = some sd ∧ sd.onlyLocalPortIsSet = true ∧ sd.localAddr = some 7 ∧
      ¬Coherent state := by
  constructor
  · have connected : Reachable (fun _ _ => True) _ :=
      .after (A := Nat) (.connect 1 (some 9) 80) .initial trivial rfl
    have moved : Reachable (fun _ _ => True) _ := .after (.bind 1 none 53) connected trivial rfl
    refine ⟨_, moved, rfl, fun coherent => ?_⟩
    exact ((coherent_iff (reachable_sound moved)).mp coherent).lists 1025 rfl
  · have created : Reachable (fun _ _ => True) _ :=
      .after (A := Nat) (.setOption 1 .other) .initial trivial rfl
    have bound : Reachable (fun _ _ => True) _ :=
      .after (.bind 1 (some 7) (-1)) created trivial rfl
    refine ⟨_, _, bound, rfl, rfl, rfl, fun coherent => ?_⟩
    cases ((coherent.marks 1 _ rfl).mp rfl).1

end Inet.Udp.Tables

import Inet.Ipv4.MulticastListeners

/-!
# The sources that listeners want

After any calls the entry of a group has the sources from which the group is wanted, in one form or the
other. The query for a source answers with the contrary of that.
-/
namespace Inet.Ipv4

open Lib McastSourceFilterMode RouterMulticastGroupVector Ipv4InterfaceData

variable {source s group other : Ipv4Address} {sources : List Ipv4Address}
  {list : Ipv4MulticastSourceList} {entries next : RouterMulticastGroupVector}

/-! ### Lists of sources -/

/-- It does not matter where a source is put. -/
theorem mem_insertSource : s ∈ insertSource sources source ↔ s = source ∨ s ∈ sources := by
  unfold insertSource
  dsimp only
  split
  · next there =>
    refine ⟨.inr, fun either => either.elim (fun same => ?_) id⟩
    exact same ▸ List.mem_of_getElem? there
  · rw [List.mem_append, List.mem_cons, or_left_comm, ← List.mem_append, List.take_append_drop]

theorem mem_eraseSource : s ∈ eraseSource sources source ↔ s ∈ sources ∧ s ≠ source := by
  simp [eraseSource]

namespace Ipv4MulticastSourceList

/-- The sources that a list stands for. -/
def toSet (list : Ipv4MulticastSourceList) : Set Ipv4Address := {source | list.contains source = true}

theorem toSet_include (sources : List Ipv4Address) :
    toSet { filterMode := MCAST_INCLUDE_SOURCES, sources } = {s | s ∈ sources} := by
  ext s
  exact decide_eq_true_iff

theorem toSet_exclude (sources : List Ipv4Address) :
    toSet { filterMode := MCAST_EXCLUDE_SOURCES, sources } = {s | s ∉ sources} := by
  ext s
  exact decide_eq_true_iff

theorem toSet_allSources : toSet ALL_SOURCES = Set.univ := by
  rw [ALL_SOURCES, toSet_exclude]
  simp

theorem toSet_new : toSet {} = ∅ := by
  rw [toSet_include]
  simp

theorem toSet_add (list : Ipv4MulticastSourceList) (source : Ipv4Address) :
    (list.add source).toSet = insert source list.toSet := by
  obtain ⟨filterMode, sources⟩ := list
  ext s
  cases filterMode with
  | MCAST_INCLUDE_SOURCES =>
    rw [add, toSet_include, toSet_include]
    exact mem_insertSource
  | MCAST_EXCLUDE_SOURCES =>
    rw [add, toSet_exclude, toSet_exclude]
    simp only [Set.mem_ofPred_eq, Set.mem_insert_iff, mem_eraseSource]
    by_cases same : s = source <;> simp [same]

theorem toSet_remove (list : Ipv4MulticastSourceList) (source : Ipv4Address) :
    (list.remove source).toSet = list.toSet \ {source} := by
  obtain ⟨filterMode, sources⟩ := list
  ext s
  cases filterMode with
  | MCAST_INCLUDE_SOURCES =>
    rw [remove, toSet_include, toSet_include]
    exact mem_eraseSource
  | MCAST_EXCLUDE_SOURCES =>
    rw [remove, toSet_exclude, toSet_exclude]
    simp only [Set.mem_ofPred_eq, Set.mem_sdiff, Set.mem_singleton_iff, mem_insertSource]
    by_cases same : s = source <;> simp [same]

theorem toSet_of_containsAll (all : list.containsAll = true) : list.toSet = Set.univ := by
  obtain ⟨filterMode, sources⟩ := list
  simp only [containsAll, Bool.and_eq_true, decide_eq_true_eq, List.isEmpty_iff] at all
  obtain ⟨rfl, rfl⟩ := all
  exact toSet_allSources

/-- A list is empty if it stands for no sources, unless it names all of them to be excluded. -/
theorem nonempty_iff (list : Ipv4MulticastSourceList) :
    (list.isEmpty = false ↔ list.toSet.Nonempty) ↔
      ¬(list.filterMode = MCAST_EXCLUDE_SOURCES ∧ ∀ s, s ∈ list.sources) := by
  obtain ⟨filterMode, sources⟩ := list
  cases filterMode with
  | MCAST_INCLUDE_SOURCES =>
    rw [toSet_include]
    cases sources with
    | nil => simp [isEmpty]
    | cons source rest =>
      simp only [isEmpty, List.isEmpty_cons, Bool.and_false, true_iff, reduceCtorEq, false_and,
        not_false_eq_true, iff_true]
      exact ⟨source, List.mem_cons_self⟩
  | MCAST_EXCLUDE_SOURCES =>
    rw [toSet_exclude]
    simp [isEmpty, Set.Nonempty]

end Ipv4MulticastSourceList

open Ipv4MulticastSourceList

/-! ### Groups -/

namespace RouterMulticastGroupVector

/-- No group has two entries. -/
def Distinct (entries : RouterMulticastGroupVector) : Prop := (entries.map (·.multicastGroup)).Nodup

theorem find_eq_none_iff : findRouterGroupData group entries = none ↔
    group ∉ entries.map (·.multicastGroup) := by
  induction entries with
  | nil => simp [findRouterGroupData]
  | cons entry rest ih =>
    by_cases here : entry.multicastGroup = group
    · simp [findRouterGroupData, here]
    · simp only [findRouterGroupData, if_neg here, ih, List.map_cons, List.mem_cons,
        Ne.symm here, false_or]

theorem find_setSourceList (there : (findRouterGroupData group entries).isSome = true) :
    findRouterGroupData other (setSourceList group list entries) =
      if other = group then some list else findRouterGroupData other entries := by
  induction entries with
  | nil => cases there
  | cons entry rest ih =>
    by_cases here : entry.multicastGroup = group
    · by_cases same : other = group
      · simp [setSourceList, findRouterGroupData, here, same]
      · simp [setSourceList, findRouterGroupData, here, same, Ne.symm same]
    · rw [findRouterGroupData, if_neg here] at there
      simp only [setSourceList, if_neg here, findRouterGroupData, ih there]
      by_cases same : other = group
      · simp [same, here]
      · simp [same]

theorem groups_setSourceList (group : Ipv4Address) (list : Ipv4MulticastSourceList)
    (entries : RouterMulticastGroupVector) :
    (setSourceList group list entries).map (·.multicastGroup) = entries.map (·.multicastGroup) := by
  induction entries with
  | nil => rfl
  | cons entry rest ih =>
    rw [setSourceList]
    split
    · rfl
    · rw [List.map_cons, List.map_cons, ih]

theorem groups_remove (group : Ipv4Address) (entries : RouterMulticastGroupVector) :
    (removeRouterGroupData group entries).map (·.multicastGroup) =
      (entries.map (·.multicastGroup)).erase group := by
  induction entries with
  | nil => rfl
  | cons entry rest ih =>
    rw [removeRouterGroupData, List.map_cons, List.erase_cons]
    by_cases here : entry.multicastGroup = group
    · simp [here]
    · simp [here, ih]

theorem find_remove (unique : Distinct entries) :
    findRouterGroupData other (removeRouterGroupData group entries) =
      if other = group then none else findRouterGroupData other entries := by
  by_cases same : other = group
  · subst same
    rw [if_pos rfl, find_eq_none_iff, groups_remove, unique.mem_erase_iff]
    exact fun within => within.1 rfl
  · rw [if_neg same]
    clear unique
    induction entries with
    | nil => rfl
    | cons entry rest ih =>
      by_cases here : entry.multicastGroup = group
      · simp [removeRouterGroupData, findRouterGroupData, here, Ne.symm same]
      · simp [removeRouterGroupData, findRouterGroupData, here, ih]

theorem find_append (group other : Ipv4Address) (entries : RouterMulticastGroupVector) :
    findRouterGroupData other (entries ++ [{ multicastGroup := group }]) =
      (findRouterGroupData other entries).or (if other = group then some {} else none) := by
  induction entries with
  | nil => simp [findRouterGroupData, eq_comm]
  | cons entry rest ih =>
    by_cases here : entry.multicastGroup = other
    · simp [findRouterGroupData, here]
    · simp [findRouterGroupData, here, ih]

end RouterMulticastGroupVector

/-! ### Refinement -/

/-- The sources of a group, none if there is no entry. -/
def sourcesOf (entries : RouterMulticastGroupVector) : Listeners := fun group =>
  ((findRouterGroupData group entries).map toSet).getD ∅

/-- No group has two entries, and the entries stand for some sets. -/
structure Represents (entries : RouterMulticastGroupVector) (listeners : Listeners) : Prop where
  unique : Distinct entries
  same : sourcesOf entries = listeners

/-- An entry is entered without a change of what is wanted. -/
theorem enter_spec {listeners : Listeners} (represents : Represents entries listeners)
    (group : Ipv4Address) :
    Represents (enterRouterGroupData group entries).2 listeners ∧
      findRouterGroupData group (enterRouterGroupData group entries).2 =
        some (enterRouterGroupData group entries).1 := by
  obtain ⟨unique, rfl⟩ := represents
  unfold enterRouterGroupData
  cases found : findRouterGroupData group entries with
  | some list => exact ⟨⟨unique, rfl⟩, found⟩
  | none =>
    refine ⟨⟨?_, funext fun other => ?_⟩, by simp [find_append, found]⟩
    · have outside := find_eq_none_iff.mp found
      rw [Distinct, List.map_append, List.map_singleton]
      refine List.nodup_append.mpr ⟨unique, by simp, ?_⟩
      rintro other member _ same rfl
      have here : other = group := List.mem_singleton.mp same
      exact outside (here ▸ member)
    · simp only [sourcesOf, find_append]
      by_cases same : other = group
      · simp [same, found, toSet_new]
      · simp [same]

theorem Represents.set {listeners : Listeners} (represents : Represents entries listeners)
    (there : (findRouterGroupData group entries).isSome = true) (list : Ipv4MulticastSourceList) :
    Represents (setSourceList group list entries)
      (Function.update listeners group list.toSet) := by
  obtain ⟨unique, rfl⟩ := represents
  refine ⟨by rw [Distinct, groups_setSourceList]; exact unique, funext fun other => ?_⟩
  rw [Function.update_apply, sourcesOf, find_setSourceList there]
  split <;> rfl

theorem Represents.remove {listeners : Listeners} (represents : Represents entries listeners)
    (group : Ipv4Address) :
    Represents (removeRouterGroupData group entries) (Function.update listeners group ∅) := by
  obtain ⟨unique, rfl⟩ := represents
  refine ⟨by rw [Distinct, groups_remove]; exact unique.erase _, funext fun other => ?_⟩
  rw [Function.update_apply, sourcesOf, find_remove unique]
  split <;> rfl

theorem Represents.wanted {listeners : Listeners} (represents : Represents entries listeners)
    (found : findRouterGroupData group entries = some list) : listeners group = list.toSet := by
  rw [← represents.same, sourcesOf, found]
  rfl

/-- A call does to the entries what it should do to the sets. -/
theorem ListenerCall.perform_represents {listeners : Listeners} {call : ListenerCall}
    (represents : Represents entries listeners) (returned : call.perform entries = .ok next) :
    Represents next (call.apply listeners) := by
  cases call with
  | add group =>
    obtain ⟨entered, there⟩ := enter_spec represents group
    rw [perform, addMulticastListener] at returned
    split at returned
    · cases returned
      rw [apply]
      split
      · next all =>
        have wanted := (entered.wanted there).trans (toSet_of_containsAll all)
        rwa [← wanted, Function.update_eq_self]
      · rw [← toSet_allSources]
        exact entered.set (by rw [there]; rfl) _
    · cases returned
  | addFrom group source =>
    obtain ⟨entered, there⟩ := enter_spec represents group
    rw [perform, addMulticastListenerFrom] at returned
    split at returned
    · cases returned
      rw [apply, entered.wanted there]
      split
      · next contained =>
        have member : source ∈ (enterRouterGroupData group entries).1.toSet := contained
        rwa [Set.insert_eq_of_mem member, ← entered.wanted there, Function.update_eq_self]
      · rw [← toSet_add]
        exact entered.set (by rw [there]; rfl) _
    · cases returned
  | remove group =>
    cases returned
    exact represents.remove group
  | removeFrom group source =>
    cases returned
    rw [apply, removeMulticastListenerFrom]
    cases found : findRouterGroupData group entries with
    | none =>
      have nothing : listeners group = ∅ := by rw [← represents.same, sourcesOf, found]; rfl
      rwa [nothing, Set.empty_sdiff, ← nothing, Function.update_eq_self]
    | some list =>
      rw [represents.wanted found, ← toSet_remove]
      dsimp only
      split
      · next empty =>
        have nothing : (list.remove source).toSet = ∅ := by
          cases left : list.remove source with
          | mk filterMode sources =>
            rw [left] at empty
            simp only [isEmpty, Bool.and_eq_true, decide_eq_true_eq, List.isEmpty_iff] at empty
            obtain ⟨rfl, rfl⟩ := empty
            exact toSet_new
        rw [nothing]
        exact represents.remove group
      · exact represents.set (by rw [found]; rfl) _
  | set group filterMode sources =>
    obtain ⟨entered, there⟩ := enter_spec represents group
    have applied : ListenerCall.apply listeners (.set group filterMode sources) =
        Function.update listeners group (toSet { filterMode, sources }) := by
      cases filterMode with
      | MCAST_INCLUDE_SOURCES => rw [toSet_include]; rfl
      | MCAST_EXCLUDE_SOURCES => rw [toSet_exclude]; rfl
    rw [applied]
    rw [perform, setMulticastListeners] at returned
    split at returned
    · cases returned
      split
      · split
        · exact entered.set (by rw [there]; rfl) _
        · next empty =>
          push Not at empty
          obtain ⟨rfl, rfl⟩ := empty
          rw [toSet_new]
          exact entered.remove group
      · next unchanged =>
        push Not at unchanged
        have wanted := entered.wanted there
        rw [unchanged.1, unchanged.2]
        change Represents _ (Function.update listeners group (enterRouterGroupData group entries).1.toSet)
        rwa [← wanted, Function.update_eq_self]
    · cases returned

/-- After any calls the entries stand for the sets. -/
theorem ListenerCall.run_represents {calls : List ListenerCall} {listeners : Listeners}
    (represents : Represents entries listeners) (returned : run calls entries = .ok next) :
    Represents next (calls.foldl ListenerCall.apply listeners) := by
  induction calls generalizing entries listeners with
  | nil =>
    cases returned
    exact represents
  | cons call rest ih =>
    obtain ⟨between, performed, returned⟩ := bind_eq_ok.mp returned
    exact ih (perform_represents represents performed) returned

/-! ### Queries -/

/-- After any calls, the query for a source of a group is right exactly if the group has no entry, and the
query for a group exactly if not all sources are listed as excluded. -/
theorem listeners_answered_iff (calls : List ListenerCall) (entries : RouterMulticastGroupVector)
    (returned : ListenerCall.run calls [] = .ok entries) (group : Ipv4Address)
    (multicast : group.isMulticast = true) :
    (∀ source, (hasMulticastListenerFrom group source entries = .ok true ↔
        source ∈ listenersAfter calls group) ↔
      findRouterGroupData group entries = none) ∧
    ((hasMulticastListener group entries = .ok true ↔ (listenersAfter calls group).Nonempty) ↔
      ∀ list, findRouterGroupData group entries = some list →
        ¬(list.filterMode = MCAST_EXCLUDE_SOURCES ∧ ∀ source, source ∈ list.sources)) := by
  have represents : Represents entries (listenersAfter calls) :=
    ListenerCall.run_represents ⟨show Distinct [] from List.nodup_nil, rfl⟩ returned
  unfold hasMulticastListenerFrom hasMulticastListener
  simp only [if_pos multicast, Except.ok.injEq]
  cases found : findRouterGroupData group entries with
  | none =>
    have nothing : listenersAfter calls group = ∅ := by
      rw [← represents.same, sourcesOf, found]
      rfl
    simp [nothing]
  | some list =>
    have wanted := represents.wanted found
    constructor
    · intro source
      have member : source ∈ list.toSet ↔ list.contains source = true := Iff.rfl
      rw [wanted, member]
      cases contained : list.contains source <;> simp [contained]
    · rw [wanted]
      have exact := nonempty_iff list
      simpa using exact

/-- The group 224.1.2.3 has a listener for a source, and 224.1.2.4 had one. -/
theorem group_left_answered :
    ∃ entries, ListenerCall.run [.addFrom 0xE0010203 0x0A000001, .addFrom 0xE0010204 0x0A000001,
        .remove 0xE0010204] [] = .ok entries ∧
      (hasMulticastListenerFrom 0xE0010204 0x0A000001 entries = .ok true ↔
        0x0A000001 ∈ listenersAfter [.addFrom 0xE0010203 0x0A000001,
          .addFrom 0xE0010204 0x0A000001, .remove 0xE0010204] 0xE0010204) ∧
      (hasMulticastListener 0xE0010203 entries = .ok true ↔
        (listenersAfter [.addFrom 0xE0010203 0x0A000001, .addFrom 0xE0010204 0x0A000001,
          .remove 0xE0010204] 0xE0010203).Nonempty) := by
  refine ⟨_, rfl, ?_, ?_⟩
  · exact ((listeners_answered_iff _ _ rfl 0xE0010204 (by decide)).1 _).mpr (by decide)
  · refine (listeners_answered_iff _ _ rfl 0xE0010203 (by decide)).2.mpr fun list there => ?_
    cases there
    exact fun excluded => by cases excluded.1

/-- A group that is wanted from one source is said to be wanted from the others, and not from that. -/
theorem wanted_source_denied :
    ∃ entries, ListenerCall.run [.addFrom 0xE0010203 0x0A000001] [] = .ok entries ∧
      hasMulticastListenerFrom 0xE0010203 0x0A000001 entries = .ok false ∧
      hasMulticastListenerFrom 0xE0010203 0x0A000002 entries = .ok true ∧
      0x0A000001 ∈ listenersAfter [.addFrom 0xE0010203 0x0A000001] 0xE0010203 ∧
      0x0A000002 ∉ listenersAfter [.addFrom 0xE0010203 0x0A000001] 0xE0010203 := by
  refine ⟨_, rfl, by decide, by decide, ?_, ?_⟩
  · simp [listenersAfter, ListenerCall.apply]
  · simp [listenersAfter, ListenerCall.apply]

end Inet.Ipv4

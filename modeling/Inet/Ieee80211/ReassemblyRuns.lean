import Inet.Ieee80211.BasicReassembly

/-!
# Runs of reassembly

Entries of MSDUs that are never completed stay. Frames are not mixed as long as no fragment is put
to those of another MSDU, and an operation erases what it should as long as the entries around its
keys compare as their sequence numbers follow each other.
-/
namespace Inet.Ieee80211

open Lib BasicReassembly

variable {P : Type}

inductive ReassemblyCall (P : Type) where
  | addFragment (frame : FragmentFrame P)
  | purge (address : MacAddress) (tid : Int) (startSeqNumber endSeqNumber : SequenceNumber)

def ReassemblyCall.apply (fragmentsMap : FragmentsMap P) : ReassemblyCall P →
    Except ReassemblyError (Option (DefragmentedFrame P) × FragmentsMap P)
  | .addFragment frame => BasicReassembly.addFragment fragmentsMap frame
  | .purge address tid startSeqNumber endSeqNumber => do
    let fragmentsMap ← BasicReassembly.purge fragmentsMap address tid startSeqNumber.toNat
      endSeqNumber.toNat
    return (none, fragmentsMap)

/-- Runs of calls that are allowed, with the map they leave and the frames they return. -/
inductive ReassemblyReached (allowed : FragmentsMap P → ReassemblyCall P → Prop) :
    FragmentsMap P → List (DefragmentedFrame P) → Prop where
  | init : ReassemblyReached allowed [] []
  | step {fragmentsMap after returned result} (earlier : ReassemblyReached allowed fragmentsMap returned)
      (call : ReassemblyCall P) (may : allowed fragmentsMap call)
      (applied : call.apply fragmentsMap = .ok (result, after)) :
      ReassemblyReached allowed after (returned ++ result.toList)

/-! ### Purging -/

/-- The sequence number is one from the first to the last one, which may have wrapped. -/
def inRange (startSeqNumber endSeqNumber seqNum : SequenceNumber) : Bool :=
  decide ((seqNum - startSeqNumber).toNat ≤ (endSeqNumber - startSeqNumber).toNat)

section Purge

variable (fragmentsMap : FragmentsMap P) (address : MacAddress) (tid : Int)
  (startSeqNumber endSeqNumber : SequenceNumber)

/-- The entry is one that is to be purged. -/
def designated (entry : Key × Value P) : Bool :=
  entry.1.macAddress == address && entry.1.tid == Int8.ofInt tid &&
    inRange startSeqNumber endSeqNumber entry.1.seqNum

/-- The designated entries are erased, and no others. -/
def PurgesExactly : Prop :=
  purge fragmentsMap address tid startSeqNumber.toNat endSeqNumber.toNat =
    .ok (fragmentsMap.filter fun entry =>
      !designated address tid startSeqNumber endSeqNumber entry)

/-- The entry counts as one before the first sequence number. -/
def before (entry : Key × Value P) : Bool :=
  Key.less entry.1 ⟨address, Int8.ofInt tid, startSeqNumber⟩

/-- The entry counts as one behind the last sequence number. -/
def behindEnd (entry : Key × Value P) : Bool :=
  Key.less ⟨address, Int8.ofInt tid, endSeqNumber⟩ entry.1

/-- The map is in order around the two keys, and the entries compare with them as they should. From a
higher to a lower number, the entries that stay are those that count both as before the first and as
behind the last one. -/
def PurgeFits : Prop :=
  OrderedMap.Searchable Key.less fragmentsMap ⟨address, Int8.ofInt tid, startSeqNumber⟩ ∧
  OrderedMap.UpperSearchable Key.less fragmentsMap ⟨address, Int8.ofInt tid, endSeqNumber⟩ ∧
  if endSeqNumber.toNat < startSeqNumber.toNat then
    ((∃ entry ∈ fragmentsMap, before address tid startSeqNumber entry = true ∧
        behindEnd address tid endSeqNumber entry = true) ∨
      ∀ entry ∈ fragmentsMap, behindEnd address tid endSeqNumber entry = false) ∧
    ∀ entry ∈ fragmentsMap, designated address tid startSeqNumber endSeqNumber entry =
      !(before address tid startSeqNumber entry && behindEnd address tid endSeqNumber entry)
  else
    (∀ entry ∈ fragmentsMap, ¬ (before address tid startSeqNumber entry = true ∧
      behindEnd address tid endSeqNumber entry = true)) ∧
    ∀ entry ∈ fragmentsMap, designated address tid startSeqNumber endSeqNumber entry =
      !(before address tid startSeqNumber entry || behindEnd address tid endSeqNumber entry)

end Purge

theorem toSequenceNumber_toNat (seqNum : SequenceNumber) :
    toSequenceNumber seqNum.toNat = .ok seqNum := by
  have small := seqNum.isLt
  have value : (seqNum.toNat : Int).bmod 65536 = seqNum.toNat := by
    rw [Int.bmod_def]
    omega
  have inside : (0 : Int) ≤ seqNum.toNat ∧ (seqNum.toNat : Int) < 4096 := by omega
  rw [toSequenceNumber]
  simp only [value, inside, and_self, if_true]
  exact congrArg Except.ok (BitVec.eq_of_toNat_eq (by simp))

/-! ### Two bounds in one map -/

section Bounds

variable {α : Type} {p q kept : α → Bool} {front back first last : List α}

theorem filter_eq_filter_iff {items : List α} :
    items.filter p = items.filter q ↔ ∀ item ∈ items, p item = q item := by
  constructor
  · intro same item member
    rw [Bool.eq_iff_iff]
    have kept := congrArg (item ∈ ·) same
    simpa [List.mem_filter, member] using kept
  · exact List.filter_congr

/-- A map is cut before the entries without a property, and before those with another one. Either
cut may be the first one. -/
structure TwoCuts (p q : α → Bool) (front back first last : List α) : Prop where
  same : front ++ back = first ++ last
  front : ∀ item ∈ front, p item = true
  back : ∀ item ∈ back, p item = false
  first : ∀ item ∈ first, q item = false
  last : ∀ item ∈ last, q item = true

/-- What is between the cuts has neither property, or both. -/
inductive CutOrder (p q : α → Bool) (front back first last : List α) : Prop where
  | inOrder (middle : List α) (first_eq : first = front ++ middle) (back_eq : back = middle ++ last)
      (none : ∀ item ∈ front ++ back, ¬ (p item = true ∧ q item = true))
      (ends : front ++ last = (front ++ back).filter fun item => p item || q item)
  | crossed (middle : List α) (nonempty : middle ≠ []) (front_eq : front = first ++ middle)
      (last_eq : last = middle ++ back)
      (both : ∀ item ∈ middle, p item = true ∧ q item = true)
      (inner : middle = (front ++ back).filter fun item => p item && q item)

theorem TwoCuts.inOrder {middle : List α}
    (cuts : TwoCuts p q front (middle ++ last) (front ++ middle) last) :
    CutOrder p q front (middle ++ last) (front ++ middle) last := by
  have neither (item : α) (member : item ∈ middle) : p item = false ∧ q item = false :=
    ⟨cuts.back item (List.mem_append_left _ member),
      cuts.first item (List.mem_append_right _ member)⟩
  have only_front (item : α) (member : item ∈ front) : p item = true ∧ q item = false :=
    ⟨cuts.front item member, cuts.first item (List.mem_append_left _ member)⟩
  have only_last (item : α) (member : item ∈ last) : p item = false ∧ q item = true :=
    ⟨cuts.back item (List.mem_append_right _ member), cuts.last item member⟩
  refine .inOrder middle rfl rfl ?_ ?_
  · rintro item member ⟨has_p, has_q⟩
    rcases List.mem_append.mp member with inFront | inBack
    · rw [(only_front item inFront).2] at has_q
      cases has_q
    · rw [cuts.back item inBack] at has_p
      cases has_p
  · have front_kept : front.filter (fun item => p item || q item) = front :=
      List.filter_eq_self.mpr fun item member => by simp [only_front item member]
    have middle_gone : middle.filter (fun item => p item || q item) = [] :=
      List.filter_eq_nil_iff.mpr fun item member => by simp [neither item member]
    have last_kept : last.filter (fun item => p item || q item) = last :=
      List.filter_eq_self.mpr fun item member => by simp [only_last item member]
    rw [List.filter_append, List.filter_append, front_kept, middle_gone, last_kept,
      List.nil_append]

theorem TwoCuts.crossed {middle : List α} (nonempty : middle ≠ [])
    (cuts : TwoCuts p q (first ++ middle) back first (middle ++ back)) :
    CutOrder p q (first ++ middle) back first (middle ++ back) := by
  have both (item : α) (member : item ∈ middle) : p item = true ∧ q item = true :=
    ⟨cuts.front item (List.mem_append_right _ member),
      cuts.last item (List.mem_append_left _ member)⟩
  have first_gone : first.filter (fun item => p item && q item) = [] :=
    List.filter_eq_nil_iff.mpr fun item member => by simp [cuts.first item member]
  have middle_kept : middle.filter (fun item => p item && q item) = middle :=
    List.filter_eq_self.mpr fun item member => by simp [both item member]
  have back_gone : back.filter (fun item => p item && q item) = [] :=
    List.filter_eq_nil_iff.mpr fun item member => by simp [cuts.back item member]
  refine .crossed middle nonempty rfl rfl both ?_
  rw [List.filter_append, List.filter_append, first_gone, middle_kept, back_gone,
    List.append_nil, List.nil_append]

theorem TwoCuts.order (cuts : TwoCuts p q front back first last) :
    CutOrder p q front back first last := by
  rcases List.append_eq_append_iff.mp cuts.same with ⟨middle, rfl, rfl⟩ | ⟨middle, rfl, rfl⟩
  · exact cuts.inOrder
  · by_cases nonempty : middle = []
    · subst nonempty
      rw [List.append_nil, List.nil_append] at *
      have cuts : TwoCuts p q first ([] ++ back) (first ++ []) back := by
        rw [List.append_nil, List.nil_append]
        exact cuts
      have order := cuts.inOrder
      rw [List.append_nil, List.nil_append] at order
      exact order
    · exact cuts.crossed nonempty

end Bounds

/-! ### When purging is exact -/

section Loops

variable {p q kept : Key × Value P → Bool} {front back first last : FragmentsMap P}

/-- The loop between two bounds erases what is kept from being before the first or behind the second
one. -/
theorem eraseRange_exact_iff (cuts : TwoCuts p q front back first last)
    (kept : Key × Value P → Bool) :
    eraseRange (front ++ back) front.length first.length = .ok ((front ++ back).filter kept) ↔
      (∀ entry ∈ front ++ back, ¬ (p entry = true ∧ q entry = true)) ∧
        ∀ entry ∈ front ++ back, (p entry || q entry) = kept entry := by
  cases cuts.order with
  | inOrder middle first_eq back_eq none ends =>
    have bounds : front.length ≤ first.length := by
      rw [first_eq, List.length_append]
      omega
    have dropped : (front ++ back).drop first.length = last := by
      rw [cuts.same, List.drop_left]
    rw [eraseRange, if_pos bounds, List.take_left, dropped, ends, Except.ok.injEq,
      filter_eq_filter_iff]
    exact (and_iff_right none).symm
  | crossed middle nonempty front_eq last_eq both inner =>
    have positive := List.length_pos_of_ne_nil nonempty
    have bounds : ¬ front.length ≤ first.length := by
      rw [front_eq, List.length_append]
      omega
    rw [eraseRange, if_neg bounds]
    refine iff_of_false nofun fun ⟨no_both, _⟩ => ?_
    obtain ⟨entry, member⟩ := List.exists_mem_of_ne_nil middle nonempty
    refine no_both entry ?_ (both entry member)
    rw [front_eq]
    exact List.mem_append_left _ (List.mem_append_right _ member)

/-- The loops over the end and the start of the map erase what is before the second bound or not before
the first one. -/
theorem eraseToEnd_exact_iff (cuts : TwoCuts p q front back first last)
    (kept : Key × Value P → Bool) :
    (do
      let (fragmentsMap, itEnd) ← eraseToEnd (front ++ back) front.length first.length
      eraseRange fragmentsMap 0 itEnd) = .ok ((front ++ back).filter kept) ↔
      ((∃ entry ∈ front ++ back, p entry = true ∧ q entry = true) ∨
        ∀ entry ∈ front ++ back, q entry = false) ∧
        ∀ entry ∈ front ++ back, (p entry && q entry) = kept entry := by
  cases cuts.order with
  | inOrder middle first_eq back_eq none ends =>
    have no_both : ¬ ∃ entry ∈ front ++ back, p entry = true ∧ q entry = true :=
      fun ⟨entry, member, both⟩ => none entry member both
    have whole : front ++ back = first ++ last := cuts.same
    rw [or_iff_right no_both, eraseToEnd]
    by_cases at_end : last = []
    · -- the iterator behind the last one is the end, so everything is erased
      subst at_end
      rw [List.append_nil] at whole
      have none_behind : ∀ entry ∈ front ++ back, q entry = false := by
        rw [whole]
        exact cuts.first
      have gone : (front ++ back).filter (fun entry => p entry && q entry) = [] :=
        List.filter_eq_nil_iff.mpr fun entry member => by simp [none_behind entry member]
      rw [if_pos (by rw [whole]), List.take_left, ok_bind]
      simp only
      rw [eraseRange, if_pos (Nat.zero_le _), List.take_zero, List.drop_length, List.nil_append,
        ← gone, Except.ok.injEq, filter_eq_filter_iff]
      exact (and_iff_right none_behind).symm
    · have positive := List.length_pos_of_ne_nil at_end
      have not_end : ¬ first.length = (front ++ back).length := by
        rw [whole, List.length_append]
        omega
      have not_before : ¬ first.length < front.length := by
        rw [first_eq, List.length_append]
        omega
      rw [if_neg not_end, if_neg not_before]
      refine iff_of_false nofun fun ⟨none_behind, _⟩ => ?_
      obtain ⟨entry, member⟩ := List.exists_mem_of_ne_nil last at_end
      have not_behind := none_behind entry (by
        rw [whole]
        exact List.mem_append_right _ member)
      rw [cuts.last entry member] at not_behind
      cases not_behind
  | crossed middle nonempty front_eq last_eq both inner =>
    have positive := List.length_pos_of_ne_nil nonempty
    have not_end : ¬ first.length = (front ++ back).length := by
      rw [cuts.same, last_eq, List.length_append, List.length_append]
      omega
    have before : first.length < front.length := by
      rw [front_eq, List.length_append]
      omega
    have dropped : front.drop first.length = middle := by rw [front_eq, List.drop_left]
    rw [eraseToEnd, if_neg not_end, if_pos before, List.take_left, ok_bind]
    simp only
    rw [eraseRange, if_pos (Nat.zero_le _), List.take_zero, List.nil_append, dropped, inner,
      Except.ok.injEq, filter_eq_filter_iff]
    refine (and_iff_right (.inl ?_)).symm
    obtain ⟨entry, member⟩ := List.exists_mem_of_ne_nil middle nonempty
    refine ⟨entry, ?_, both entry member⟩
    rw [front_eq]
    exact List.mem_append_left _ (List.mem_append_right _ member)

end Loops

/-- Purging is exact if and only if the entries compare as they should. -/
theorem purgesExactly_iff (fragmentsMap : FragmentsMap P) (address : MacAddress) (tid : Int)
    (startSeqNumber endSeqNumber : SequenceNumber) :
    PurgesExactly fragmentsMap address tid startSeqNumber endSeqNumber ↔
      PurgeFits fragmentsMap address tid startSeqNumber endSeqNumber := by
  rw [PurgesExactly, PurgeFits, purge, toSequenceNumber_toNat, toSequenceNumber_toNat]
  simp only [ok_bind, OrderedMap.lowerBound, OrderedMap.upperBound]
  by_cases lower : OrderedMap.Searchable Key.less fragmentsMap
      ⟨address, Int8.ofInt tid, startSeqNumber⟩
  · by_cases upper : OrderedMap.UpperSearchable Key.less fragmentsMap
        ⟨address, Int8.ofInt tid, endSeqNumber⟩
    · have cuts : TwoCuts (before address tid startSeqNumber) (behindEnd address tid endSeqNumber)
          (fragmentsMap.takeWhile (before address tid startSeqNumber))
          (fragmentsMap.dropWhile (before address tid startSeqNumber))
          (fragmentsMap.takeWhile fun entry => !behindEnd address tid endSeqNumber entry)
          (fragmentsMap.dropWhile fun entry => !behindEnd address tid endSeqNumber entry) := by
        refine ⟨?_, fun _ member => List.mem_takeWhile_imp member, lower, fun _ member => ?_, upper⟩
        · rw [List.takeWhile_append_dropWhile, List.takeWhile_append_dropWhile]
        · simpa using List.mem_takeWhile_imp member
      have whole := List.takeWhile_append_dropWhile (p := before address tid startSeqNumber)
        (l := fragmentsMap)
      have range := eraseRange_exact_iff cuts (fun entry =>
        !designated address tid startSeqNumber endSeqNumber entry)
      have to_end := eraseToEnd_exact_iff cuts (fun entry =>
        !designated address tid startSeqNumber endSeqNumber entry)
      rw [whole] at range to_end
      have flip (entry : Key × Value P) (erased : Bool) :
          designated address tid startSeqNumber endSeqNumber entry = !erased ↔
            erased = !designated address tid startSeqNumber endSeqNumber entry := by
        cases erased <;> simp
      simp only [flip]
      rw [if_pos lower, ok_bind, if_pos upper, ok_bind, and_iff_right lower, and_iff_right upper]
      by_cases wrapped : endSeqNumber.toNat < startSeqNumber.toNat
      · rw [if_pos wrapped, if_pos (by exact_mod_cast wrapped)]
        exact to_end
      · rw [if_neg wrapped, if_neg (by exact_mod_cast wrapped)]
        exact range
    · rw [if_pos lower, ok_bind, if_neg upper]
      exact iff_of_false nofun fun fits => upper fits.2.1
  · rw [if_neg lower]
    exact iff_of_false nofun fun fits => lower fits.1

/-! ### Frames of one MSDU -/

section Transmissions

variable {M : Type} (transmission : P → M)

/-- The frames carry parts of the same transmission of an MSDU. -/
def Unmixed (frames : List (FragmentFrame P)) : Prop :=
  ∀ a ∈ frames, ∀ b ∈ frames, transmission a.packet = transmission b.packet

/-- What an entry holds where a fragment would be stored is of the same transmission, and the map is in
order around the key. -/
def AddFits (fragmentsMap : FragmentsMap P) (frame : FragmentFrame P) : Prop :=
  isWhole frame.header = false →
    OrderedMap.Searchable Key.less fragmentsMap (keyOf frame.header) ∧
      ∀ value, valueOf fragmentsMap (keyOf frame.header) = .ok value →
        value.slot frame.header.fragmentNumber.toNat = none →
          ∀ other ∈ value.stored, transmission other.packet = transmission frame.packet

/-- The calls that keep entries of different MSDUs apart. -/
def ReassemblyCall.Fits (fragmentsMap : FragmentsMap P) : ReassemblyCall P → Prop
  | .addFragment frame => AddFits transmission fragmentsMap frame
  | .purge address tid startSeqNumber endSeqNumber =>
    PurgeFits fragmentsMap address tid startSeqNumber endSeqNumber

variable {transmission} {fragmentsMap : FragmentsMap P} {value : Value P} {frame : FragmentFrame P}
  {fragNum : Nat}

theorem mem_resized {stored : FragmentFrame P} (member : some stored ∈ value.resized) :
    some stored ∈ value.fragments := by
  rcases List.mem_append.mp (List.mem_of_mem_take member) with old | new
  · exact old
  · cases (List.mem_replicate.mp new).2

/-- An updated entry holds what it held, and the fragment if its slot was empty. -/
theorem mem_update {stored : FragmentFrame P} (member : stored ∈ (value.update frame fragNum).stored) :
    stored ∈ value.stored ∨ (value.slot fragNum = none ∧ stored = frame) := by
  have old {stored : FragmentFrame P} (member : some stored ∈ value.resized) :
      stored ∈ value.stored :=
    List.mem_filterMap.mpr ⟨some stored, mem_resized member, rfl⟩
  obtain ⟨entry, member, same⟩ := List.mem_filterMap.mp member
  obtain rfl : entry = some stored := same
  simp only [Value.update] at member
  split at member
  next empty =>
    rcases List.mem_or_eq_of_mem_set member with kept | new
    · exact .inl (old kept)
    · exact .inr ⟨Option.isNone_iff_eq_none.mp empty, Option.some.inj new⟩
  next => exact .inl (old member)

theorem length_resized : value.resized.length = MAX_NUM_FRAGMENTS := by
  simp [Value.resized]

/-- There is a frame in an updated entry. -/
theorem update_nonempty (value : Value P) (frame : FragmentFrame P)
    (inside : fragNum < MAX_NUM_FRAGMENTS) :
    (value.update frame fragNum).stored ≠ [] := by
  have within : fragNum < value.resized.length := by
    rw [length_resized]
    exact inside
  apply List.ne_nil_of_mem
  case a => exact (value.slot fragNum).getD frame
  refine List.mem_filterMap.mpr ⟨some ((value.slot fragNum).getD frame), ?_, rfl⟩
  simp only [Value.update]
  cases taken : value.slot fragNum with
  | none =>
    rw [if_pos Option.isNone_none]
    exact List.mem_set within _
  | some stored =>
    rw [if_neg (by simp)]
    rw [Value.slot, List.getD_eq_getElem?_getD, List.getElem?_eq_getElem within,
      Option.getD_some] at taken
    rw [Option.getD_some, ← taken]
    exact List.getElem_mem within

/-- All entries hold frames of one transmission. -/
def EntriesUnmixed (transmission : P → M) (fragmentsMap : FragmentsMap P) : Prop :=
  ∀ entry ∈ fragmentsMap, Unmixed transmission entry.2.stored

theorem valueOf_unmixed {key : Key} (entries : EntriesUnmixed transmission fragmentsMap)
    (found : valueOf fragmentsMap key = .ok value) : Unmixed transmission value.stored := by
  obtain ⟨held, searched, ⟨⟩⟩ := bind_eq_ok.mp found
  cases held with
  | none => exact nofun
  | some value =>
    obtain ⟨entry, member, rfl⟩ := OrderedMap.mem_of_find _ _ searched
    exact entries entry member

theorem update_unmixed (unmixed : Unmixed transmission value.stored)
    (fits : value.slot fragNum = none →
      ∀ other ∈ value.stored, transmission other.packet = transmission frame.packet) :
    Unmixed transmission (value.update frame fragNum).stored := by
  intro a inA b inB
  rcases mem_update inA with oldA | ⟨empty, rfl⟩
  · rcases mem_update inB with oldB | ⟨empty, rfl⟩
    · exact unmixed a oldA b oldB
    · exact fits empty a oldA
  · rcases mem_update inB with oldB | ⟨_, rfl⟩
    · exact (fits empty b oldB).symm
    · rfl

/-- What a call keeps: entries and returned frames are of one transmission each. -/
theorem addFragment_unmixed {result : Option (DefragmentedFrame P)} {after : FragmentsMap P}
    (entries : EntriesUnmixed transmission fragmentsMap)
    (fits : AddFits transmission fragmentsMap frame)
    (added : addFragment fragmentsMap frame = .ok (result, after)) :
    EntriesUnmixed transmission after ∧
      ∀ returned ∈ result.toList, ∃ msdu, ∀ packet ∈ returned.packets, transmission packet = msdu := by
  unfold addFragment at added
  split at added
  next =>
    cases added
    refine ⟨entries, fun returned member => ?_⟩
    rw [List.mem_singleton.mp member]
    exact ⟨transmission frame.packet, fun packet only => by rw [List.mem_singleton.mp only]⟩
  next part =>
    obtain ⟨_, fits⟩ := fits (Bool.not_eq_true _ ▸ part)
    split at added
    next => cases added
    obtain ⟨value, found, added⟩ := bind_eq_ok.mp added
    obtain ⟨altered, alters, added⟩ := bind_eq_ok.mp added
    have unmixed := update_unmixed (valueOf_unmixed entries found) (fits value found)
    have altered_unmixed : EntriesUnmixed transmission altered := by
      intro entry member
      rcases OrderedMap.mem_of_alter _ _ alters entry member with old | new
      · exact entries entry old
      · rw [new]
        exact unmixed
    split at added
    next =>
      obtain ⟨defragmented, defragments, added⟩ := bind_eq_ok.mp added
      obtain ⟨erased, erases, ⟨⟩⟩ := bind_eq_ok.mp added
      refine ⟨fun entry member => altered_unmixed entry (OrderedMap.mem_of_erase _ _ erases entry member),
        fun returned member => ?_⟩
      rw [List.mem_singleton.mp member]
      cases stored : (value.update frame frame.header.fragmentNumber.toNat).stored with
      | nil =>
        rw [stored] at defragments
        cases defragments
      | cons first rest =>
        rw [stored] at defragments unmixed
        cases defragments
        refine ⟨transmission first.packet, fun packet member => ?_⟩
        obtain ⟨part, inFrames, rfl⟩ := List.mem_map.mp member
        exact unmixed part inFrames first List.mem_cons_self
    next =>
      cases added
      exact ⟨altered_unmixed, nofun⟩

theorem less_irrefl (key : Key) : Key.less key key = false := by
  simp [Key.less, SequenceNumber.less, Int8.lt_irrefl]

/-- A fragment that fits is added. -/
theorem addFragment_returns (fits : AddFits transmission fragmentsMap frame)
    (low : 0 ≤ frame.header.fragmentNumber)
    (high : frame.header.fragmentNumber < MAX_NUM_FRAGMENTS) :
    ∃ result, addFragment fragmentsMap frame = .ok result := by
  unfold addFragment
  split
  next => exact ⟨_, rfl⟩
  next part =>
    obtain ⟨searchable, _⟩ := fits (Bool.not_eq_true _ ▸ part)
    rw [if_neg (by omega)]
    obtain ⟨found, finds⟩ := OrderedMap.find_returns Key.less ReassemblyError.unordered searchable
    simp only [valueOf, finds, ok_bind, pure_bind]
    obtain ⟨altered, alters⟩ := OrderedMap.alter_returns Key.less ReassemblyError.unordered
      searchable fun _ => (found.getD {}).update frame frame.header.fragmentNumber.toNat
    rw [alters, ok_bind]
    split
    next =>
      obtain ⟨erased, erases⟩ := OrderedMap.erase_returns Key.less ReassemblyError.unordered
        (OrderedMap.searchable_alter _ _ (less_irrefl _) alters)
      obtain ⟨first, rest, stored⟩ := List.exists_cons_of_ne_nil
        (update_nonempty (found.getD {}) frame
          (show frame.header.fragmentNumber.toNat < MAX_NUM_FRAGMENTS by omega))
      rw [stored, erases]
      exact ⟨_, rfl⟩
    next => exact ⟨_, rfl⟩

/-- One call keeps transmissions apart. -/
theorem apply_unmixed {call : ReassemblyCall P} {result : Option (DefragmentedFrame P)}
    {after : FragmentsMap P} (entries : EntriesUnmixed transmission fragmentsMap)
    (fits : call.Fits transmission fragmentsMap)
    (applied : call.apply fragmentsMap = .ok (result, after)) :
    EntriesUnmixed transmission after ∧
      ∀ returned ∈ result.toList, ∃ msdu, ∀ packet ∈ returned.packets, transmission packet = msdu := by
  cases call with
  | addFragment frame => exact addFragment_unmixed entries fits applied
  | purge address tid startSeqNumber endSeqNumber =>
    have exact_purge := (purgesExactly_iff fragmentsMap address tid startSeqNumber endSeqNumber).mpr fits
    rw [ReassemblyCall.apply, exact_purge] at applied
    cases applied
    exact ⟨fun entry member => entries entry (List.mem_filter.mp member).1, nofun⟩

/-- A run keeps transmissions apart. -/
theorem reached_unmixed {returned : List (DefragmentedFrame P)}
    (reached : ReassemblyReached (fun map call => ReassemblyCall.Fits transmission map call)
      fragmentsMap returned) :
    EntriesUnmixed transmission fragmentsMap ∧
      ∀ frame ∈ returned, ∃ msdu, ∀ packet ∈ frame.packets, transmission packet = msdu := by
  induction reached with
  | init => exact ⟨nofun, nofun⟩
  | step earlier call fits applied ih =>
    obtain ⟨entries, frames⟩ := ih
    obtain ⟨entries, result_frames⟩ := apply_unmixed entries fits applied
    refine ⟨entries, fun frame member => ?_⟩
    rcases List.mem_append.mp member with old | new
    · exact frames frame old
    · exact result_frames frame new

end Transmissions

/-- In a run whose calls fit, each frame that is returned carries parts of one transmission of an MSDU.
A purge is exact in such a run exactly if it fits, and a fragment that fits is added. -/
theorem reassembly_exact {M : Type} (transmission : P → M) {fragmentsMap : FragmentsMap P}
    {returned : List (DefragmentedFrame P)}
    (reached : ReassemblyReached (fun fragmentsMap call => ReassemblyCall.Fits transmission fragmentsMap call)
      fragmentsMap returned) :
    (∀ frame ∈ returned, ∃ msdu, ∀ packet ∈ frame.packets, transmission packet = msdu) ∧
      (∀ address tid startSeqNumber endSeqNumber,
        PurgesExactly fragmentsMap address tid startSeqNumber endSeqNumber ↔
          PurgeFits fragmentsMap address tid startSeqNumber endSeqNumber) ∧
      ∀ frame : FragmentFrame P, 0 ≤ frame.header.fragmentNumber →
        frame.header.fragmentNumber < MAX_NUM_FRAGMENTS → AddFits transmission fragmentsMap frame →
          ∃ result, addFragment fragmentsMap frame = .ok result :=
  ⟨(reached_unmixed reached).2, purgesExactly_iff fragmentsMap, fun _ low high fits =>
    addFragment_returns fits low high⟩

/-! ### Examples -/

/-- A fragment of a transmission of an MSDU with two fragments, from station 1. -/
def fragment (seqNum : SequenceNumber) (fragNum : Nat) (msdu : Nat) : FragmentFrame Nat :=
  ⟨⟨.dataWithQos 0, 1, seqNum, fragNum, decide (fragNum = 0)⟩, msdu⟩

/-- What the first fragment of MSDU 7 leaves. -/
def firstOnly : FragmentsMap Nat :=
  [(⟨1, 0, 9⟩, ⟨some (fragment 9 0 7) :: List.replicate 15 none, 1, 0⟩)]

/-- The frame that is made of a fragment of MSDU 7 and another one. -/
def frameOf (msdu : Nat) : DefragmentedFrame Nat :=
  ⟨⟨.dataWithQos 0, 1, 9, 0, false⟩, [7, msdu]⟩

theorem firstOnly_added : addFragment [] (fragment 9 0 7) = .ok (none, firstOnly) := rfl

theorem second_added : addFragment firstOnly (fragment 9 1 7) = .ok (some (frameOf 7), []) := rfl

theorem firstOnly_reached {allowed : FragmentsMap Nat → ReassemblyCall Nat → Prop}
    (may : allowed [] (.addFragment (fragment 9 0 7))) :
    ReassemblyReached allowed firstOnly [] :=
  .step .init (.addFragment (fragment 9 0 7)) may firstOnly_added

/-- Two fragments of MSDU 7 make up its frame. -/
theorem frameOf_unmixed : ∃ msdu, ∀ packet ∈ (frameOf 7).packets, id packet = msdu := by
  have first_fits : ReassemblyCall.Fits (id : Nat → Nat) [] (.addFragment (fragment 9 0 7)) := by
    refine fun _ => ⟨nofun, fun value found _ => ?_⟩
    cases found
    exact nofun
  have second_fits : ReassemblyCall.Fits (id : Nat → Nat) firstOnly
      (.addFragment (fragment 9 1 7)) := by
    refine fun _ => ⟨by decide, fun value found _ other member => ?_⟩
    cases found
    cases List.mem_singleton.mp (show other ∈ [fragment 9 0 7] from member)
    rfl
  have reached := ReassemblyReached.step (firstOnly_reached first_fits) _ second_fits
    second_added
  exact (reassembly_exact id reached).1 (frameOf 7) List.mem_cons_self

/-- The second fragment is one of an MSDU 4096 numbers later. Purging the fragments of station 2
from 4090 to 5 erases the one of station 1. -/
theorem reassembly_goes_wrong :
    (¬ ∀ (fragmentsMap : FragmentsMap Nat) (returned : List (DefragmentedFrame Nat)),
      ReassemblyReached (fun _ _ => True) fragmentsMap returned →
        ∀ frame ∈ returned, ∃ msdu, ∀ packet ∈ frame.packets, id packet = msdu) ∧
    ¬ ∀ (fragmentsMap : FragmentsMap Nat) (returned : List (DefragmentedFrame Nat)),
      ReassemblyReached (fun _ _ => True) fragmentsMap returned →
        ∀ address tid startSeqNumber endSeqNumber,
          PurgesExactly fragmentsMap address tid startSeqNumber endSeqNumber := by
  have reached : ReassemblyReached (fun _ _ => True) firstOnly [] := firstOnly_reached trivial
  constructor
  · intro all
    have mixed : addFragment firstOnly (fragment 9 1 8) = .ok (some (frameOf 8), []) := by
      decide +kernel
    have reached := ReassemblyReached.step reached (.addFragment (fragment 9 1 8)) trivial mixed
    obtain ⟨msdu, same⟩ := all _ _ reached (frameOf 8) List.mem_cons_self
    have seven := same 7 List.mem_cons_self
    have eight := same 8 (.tail _ List.mem_cons_self)
    exact absurd (seven.trans eight.symm) (by decide)
  · intro all
    have exact_purge := all _ _ reached 2 0 4090 5
    have erased : purge firstOnly 2 0 ((4090 : SequenceNumber).toNat : Int)
        ((5 : SequenceNumber).toNat : Int) = .ok [] := by decide +kernel
    rw [PurgesExactly, erased] at exact_purge
    cases exact_purge

end Inet.Ieee80211

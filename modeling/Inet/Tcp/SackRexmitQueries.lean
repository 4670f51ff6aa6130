import Inet.Tcp.SackRexmitRefinement

/-!
# What is asked of the retransmission queue

Each query walks the regions in its own way. What it answers is what the flags of the bytes say,
however the bytes are split into regions.
-/
namespace Inet.Tcp

open Lib.Serial

variable (b e : SeqNum) (regions : List Region)

namespace TcpSackRexmitQueue

/-- The loop of `getHighestSackedSeqNum` and `getHighestRexmittedSeqNum`, from the last region on. -/
def highestSeqNum (q : TcpSackRexmitQueue) (flag : Region → Bool) : SeqNum :=
  match q.rexmitQueue.reverse.find? flag with
  | some i => i.endSeqNum
  | none => q.begin_

def getHighestSackedSeqNum (q : TcpSackRexmitQueue) : SeqNum := q.highestSeqNum Region.sacked

def getHighestRexmittedSeqNum (q : TcpSackRexmitQueue) : SeqNum := q.highestSeqNum Region.rexmitted

/-- The loop over the regions from `fromSeqNum` on that are sacked or retransmitted. -/
def countSegments (fromSeqNum bytes : SeqNum) : List Region → Except String SeqNum
  | [] => .ok bytes
  | i :: rest =>
    if i.sacked || i.rexmitted then do
      assert (seqLE i.beginSeqNum fromSeqNum && seqLess fromSeqNum i.endSeqNum)
        "seqLE(i->beginSeqNum, fromSeqNum) && seqLess(fromSeqNum, i->endSeqNum)"
      countSegments i.endSeqNum (bytes + (i.endSeqNum - fromSeqNum)) rest
    else .ok bytes

def checkRexmitQueueForSackedOrRexmittedSegments (q : TcpSackRexmitQueue) (fromSeqNum : SeqNum) :
    Except String SeqNum := do
  assert (seqLE q.begin_ fromSeqNum && seqLE fromSeqNum q.end_)
    "seqLE(begin, fromSeqNum) && seqLE(fromSeqNum, end)"
  if q.rexmitQueue.isEmpty || q.end_ == fromSeqNum then return 0
  else countSegments fromSeqNum 0 (q.rexmitQueue.dropWhile fun i => seqLE i.endSeqNum fromSeqNum)

def addSacked (bytes : SeqNum) (elem : Region) : SeqNum :=
  if elem.sacked then bytes + (elem.endSeqNum - elem.beginSeqNum) else bytes

def getTotalAmountOfSackedBytes (q : TcpSackRexmitQueue) : SeqNum :=
  q.rexmitQueue.foldl addSacked 0

/-- The loop of `getAmountOfSackedBytes`, from the last region on, and the region it ends at. -/
def sackedFrom (fromSeqNum : SeqNum) (reversed : List Region) : SeqNum :=
  let bytes := (reversed.takeWhile fun i => seqLE fromSeqNum i.beginSeqNum).foldl addSacked 0
  match reversed.dropWhile fun i => seqLE fromSeqNum i.beginSeqNum with
  | [] => bytes
  | i :: _ =>
    if seqLess i.beginSeqNum fromSeqNum && seqLess fromSeqNum i.endSeqNum && i.sacked then
      bytes + (i.endSeqNum - fromSeqNum)
    else bytes

def getAmountOfSackedBytes (q : TcpSackRexmitQueue) (fromSeqNum : SeqNum) :
    Except String SeqNum := do
  assert (seqLE q.begin_ fromSeqNum && seqLE fromSeqNum q.end_)
    "seqLE(begin, fromSeqNum) && seqLE(fromSeqNum, end)"
  return sackedFrom fromSeqNum q.rexmitQueue.reverse

/-- A round of the loop of `getNumOfDiscontiguousSacks`. -/
def countSack (counted : SeqNum × Bool) (i : Region) : SeqNum × Bool :=
  let (counter, prevSacked) := counted
  (if i.sacked && !prevSacked then counter + 1 else counter, i.sacked)

def getNumOfDiscontiguousSacks (q : TcpSackRexmitQueue) (fromSeqNum : SeqNum) :
    Except String SeqNum := do
  assert (seqLE q.begin_ fromSeqNum && seqLE fromSeqNum q.end_)
    "seqLE(begin, fromSeqNum) && seqLE(fromSeqNum, end)"
  if q.rexmitQueue.isEmpty || fromSeqNum == q.end_ then return 0
  else
    let regions := q.rexmitQueue.dropWhile fun i => seqLE i.endSeqNum fromSeqNum
    return (regions.foldl countSack (0, false)).1

end TcpSackRexmitQueue

/-! ### Answers in terms of bytes -/

namespace ByteMap

/-- The bytes from a sequence number up to the end. -/
def bytes (m : ByteMap) (fromSeqNum : SeqNum) : List SeqNum :=
  (List.range (fwd fromSeqNum m.end_)).map fun k => fromSeqNum + BitVec.ofNat 32 k

def sacked (m : ByteMap) (s : SeqNum) : Bool := (m.flags s).any Prod.fst

def rexmitted (m : ByteMap) (s : SeqNum) : Bool := (m.flags s).any Prod.snd

/-- The last byte of a run of sacked bytes. -/
def endsRun (m : ByteMap) (s : SeqNum) : Bool := m.sacked s && !m.sacked (s + 1)

/-- One past the last byte with a property, and the beginning if there is none. -/
def OnePastLast (m : ByteMap) (flag : SeqNum → Bool) (s : SeqNum) : Prop :=
  (s = m.begin_ ∧ ∀ s', flag s' = false) ∨
    flag (s - 1) = true ∧ ∀ s', flag s' = true → fwd m.begin_ s' ≤ fwd m.begin_ (s - 1)

end ByteMap

/-- The queries answer with what the flags of the bytes say. -/
structure Answers (q : TcpSackRexmitQueue) (m : ByteMap) : Prop where
  highestSacked : m.OnePastLast m.sacked q.getHighestSackedSeqNum
  highestRexmitted : m.OnePastLast m.rexmitted q.getHighestRexmittedSeqNum
  total : q.getTotalAmountOfSackedBytes.toNat = (m.bytes m.begin_).countP m.sacked
  amount : ∀ fromSeqNum, seqLE m.begin_ fromSeqNum = true → seqLE fromSeqNum m.end_ = true →
    ∃ bytes, q.getAmountOfSackedBytes fromSeqNum = .ok bytes ∧
      bytes.toNat = (m.bytes fromSeqNum).countP m.sacked
  discontiguous : ∀ fromSeqNum, seqLE m.begin_ fromSeqNum = true →
    seqLE fromSeqNum m.end_ = true →
    ∃ counter, q.getNumOfDiscontiguousSacks fromSeqNum = .ok counter ∧
      counter.toNat = (m.bytes fromSeqNum).countP m.endsRun
  segments : ∀ fromSeqNum, seqLE m.begin_ fromSeqNum = true → seqLE fromSeqNum m.end_ = true →
    ∃ bytes, q.checkRexmitQueueForSackedOrRexmittedSegments fromSeqNum = .ok bytes ∧
      bytes.toNat = ((m.bytes fromSeqNum).takeWhile fun s => m.sacked s || m.rexmitted s).length

/-! ### Walks over a chain -/

theorem sub_eq_ofNat (a b : SeqNum) : b - a = BitVec.ofNat 32 (fwd a b) := by
  simp only [fwd, BitVec.ofNat_toNat, BitVec.setWidth_eq]

theorem fwd_sub_one (a b : SeqNum) (apart : 0 < fwd a b) : fwd a (b - 1) = fwd a b - 1 := by
  unfold fwd at *
  bv_omega

/-- The region that a number is in, and the ones behind it. -/
theorem dropWhile_chain (s : SeqNum) (regions : List Region) (chained : Chained b regions e)
    (short : (flagsOf regions).length < 2 ^ 31) (inside : fwd b s < (flagsOf regions).length) :
    ∃ i rest, regions.dropWhile (fun i => seqLE i.endSeqNum s) = i :: rest ∧
      fwd i.beginSeqNum s < fwd i.beginSeqNum i.endSeqNum ∧ Chained i.endSeqNum rest e ∧
      fwd i.beginSeqNum i.endSeqNum + (flagsOf rest).length < 2 ^ 31 ∧
      (flagsOf regions).drop (fwd b s) =
        List.replicate (fwd s i.endSeqNum) (i.sacked, i.rexmitted) ++ flagsOf rest := by
  induction regions generalizing b with
  | nil => simp at inside
  | cons i rest ih =>
    obtain ⟨rfl, positive, tail⟩ := chained
    simp only [flagsOf_cons, List.length_append, Region.length_flags] at short inside ⊢
    have ends := seqLE_iff_from i.beginSeqNum i.endSeqNum s (by omega) (by omega)
    by_cases ended : seqLE i.endSeqNum s = true
    · have le := ends.mp ended
      have remaining := fwd_of_le i.beginSeqNum i.endSeqNum s le
      have through : fwd i.beginSeqNum s = i.flags.length + fwd i.endSeqNum s := by
        rw [Region.length_flags]
        omega
      obtain ⟨j, later, found, within, chain, near, flags⟩ :=
        ih i.endSeqNum tail (by omega) (by omega)
      refine ⟨j, later, ?_, within, chain, near, ?_⟩
      · rw [List.dropWhile_cons, if_pos ended, found]
      · rw [through, List.drop_length_add_append, flags]
    · have gt : fwd i.beginSeqNum s < fwd i.beginSeqNum i.endSeqNum := by
        rw [ends] at ended
        omega
      refine ⟨i, rest, ?_, gt, tail, short, ?_⟩
      · rw [List.dropWhile_cons, if_neg ended]
      · rw [List.drop_append_of_le_length (by simpa using gt.le), Region.flags,
          List.drop_replicate, fwd_of_le i.beginSeqNum s i.endSeqNum gt.le]

theorem chained_positive (chained : Chained b regions e) :
    ∀ i ∈ regions, 0 < fwd i.beginSeqNum i.endSeqNum := by
  induction regions generalizing b with
  | nil => exact fun _ member => absurd member (List.not_mem_nil)
  | cons i rest ih =>
    obtain ⟨_, positive, tail⟩ := chained
    intro j member
    rcases List.mem_cons.mp member with rfl | member
    · exact positive
    · exact ih i.endSeqNum tail j member

/-- Behind a number, the regions begin behind it. -/
theorem seqLE_begins (s c e : SeqNum) (regions : List Region) (chained : Chained c regions e)
    (short : fwd s c + (flagsOf regions).length < 2 ^ 31) :
    ∀ i ∈ regions, seqLE s i.beginSeqNum = true := by
  induction regions generalizing c with
  | nil => simp
  | cons i rest ih =>
    obtain ⟨rfl, positive, tail⟩ := chained
    simp only [flagsOf_cons, List.length_append, Region.length_flags] at short
    have onward := fwd_trans s i.beginSeqNum i.endSeqNum (by omega)
    intro j member
    rcases List.mem_cons.mp member with rfl | member
    · rw [seqLE_iff]
      omega
    · exact ih i.endSeqNum tail (by omega) j member

/-- A chain is split by the regions that begin before a number. -/
theorem begins_chain (s : SeqNum) (regions : List Region) (chained : Chained b regions e)
    (short : (flagsOf regions).length < 2 ^ 31) (inside : fwd b s ≤ (flagsOf regions).length) :
    (b = s ∧ ∀ i ∈ regions, seqLE s i.beginSeqNum = true) ∨
      ∃ front i back, regions = front ++ i :: back ∧ 0 < fwd i.beginSeqNum s ∧
        fwd i.beginSeqNum s ≤ fwd i.beginSeqNum i.endSeqNum ∧
        fwd i.beginSeqNum i.endSeqNum < 2 ^ 31 ∧
        (∀ j ∈ back, seqLE s j.beginSeqNum = true) ∧
        (flagsOf regions).drop (fwd b s) =
          List.replicate (fwd s i.endSeqNum) (i.sacked, i.rexmitted) ++ flagsOf back := by
  induction regions generalizing b with
  | nil => exact .inl ⟨(fwd_eq_zero_iff b s).mp (by simpa using inside), by simp⟩
  | cons i rest ih =>
    by_cases here : b = s
    · exact .inl ⟨here, seqLE_begins s b e _ chained (by rw [here, fwd_self]; omega)⟩
    · obtain ⟨rfl, positive, tail⟩ := chained
      simp only [flagsOf_cons, List.length_append, Region.length_flags] at short inside ⊢
      have before : 0 < fwd i.beginSeqNum s := by
        rw [Nat.pos_iff_ne_zero, ne_eq, fwd_eq_zero_iff]
        exact here
      by_cases le : fwd i.beginSeqNum s ≤ fwd i.beginSeqNum i.endSeqNum
      · have rests := fwd_of_le i.beginSeqNum s i.endSeqNum le
        refine .inr ⟨[], i, rest, rfl, before, le, by omega,
          seqLE_begins s i.endSeqNum e rest tail (by omega), ?_⟩
        rw [List.drop_append_of_le_length (by simpa using le), Region.flags,
          List.drop_replicate, rests]
      · have remaining := fwd_of_le i.beginSeqNum i.endSeqNum s (by omega)
        have through : fwd i.beginSeqNum s = i.flags.length + fwd i.endSeqNum s := by
          rw [Region.length_flags]
          omega
        rcases ih i.endSeqNum tail (by omega) (by omega) with
          ⟨rfl, _⟩ | ⟨front, j, back, rfl, before', le', near, begins, flags⟩
        · rw [fwd_self] at remaining
          omega
        · refine .inr ⟨i :: front, j, back, rfl, before', le', near, begins, ?_⟩
          rw [through, List.drop_length_add_append, flags]

/-! ### Counts -/

theorem foldl_addSacked (bytes : SeqNum) :
    regions.foldl TcpSackRexmitQueue.addSacked bytes =
      bytes + BitVec.ofNat 32 ((flagsOf regions).countP Prod.fst) := by
  induction regions generalizing bytes with
  | nil => simp
  | cons i rest ih =>
    rw [List.foldl_cons, ih, flagsOf_cons, List.countP_append, Region.flags, List.countP_replicate,
      TcpSackRexmitQueue.addSacked, sub_eq_ofNat, BitVec.ofNat_add]
    cases i.sacked with
    | true => rw [if_pos rfl, if_pos rfl, BitVec.add_assoc]
    | false => simp

theorem countP_reverse :
    (flagsOf regions.reverse).countP Prod.fst = (flagsOf regions).countP Prod.fst := by
  induction regions with
  | nil => rfl
  | cons i rest ih =>
    rw [List.reverse_cons, flagsOf_append, List.countP_append, ih, flagsOf_cons, flagsOf_cons,
      flagsOf_nil, List.append_nil, List.countP_append, Nat.add_comm]

/-- The number of runs of sacked bytes, each counted at its last byte. -/
def sackRuns (flags : List Flags) : Nat :=
  (List.range flags.length).countP fun k => flags[k]?.any Prod.fst && !flags[k + 1]?.any Prod.fst

theorem sackRuns_cons (f : Flags) (flags : List Flags) :
    sackRuns (f :: flags) =
      (if f.1 && !flags.head?.any Prod.fst then 1 else 0) + sackRuns flags := by
  unfold sackRuns
  rw [List.length_cons, List.range_succ_eq_map, List.countP_cons, List.countP_map, Nat.add_comm]
  congr 1
  simp [List.head?_eq_getElem?]

theorem sackRuns_replicate (f : Flags) (n : Nat) (flags : List Flags) :
    sackRuns (List.replicate (n + 1) f ++ flags) =
      (if f.1 && !flags.head?.any Prod.fst then 1 else 0) + sackRuns flags := by
  induction n with
  | zero => exact sackRuns_cons f flags
  | succ n ih =>
    rw [List.replicate_succ, List.cons_append, sackRuns_cons, ih]
    cases sacked : f.1 <;> simp [List.replicate_succ, sacked]

/-- A run is counted at its first region rather than at its last byte. -/
theorem count_moved (sacked prevSacked next : Bool) (result counter runs : SeqNum)
    (later : result + (if sacked && next then 1 else 0) =
      (if sacked && !prevSacked then counter + 1 else counter) + runs) :
    result + (if prevSacked && sacked then 1 else 0) =
      counter + (BitVec.ofNat 32 (if sacked && !next then 1 else 0) + runs) := by
  cases sacked <;> cases prevSacked <;> cases next <;>
    simp only [Bool.and_true, Bool.and_false, Bool.not_true, Bool.not_false, if_true, if_false,
      Bool.false_eq_true, BitVec.zero_add] at later ⊢ <;> grind

/-- The loop counts a run at its first region. A run that the regions before them end in is not
counted once more. -/
theorem foldl_countSack (counter : SeqNum) (prevSacked : Bool)
    (positive : ∀ i ∈ regions, 0 < fwd i.beginSeqNum i.endSeqNum) :
    (regions.foldl TcpSackRexmitQueue.countSack (counter, prevSacked)).1 +
        (if prevSacked && (flagsOf regions).head?.any Prod.fst then 1 else 0) =
      counter + BitVec.ofNat 32 (sackRuns (flagsOf regions)) := by
  induction regions generalizing counter prevSacked with
  | nil => simp [sackRuns]
  | cons i rest ih =>
    obtain ⟨n, length⟩ := Nat.exists_eq_succ_of_ne_zero
      (Nat.pos_iff_ne_zero.mp (positive i List.mem_cons_self))
    have later := ih (if i.sacked && !prevSacked then counter + 1 else counter) i.sacked
      fun j member => positive j (List.mem_cons_of_mem _ member)
    have head : (flagsOf (i :: rest)).head? = some (i.sacked, i.rexmitted) := by
      rw [flagsOf_cons, Region.flags, length]
      rfl
    rw [head, List.foldl_cons, flagsOf_cons, Region.flags, length, Nat.succ_eq_add_one,
      sackRuns_replicate, BitVec.ofNat_add]
    change (rest.foldl TcpSackRexmitQueue.countSack (_, i.sacked)).1 + _ = _
    exact count_moved _ _ _ _ _ _ later

theorem takeWhile_replicate {p : Flags → Bool} {f : Flags} {n : Nat} {flags : List Flags} :
    ((List.replicate (n + 1) f ++ flags).takeWhile p).length =
      if p f then n + 1 + (flags.takeWhile p).length else 0 := by
  cases holds : p f with
  | true =>
    rw [List.takeWhile_append_of_pos, List.length_append, List.length_replicate, if_pos rfl]
    intro g member
    rw [List.eq_of_mem_replicate member, holds]
  | false =>
    rw [List.replicate_succ, List.cons_append, List.takeWhile_cons, holds]
    rfl

theorem countSegments_cons (s bytes : SeqNum) (i : Region) (rest : List Region)
    (within : fwd i.beginSeqNum s < fwd i.beginSeqNum i.endSeqNum)
    (near : fwd i.beginSeqNum i.endSeqNum < 2 ^ 31) :
    TcpSackRexmitQueue.countSegments s bytes (i :: rest) =
      if i.sacked || i.rexmitted then TcpSackRexmitQueue.countSegments i.endSeqNum
        (bytes + BitVec.ofNat 32 (fwd s i.endSeqNum)) rest
      else .ok bytes := by
  have rests := fwd_of_le i.beginSeqNum s i.endSeqNum within.le
  have inside : (seqLE i.beginSeqNum s && seqLess s i.endSeqNum) = true := by
    rw [Bool.and_eq_true, seqLE_iff, seqLess_iff]
    omega
  rw [TcpSackRexmitQueue.countSegments, inside, sub_eq_ofNat]
  rfl

/-- The loop counts the bytes in front of the first that is neither sacked nor retransmitted. -/
theorem countSegments_eq (s bytes : SeqNum) (i : Region) (rest : List Region)
    (within : fwd i.beginSeqNum s < fwd i.beginSeqNum i.endSeqNum)
    (chained : Chained i.endSeqNum rest e)
    (near : fwd i.beginSeqNum i.endSeqNum + (flagsOf rest).length < 2 ^ 31) :
    TcpSackRexmitQueue.countSegments s bytes (i :: rest) =
      .ok (bytes + BitVec.ofNat 32 ((List.replicate (fwd s i.endSeqNum) (i.sacked, i.rexmitted) ++
        flagsOf rest).takeWhile fun f => f.1 || f.2).length) := by
  induction rest generalizing i s bytes with
  | nil =>
    have rests := fwd_of_le i.beginSeqNum s i.endSeqNum within.le
    obtain ⟨n, length⟩ := Nat.exists_eq_succ_of_ne_zero (n := fwd s i.endSeqNum) (by omega)
    rw [countSegments_cons s bytes i [] within (by omega), length, takeWhile_replicate]
    split
    · rfl
    · rw [BitVec.add_zero]
  | cons j rest ih =>
    have rests := fwd_of_le i.beginSeqNum s i.endSeqNum within.le
    obtain ⟨n, length⟩ := Nat.exists_eq_succ_of_ne_zero (n := fwd s i.endSeqNum) (by omega)
    rw [countSegments_cons s bytes i _ within (by omega), length, takeWhile_replicate]
    obtain ⟨start, positive, tail⟩ := chained
    simp only [flagsOf_cons, List.length_append, Region.length_flags] at near
    split
    · rw [start, ih j.beginSeqNum _ j (by rw [fwd_self]; exact positive) tail (by omega),
        BitVec.ofNat_add, ← BitVec.add_assoc]
      rfl
    · rw [BitVec.add_zero]

/-! ### Flags of bytes -/

namespace Refines

variable {q : TcpSackRexmitQueue} {m : ByteMap}

/-- The flags of the bytes from a number on. -/
theorem flags_add (refines : Refines q m) (fromSeqNum : SeqNum) (k : Nat)
    (near : fwd q.begin_ fromSeqNum + k < 2 ^ 32) :
    m.flags (fromSeqNum + BitVec.ofNat 32 k) =
      ((flagsOf q.rexmitQueue).drop (fwd q.begin_ fromSeqNum))[k]? := by
  have distance : fwd q.begin_ (fromSeqNum + BitVec.ofNat 32 k) = fwd q.begin_ fromSeqNum + k := by
    rw [fwd_trans q.begin_ fromSeqNum _ (by rw [fwd_add _ _ (by omega)]; omega),
      fwd_add _ _ (by omega)]
  rw [refines.flags_eq, lookup, distance, List.getElem?_drop]

theorem length_drop (refines : Refines q m) (fromSeqNum : SeqNum)
    (inside : fwd q.begin_ fromSeqNum ≤ (flagsOf q.rexmitQueue).length) :
    ((flagsOf q.rexmitQueue).drop (fwd q.begin_ fromSeqNum)).length = fwd fromSeqNum m.end_ := by
  have span := refines.span
  rw [List.length_drop, refines.end_eq,
    fwd_of_le q.begin_ fromSeqNum q.end_ (by omega), refines.span]

/-- A test of the bytes from a number on is a test of their flags. -/
theorem map_bytes {β : Type} (refines : Refines q m) (fromSeqNum : SeqNum)
    (inside : fwd q.begin_ fromSeqNum ≤ (flagsOf q.rexmitQueue).length)
    (test : Option Flags → β) :
    (m.bytes fromSeqNum).map (fun s => test (m.flags s)) =
      ((flagsOf q.rexmitQueue).drop (fwd q.begin_ fromSeqNum)).map fun f => test (some f) := by
  have short := refines.short
  have length := refines.length_drop fromSeqNum inside
  unfold ByteMap.bytes
  rw [List.map_map, ← length]
  refine List.ext_getElem (by simp) fun k first second => ?_
  rw [List.length_map] at second
  have bound := second
  rw [List.length_drop] at bound
  rw [List.getElem_map, List.getElem_map, List.getElem_range, Function.comp_apply,
    refines.flags_add fromSeqNum k (by omega), List.getElem?_eq_getElem second]

theorem countP_sacked (refines : Refines q m) (fromSeqNum : SeqNum)
    (inside : fwd q.begin_ fromSeqNum ≤ (flagsOf q.rexmitQueue).length) :
    (m.bytes fromSeqNum).countP m.sacked =
      ((flagsOf q.rexmitQueue).drop (fwd q.begin_ fromSeqNum)).countP Prod.fst := by
  have tests := congrArg (List.countP id) (refines.map_bytes fromSeqNum inside (·.any Prod.fst))
  rw [List.countP_map, List.countP_map] at tests
  exact tests

theorem countP_endsRun (refines : Refines q m) (fromSeqNum : SeqNum)
    (inside : fwd q.begin_ fromSeqNum ≤ (flagsOf q.rexmitQueue).length) :
    (m.bytes fromSeqNum).countP m.endsRun =
      sackRuns ((flagsOf q.rexmitQueue).drop (fwd q.begin_ fromSeqNum)) := by
  have short := refines.short
  unfold ByteMap.bytes sackRuns
  rw [List.countP_map, refines.length_drop fromSeqNum inside]
  refine List.countP_congr fun k member => ?_
  have bound := List.mem_range.mp member
  rw [← refines.length_drop fromSeqNum inside, List.length_drop] at bound
  have next : fromSeqNum + BitVec.ofNat 32 k + 1 = fromSeqNum + BitVec.ofNat 32 (k + 1) := by
    rw [BitVec.ofNat_add, ← BitVec.add_assoc]
    rfl
  rw [Function.comp_apply, ByteMap.endsRun, ByteMap.sacked, ByteMap.sacked, next,
    refines.flags_add fromSeqNum k (by omega), refines.flags_add fromSeqNum (k + 1) (by omega)]

theorem takeWhile_bytes (refines : Refines q m) (fromSeqNum : SeqNum)
    (inside : fwd q.begin_ fromSeqNum ≤ (flagsOf q.rexmitQueue).length) :
    ((m.bytes fromSeqNum).takeWhile fun s => m.sacked s || m.rexmitted s).length =
      (((flagsOf q.rexmitQueue).drop (fwd q.begin_ fromSeqNum)).takeWhile
        fun f => f.1 || f.2).length := by
  have tests := congrArg (fun l => (l.takeWhile id).length) (refines.map_bytes fromSeqNum inside
    fun f => f.any Prod.fst || f.any Prod.snd)
  beta_reduce at tests
  rw [List.takeWhile_map, List.takeWhile_map, List.length_map, List.length_map] at tests
  exact tests

/-! ### Each query -/

theorem toNat_count (refines : Refines q m) {count : Nat} {flags : List Flags}
    (few : count ≤ flags.length) (n : Nat) (part : flags = (flagsOf q.rexmitQueue).drop n) :
    (BitVec.ofNat 32 count).toNat = count := by
  have short := refines.short
  rw [part, List.length_drop] at few
  rw [BitVec.toNat_ofNat, Nat.mod_eq_of_lt (by omega)]

theorem total (refines : Refines q m) :
    q.getTotalAmountOfSackedBytes.toNat = (m.bytes m.begin_).countP m.sacked := by
  rw [refines.begin_eq, refines.countP_sacked q.begin_ (by rw [fwd_self]; exact Nat.zero_le _),
    fwd_self, List.drop_zero, TcpSackRexmitQueue.getTotalAmountOfSackedBytes, foldl_addSacked,
    zero_add]
  exact refines.toNat_count List.countP_le_length 0 rfl

/-- The regions behind a number are counted from the last one, and of the region that it is in what
is behind it. -/
theorem sackedFrom_eq (refines : Refines q m) (s : SeqNum)
    (inside : fwd q.begin_ s ≤ (flagsOf q.rexmitQueue).length) :
    TcpSackRexmitQueue.sackedFrom s q.rexmitQueue.reverse =
      BitVec.ofNat 32 (((flagsOf q.rexmitQueue).drop (fwd q.begin_ s)).countP Prod.fst) := by
  unfold TcpSackRexmitQueue.sackedFrom
  rcases begins_chain q.begin_ q.end_ s q.rexmitQueue refines.chained refines.short inside with
    ⟨here, begins⟩ | ⟨front, i, back, regions, before, le, near, begins, flags⟩
  · have all : ∀ i ∈ q.rexmitQueue.reverse, seqLE s i.beginSeqNum = true := fun i member =>
      begins i (List.mem_reverse.mp member)
    rw [List.takeWhile_eq_self_iff.mpr all, List.dropWhile_eq_nil_iff.mpr all, foldl_addSacked,
      countP_reverse, here, fwd_self, List.drop_zero, zero_add]
  · have all : ∀ j ∈ back.reverse, seqLE s j.beginSeqNum = true := fun j member =>
      begins j (List.mem_reverse.mp member)
    have behind : seqLE s i.beginSeqNum = false := by
      have around := fwd_of_lt i.beginSeqNum s i.beginSeqNum (by rw [fwd_self]; exact before)
      rw [fwd_self] at around
      rw [Bool.eq_false_iff, ne_eq, seqLE_iff]
      omega
    have reversed : q.rexmitQueue.reverse = back.reverse ++ i :: front.reverse := by
      rw [regions, List.reverse_append, List.reverse_cons, List.append_assoc]
      rfl
    have starts : seqLess i.beginSeqNum s = true := by
      rw [seqLess_iff]
      omega
    rw [reversed, List.takeWhile_append_of_pos all, List.dropWhile_append_of_pos all,
      List.takeWhile_cons, List.dropWhile_cons, behind, if_neg nofun, if_neg nofun,
      List.append_nil, foldl_addSacked, countP_reverse, flags, List.countP_append,
      List.countP_replicate, zero_add]
    dsimp only
    rw [starts, Bool.true_and, sub_eq_ofNat, Nat.add_comm, BitVec.ofNat_add]
    have rests := fwd_of_le i.beginSeqNum s i.endSeqNum le
    cases i.sacked with
    | false => simp
    | true =>
      rw [Bool.and_true, if_pos rfl]
      by_cases ends : seqLess s i.endSeqNum = true
      · rw [if_pos ends]
      · have zero : fwd s i.endSeqNum = 0 := by
          rw [seqLess_iff] at ends
          omega
        rw [if_neg ends, zero]
        exact (BitVec.add_zero _).symm

theorem amount (refines : Refines q m) (fromSeqNum : SeqNum)
    (above : seqLE m.begin_ fromSeqNum = true) (below : seqLE fromSeqNum m.end_ = true) :
    ∃ bytes, q.getAmountOfSackedBytes fromSeqNum = .ok bytes ∧
      bytes.toNat = (m.bytes fromSeqNum).countP m.sacked := by
  rw [refines.begin_eq] at above
  rw [refines.end_eq] at below
  have span := refines.span
  have inside := refines.between fromSeqNum above below
  rw [refines.countP_sacked fromSeqNum (by omega)]
  refine ⟨TcpSackRexmitQueue.sackedFrom fromSeqNum q.rexmitQueue.reverse, ?_, ?_⟩
  · unfold TcpSackRexmitQueue.getAmountOfSackedBytes
    rw [above, below]
    rfl
  · rw [refines.sackedFrom_eq fromSeqNum (by omega)]
    exact refines.toNat_count List.countP_le_length _ rfl

/-- At the end nothing is left. -/
theorem inside_of_ne (refines : Refines q m) {fromSeqNum : SeqNum}
    (inside : fwd q.begin_ fromSeqNum ≤ (flagsOf q.rexmitQueue).length)
    (before : (q.rexmitQueue.isEmpty || q.end_ == fromSeqNum) = false) :
    fwd q.begin_ fromSeqNum < (flagsOf q.rexmitQueue).length := by
  refine lt_of_le_of_ne inside fun same => ?_
  rw [← refines.span, fwd_inj] at same
  rw [same, beq_self_eq_true, Bool.or_true] at before
  cases before

theorem nothing_of_end (refines : Refines q m) {fromSeqNum : SeqNum}
    (ends : (q.rexmitQueue.isEmpty || q.end_ == fromSeqNum) = true) :
    (flagsOf q.rexmitQueue).drop (fwd q.begin_ fromSeqNum) = [] := by
  rcases Bool.or_eq_true_iff.mp ends with empty | same
  · rw [List.isEmpty_iff.mp empty, flagsOf_nil, List.drop_nil]
  · rw [← eq_of_beq same, refines.span, List.drop_length]

theorem discontiguous (refines : Refines q m) (fromSeqNum : SeqNum)
    (above : seqLE m.begin_ fromSeqNum = true) (below : seqLE fromSeqNum m.end_ = true) :
    ∃ counter, q.getNumOfDiscontiguousSacks fromSeqNum = .ok counter ∧
      counter.toNat = (m.bytes fromSeqNum).countP m.endsRun := by
  rw [refines.begin_eq] at above
  rw [refines.end_eq] at below
  have span := refines.span
  have inside := refines.between fromSeqNum above below
  rw [span] at inside
  rw [refines.countP_endsRun fromSeqNum inside]
  unfold TcpSackRexmitQueue.getNumOfDiscontiguousSacks
  rw [above, below, BEq.comm (a := fromSeqNum)]
  cases ends : q.rexmitQueue.isEmpty || q.end_ == fromSeqNum with
  | true =>
    rw [refines.nothing_of_end ends]
    exact ⟨0, rfl, rfl⟩
  | false =>
    obtain ⟨i, rest, found, within, chained, near, flags⟩ := dropWhile_chain q.begin_ q.end_
      fromSeqNum q.rexmitQueue refines.chained refines.short (refines.inside_of_ne inside ends)
    refine ⟨_, rfl, ?_⟩
    rw [found]
    have rests := fwd_of_le i.beginSeqNum fromSeqNum i.endSeqNum within.le
    -- Of the first region, only what is behind the number is left.
    have counted := foldl_countSack ({ i with beginSeqNum := fromSeqNum } :: rest) 0 false
      fun j member => by
        rcases List.mem_cons.mp member with rfl | member
        · dsimp only
          omega
        · exact chained_positive _ _ rest chained j member
    rw [Bool.false_and, if_neg nofun, zero_add] at counted
    have same : flagsOf ({ i with beginSeqNum := fromSeqNum } :: rest) =
        (flagsOf q.rexmitQueue).drop (fwd q.begin_ fromSeqNum) := flags.symm
    rw [same] at counted
    refine (congrArg BitVec.toNat ((BitVec.add_zero _).symm.trans counted)).trans ?_
    exact refines.toNat_count (List.countP_le_length.trans (List.length_range).le) _ rfl

theorem segments (refines : Refines q m) (fromSeqNum : SeqNum)
    (above : seqLE m.begin_ fromSeqNum = true) (below : seqLE fromSeqNum m.end_ = true) :
    ∃ bytes, q.checkRexmitQueueForSackedOrRexmittedSegments fromSeqNum = .ok bytes ∧
      bytes.toNat =
        ((m.bytes fromSeqNum).takeWhile fun s => m.sacked s || m.rexmitted s).length := by
  rw [refines.begin_eq] at above
  rw [refines.end_eq] at below
  have span := refines.span
  have inside := refines.between fromSeqNum above below
  rw [span] at inside
  rw [refines.takeWhile_bytes fromSeqNum inside]
  unfold TcpSackRexmitQueue.checkRexmitQueueForSackedOrRexmittedSegments
  rw [above, below]
  cases ends : q.rexmitQueue.isEmpty || q.end_ == fromSeqNum with
  | true =>
    rw [refines.nothing_of_end ends]
    exact ⟨0, rfl, rfl⟩
  | false =>
    obtain ⟨i, rest, found, within, chained, near, flags⟩ := dropWhile_chain q.begin_ q.end_
      fromSeqNum q.rexmitQueue refines.chained refines.short (refines.inside_of_ne inside ends)
    rw [found]
    refine ⟨_, countSegments_eq q.end_ fromSeqNum 0 i rest within chained near, ?_⟩
    rw [← flags, zero_add]
    exact refines.toNat_count (List.takeWhile_sublist _).length_le _ rfl

/-- A byte of a flagged region is in the list of flags. -/
theorem flags_of_any (refines : Refines q m) {g : Flags → Bool} {s : SeqNum}
    (flagged : (m.flags s).any g = true) :
    ∃ f, (flagsOf q.rexmitQueue)[fwd q.begin_ s]? = some f ∧ g f = true := by
  rw [refines.flags_eq, lookup] at flagged
  exact (Option.any_eq_true _ _).mp flagged

/-- The last flagged region ends one past the last flagged byte. -/
theorem highest (refines : Refines q m) (flag : Region → Bool) (g : Flags → Bool)
    (same : ∀ i : Region, flag i = g (i.sacked, i.rexmitted)) :
    m.OnePastLast (fun s => (m.flags s).any g) (q.highestSeqNum flag) := by
  have short := refines.short
  unfold TcpSackRexmitQueue.highestSeqNum
  cases found : q.rexmitQueue.reverse.find? flag with
  | none =>
    refine .inl ⟨refines.begin_eq.symm, fun s => ?_⟩
    by_contra flagged
    obtain ⟨f, there, holds⟩ := refines.flags_of_any (Bool.not_eq_false _ ▸ flagged)
    obtain ⟨i, member, inside⟩ := List.mem_flatMap.mp (List.mem_of_getElem? there)
    have fails := List.find?_eq_none.mp found i (List.mem_reverse.mpr member)
    rw [List.eq_of_mem_replicate inside, ← same] at holds
    exact fails holds
  | some i =>
    obtain ⟨holds, later, earlier, reversed, fails⟩ := List.find?_eq_some_iff_append.mp found
    have regions : q.rexmitQueue = (earlier.reverse ++ [i]) ++ later.reverse := by
      rw [← List.reverse_reverse q.rexmitQueue, reversed, List.reverse_append, List.reverse_cons]
    have chained := refines.chained
    rw [regions, chained_append] at chained
    obtain ⟨e, front, _⟩ := chained
    obtain ⟨c, _, rfl, positive, ends⟩ := (chained_append _ _ _ _).mp front
    obtain rfl : i.endSeqNum = e := ends
    have flags : flagsOf q.rexmitQueue =
        flagsOf (earlier.reverse ++ [i]) ++ flagsOf later.reverse := by
      rw [regions, flagsOf_append]
    have length := congrArg List.length flags
    rw [List.length_append] at length
    have reaches := chained_length _ _ _ front (by omega)
    have last : (flagsOf (earlier.reverse ++ [i])).length =
        (flagsOf earlier.reverse).length + fwd i.beginSeqNum i.endSeqNum := by
      rw [flagsOf_append, List.length_append, flagsOf_cons, flagsOf_nil, List.append_nil,
        Region.length_flags]
    have before := fwd_sub_one q.begin_ i.endSeqNum (by omega)
    refine .inr ⟨?_, fun s flagged => ?_⟩ <;> dsimp only
    · rw [refines.flags_eq, lookup, before, flags, List.getElem?_append_left (by omega),
        flagsOf_append, List.getElem?_append_right (by omega), flagsOf_cons, flagsOf_nil,
        List.append_nil, Region.flags, List.getElem?_replicate, if_pos (by omega), Option.any_some,
        ← same]
      exact holds
    · obtain ⟨f, there, holds'⟩ := refines.flags_of_any flagged
      rw [refines.begin_eq, before, reaches]
      by_contra behind
      rw [flags, List.getElem?_append_right (by omega)] at there
      obtain ⟨j, member, inside⟩ := List.mem_flatMap.mp (List.mem_of_getElem? there)
      rw [List.eq_of_mem_replicate inside, ← same] at holds'
      exact absurd holds' (by simpa using fails j (List.mem_reverse.mp member))

theorem answers (refines : Refines q m) : Answers q m where
  highestSacked := refines.highest Region.sacked Prod.fst fun _ => rfl
  highestRexmitted := refines.highest Region.rexmitted Prod.snd fun _ => rfl
  total := refines.total
  amount := refines.amount
  discontiguous := refines.discontiguous
  segments := refines.segments

end Refines

/-- The bytes of a queue with the flags of the regions they are in. -/
def TcpSackRexmitQueue.byteMap (q : TcpSackRexmitQueue) : ByteMap where
  begin_ := q.begin_
  end_ := q.end_
  flags s := (q.regionAt s).map fun i => (i.sacked, i.rexmitted)

end Inet.Tcp

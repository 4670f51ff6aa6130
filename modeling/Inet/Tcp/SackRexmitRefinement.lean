import Inet.Tcp.SackRexmitQueue

/-!
# The retransmission queue as a map from bytes to flags

The reference keeps one pair of flags for each byte between its two ends. The queue
refines it: laid out byte by byte, its regions are the reference's flags in order, so
every mutator is a `take`, `drop` and `map` on that list.
-/
namespace Inet.Tcp

open Lib.Serial

variable (b : SeqNum) (a : Nat) (i : Region) (t : Nat) (e s : SeqNum) (regions : List Region)

/-! ### The reference -/

/-- The sacked and the rexmitted flag of a byte. -/
abbrev Flags := Bool × Bool

structure ByteMap where
  begin_ : SeqNum
  end_ : SeqNum
  flags : SeqNum → Option Flags

/-- `setSackedBit` ignores what lies before the queue. -/
def clampFrom (begin_ fromSeqNum : SeqNum) : SeqNum :=
  if seqLess fromSeqNum begin_ then begin_ else fromSeqNum

/-- A byte sent once more counts as retransmitted, a byte sent first starts clear. -/
def sentAgain : Option Flags → Flags
  | some (sacked, _) => (sacked, true)
  | none => (false, false)

namespace ByteMap

def empty (seqNum : SeqNum) : ByteMap := ⟨seqNum, seqNum, fun _ => none⟩

def step (m : ByteMap) : RexmitCall → ByteMap
  | .init seqNum => empty seqNum
  | .enqueueSentData fromSeqNum toSeqNum =>
    { m with
      end_ := if fwd m.begin_ m.end_ ≤ fwd m.begin_ toSeqNum then toSeqNum else m.end_
      flags := fun s =>
        if Within fromSeqNum toSeqNum s then some (sentAgain (m.flags s)) else m.flags s }
  | .setSackedBit fromSeqNum toSeqNum =>
    { m with
      flags := fun s =>
        if Within (clampFrom m.begin_ fromSeqNum) toSeqNum s then
          (m.flags s).map fun f => (true, f.2)
        else m.flags s }
  | .discardUpTo seqNum =>
    { m with
      begin_ := seqNum
      flags := fun s => if Within m.begin_ seqNum s then none else m.flags s }
  | .resetSackedBit => { m with flags := fun s => (m.flags s).map fun f => (false, f.2) }
  | .resetRexmittedBit => { m with flags := fun s => (m.flags s).map fun f => (f.1, false) }

/-- The reference after a run that starts with a constructed queue. -/
def run (calls : List RexmitCall) : ByteMap := calls.foldl step (empty 0)

end ByteMap

/-- What the mutators assert about their arguments, with the bound on the total span. -/
def RexmitCall.Admissible (m : ByteMap) : RexmitCall → Prop
  | .init _ => True
  | .enqueueSentData fromSeqNum toSeqNum =>
    seqLE m.begin_ fromSeqNum = true ∧ seqLE fromSeqNum m.end_ = true ∧
      seqLess fromSeqNum toSeqNum = true ∧ fwd m.begin_ toSeqNum < 2 ^ 31
  | .setSackedBit fromSeqNum toSeqNum =>
    seqLess (clampFrom m.begin_ fromSeqNum) m.end_ = true ∧
      seqLess m.begin_ toSeqNum = true ∧ seqLE toSeqNum m.end_ = true ∧
      seqLess (clampFrom m.begin_ fromSeqNum) toSeqNum = true
  | .discardUpTo seqNum => seqLE m.begin_ seqNum = true ∧ seqLE seqNum m.end_ = true
  | .resetSackedBit => True
  | .resetRexmittedBit => True

/-- `init` is called on a queue that holds no byte. -/
def RexmitCall.InitOnEmpty (m : ByteMap) : RexmitCall → Prop
  | .init _ => m.begin_ = m.end_
  | _ => True

/-- A property of each call and the reference state it meets holds along a run. -/
def Along (property : ByteMap → RexmitCall → Prop) (m : ByteMap) : List RexmitCall → Prop
  | [] => True
  | call :: rest => property m call ∧ Along property (m.step call) rest

/-- The calls succeed, `checkQueue` holds, and the flags of the region holding a
sequence number are the reference's, which has none outside `[begin, end)`. -/
def Agrees (calls : List RexmitCall) : Prop :=
  ∃ q, runRexmit calls = .ok q ∧ q.checkQueue = true ∧
    q.begin_ = (ByteMap.run calls).begin_ ∧ q.end_ = (ByteMap.run calls).end_ ∧
    (q.begin_ = q.end_ → q.rexmitQueue = []) ∧
    ∀ s, (q.regionAt s).map (fun i => (i.sacked, i.rexmitted)) = (ByteMap.run calls).flags s

/-! ### Chains of regions -/

namespace Region

/-- The flags of a region, once for each of its bytes. -/
def flags (i : Region) : List Flags :=
  List.replicate (fwd i.beginSeqNum i.endSeqNum) (i.sacked, i.rexmitted)

@[simp] theorem length_flags :
    i.flags.length = fwd i.beginSeqNum i.endSeqNum := by
  simp [flags]

end Region

def flagsOf (regions : List Region) : List Flags := regions.flatMap Region.flags

@[simp] theorem flagsOf_nil : flagsOf [] = [] := rfl

@[simp] theorem flagsOf_cons (rest : List Region) :
    flagsOf (i :: rest) = i.flags ++ flagsOf rest := rfl

@[simp] theorem flagsOf_append (xs ys : List Region) :
    flagsOf (xs ++ ys) = flagsOf xs ++ flagsOf ys := by
  simp [flagsOf]

/-- Non-empty regions, each starting where the one before it ends. -/
def Chained (b : SeqNum) : List Region → SeqNum → Prop
  | [], e => b = e
  | i :: rest, e =>
    b = i.beginSeqNum ∧ 0 < fwd i.beginSeqNum i.endSeqNum ∧ Chained i.endSeqNum rest e

theorem chained_append (xs ys : List Region) :
    Chained b (xs ++ ys) e ↔ ∃ m, Chained b xs m ∧ Chained m ys e := by
  induction xs generalizing b with
  | nil => simp [Chained]
  | cons i rest ih => simp [Chained, ih, and_assoc]

/-- The bytes of a short chain are the arc between its ends. -/
theorem chained_length (chained : Chained b regions e)
    (short : (flagsOf regions).length < 2 ^ 31) : fwd b e = (flagsOf regions).length := by
  induction regions generalizing b with
  | nil =>
    obtain rfl : b = e := chained
    simp
  | cons i rest ih =>
    obtain ⟨rfl, -, tail⟩ := chained
    simp only [flagsOf_cons, List.length_append, Region.length_flags] at short ⊢
    have rest_length := ih i.endSeqNum tail (by omega)
    rw [fwd_trans i.beginSeqNum i.endSeqNum e (by omega), rest_length]

theorem checkRegions_iff (short : (flagsOf regions).length < 2 ^ 31) :
    TcpSackRexmitQueue.checkRegions b e regions = true ↔ Chained b regions e := by
  induction regions generalizing b with
  | nil => simp [TcpSackRexmitQueue.checkRegions, Chained]
  | cons i rest ih =>
    simp only [flagsOf_cons, List.length_append, Region.length_flags] at short
    simp only [TcpSackRexmitQueue.checkRegions, Chained, Bool.and_eq_true, beq_iff_eq,
      seqLess_iff, ih i.endSeqNum (by omega), and_assoc]
    constructor
    · rintro ⟨start, positive, -, tail⟩
      exact ⟨start, positive, tail⟩
    · rintro ⟨start, positive, tail⟩
      exact ⟨start, positive, by omega, tail⟩

/-- Seen from the start of a short chain, a region ends by `s` exactly when it has no
more bytes than lie before `s`. -/
private theorem ends_by_iff (i : Region) (start : b = i.beginSeqNum)
    (short : fwd i.beginSeqNum i.endSeqNum < 2 ^ 31) (near : fwd b s < 2 ^ 31) :
    seqLE i.endSeqNum s = true ↔ fwd i.beginSeqNum i.endSeqNum ≤ fwd b s := by
  subst start
  exact seqLE_iff_from i.beginSeqNum i.endSeqNum s (by omega) near

/-- Cutting a region at a point inside it cuts its bytes there. -/
private theorem flags_cut (inside : fwd i.beginSeqNum s ≤ fwd i.beginSeqNum i.endSeqNum) :
    ({ i with endSeqNum := s } : Region).flags = i.flags.take (fwd i.beginSeqNum s) ∧
    ({ i with beginSeqNum := s } : Region).flags = i.flags.drop (fwd i.beginSeqNum s) := by
  have rest := fwd_of_le i.beginSeqNum s i.endSeqNum inside
  constructor
  · simp [Region.flags, inside]
  · simp [Region.flags, rest]

/-! ### The loops -/

namespace TcpSackRexmitQueue

private theorem splitAt_cons_of_ended (rest : List Region) (s : SeqNum)
    (ended : seqLE i.endSeqNum s = true) :
    splitAt (i :: rest) s = (splitAt rest s).map fun p => (i :: p.1, p.2) := by
  simp only [splitAt, List.dropWhile_cons, List.takeWhile_cons, ended, if_true]
  split
  · rfl
  next j after _ =>
    by_cases found : (seqLE j.beginSeqNum s && seqLess s j.endSeqNum) = true
    · by_cases start : (j.beginSeqNum != s) = true
      · simp [assert, found, start, bind, Except.bind, Except.map, pure, Except.pure]
      · simp [assert, found, start, bind, Except.bind, Except.map, pure, Except.pure]
    · simp [assert, found, bind, Except.bind, Except.map]

/-- A number inside a chain splits it, and its bytes, in two. -/
theorem splitAt_chain (chained : Chained b regions e)
    (short : (flagsOf regions).length < 2 ^ 31) (inside : fwd b s < (flagsOf regions).length) :
    ∃ before rest, splitAt regions s = .ok (before, rest) ∧ Chained b before s ∧
      Chained s rest e ∧ flagsOf before = (flagsOf regions).take (fwd b s) ∧
      flagsOf rest = (flagsOf regions).drop (fwd b s) := by
  induction regions generalizing b with
  | nil => simp at inside
  | cons i rest ih =>
    obtain ⟨start, positive, tail⟩ := chained
    simp only [flagsOf_cons, List.length_append, Region.length_flags] at short inside ⊢
    have ends := ends_by_iff b s i start (by omega) (by omega)
    subst start
    by_cases ended : seqLE i.endSeqNum s = true
    · have le := ends.mp ended
      have remaining := fwd_of_le i.beginSeqNum i.endSeqNum s le
      have through : fwd i.beginSeqNum s = i.flags.length + fwd i.endSeqNum s := by
        rw [Region.length_flags]
        omega
      obtain ⟨before, after, found, left, right, flagsLeft, flagsRight⟩ :=
        ih i.endSeqNum tail (by omega) (by omega)
      refine ⟨i :: before, after, ?_, ⟨rfl, positive, left⟩, right, ?_, ?_⟩
      · rw [splitAt_cons_of_ended i rest s ended, found]
        rfl
      · rw [flagsOf_cons, flagsLeft, through, List.take_length_add_append]
      · rw [flagsRight, through, List.drop_length_add_append]
    · have gt : fwd i.beginSeqNum s < fwd i.beginSeqNum i.endSeqNum := by
        rw [ends] at ended
        omega
      have cut := flags_cut i s gt.le
      have remaining := fwd_of_le i.beginSeqNum s i.endSeqNum gt.le
      have holds : (seqLE i.beginSeqNum s && seqLess s i.endSeqNum) = true := by
        rw [Bool.and_eq_true, seqLE_iff, seqLess_iff]
        omega
      by_cases start : i.beginSeqNum = s
      · subst start
        refine ⟨[], i :: rest, ?_, rfl, ⟨rfl, positive, tail⟩, by simp, by simp⟩
        simp [splitAt, ended, assert, holds, bind, Except.bind, pure, Except.pure]
      · have before : 0 < fwd i.beginSeqNum s := by
          rw [Nat.pos_iff_ne_zero, ne_eq, fwd_eq_zero_iff]
          exact start
        refine ⟨[{ i with endSeqNum := s }], { i with beginSeqNum := s } :: rest, ?_,
          ⟨rfl, before, rfl⟩, ⟨rfl, by simp only; omega, tail⟩, ?_, ?_⟩
        · simp [splitAt, ended, assert, holds, start, bind, Except.bind, pure, Except.pure]
        · rw [flagsOf_cons, cut.1, flagsOf_nil, List.append_nil,
            List.take_append_of_le_length (by simpa using gt.le)]
        · rw [flagsOf_cons, cut.2, List.drop_append_of_le_length (by simpa using gt.le)]

/-- The loop of `enqueueSentData` marks whole regions and stops in the one, if any, that
ends behind `t`. -/
theorem markRexmitted_chain (t e s : SeqNum) (rest : List Region) (chained : Chained s rest e)
    (short : (flagsOf rest).length < 2 ^ 31) (near : fwd s t < 2 ^ 31) :
    ∃ marked others last, markRexmitted t rest s = (marked, others, last) ∧
      Chained s marked last ∧ Chained last others e ∧ fwd s last ≤ fwd s t ∧
      flagsOf marked = ((flagsOf rest).take (fwd s last)).map (fun f => (f.1, true)) ∧
      flagsOf others = (flagsOf rest).drop (fwd s last) ∧
      (∀ i after, others = i :: after → fwd last t < fwd i.beginSeqNum i.endSeqNum) := by
  induction rest generalizing s with
  | nil =>
    refine ⟨[], [], s, rfl, rfl, chained, by simp, by simp, by simp, ?_⟩
    intro i after absurd
    cases absurd
  | cons i rest ih =>
    obtain ⟨start, positive, tail⟩ := chained
    simp only [flagsOf_cons, List.length_append, Region.length_flags] at short
    have ends := ends_by_iff s t i start (by omega) near
    subst start
    by_cases ended : seqLE i.endSeqNum t = true
    · have le := ends.mp ended
      have remaining := fwd_of_le i.beginSeqNum i.endSeqNum t le
      obtain ⟨marked, others, last, loop, left, right, reached, flagsLeft, flagsRight, stop⟩ :=
        ih i.endSeqNum tail (by omega) (by omega)
      have through : fwd i.beginSeqNum last = i.flags.length + fwd i.endSeqNum last := by
        rw [Region.length_flags]
        exact fwd_trans i.beginSeqNum i.endSeqNum last (by omega)
      refine ⟨{ i with rexmitted := true } :: marked, others, last, ?_,
        ⟨rfl, positive, left⟩, right, ?_, ?_, ?_, stop⟩
      · simp [markRexmitted, ended, loop]
      · rw [Region.length_flags] at through
        omega
      · rw [flagsOf_cons, flagsLeft, flagsOf_cons, through, List.take_length_add_append,
          List.map_append]
        simp [Region.flags]
      · rw [flagsRight, flagsOf_cons, through, List.drop_length_add_append]
    · refine ⟨[], i :: rest, i.beginSeqNum, ?_, rfl, ⟨rfl, positive, tail⟩, by simp, by simp,
        by simp, ?_⟩
      · simp [markRexmitted, ended]
      · intro j after same
        cases same
        rw [ends] at ended
        omega

/-- What the loop leaves is either new bytes or the head of the region it stopped in. -/
theorem insertRest_chain (t e last : SeqNum) (others : List Region)
    (chained : Chained last others e) (short : (flagsOf others).length < 2 ^ 31)
    (near : fwd last t < 2 ^ 31) (ahead : 0 < fwd last t)
    (stop : ∀ i after, others = i :: after → fwd last t < fwd i.beginSeqNum i.endSeqNum) :
    ∃ regions e', insertRest others last t = .ok regions ∧ Chained last regions e' ∧
      e' = (if others = [] then t else e) ∧
      flagsOf regions = ((flagsOf others).take (fwd last t)).map (fun f => (f.1, true)) ++
        (flagsOf others).drop (fwd last t) ++
        List.replicate (fwd last t - (flagsOf others).length) (false, false) := by
  cases others with
  | nil =>
    refine ⟨[⟨last, t, false, false⟩], t, rfl, ⟨rfl, ahead, rfl⟩, by simp, ?_⟩
    simp [Region.flags]
  | cons i after =>
    obtain ⟨start, positive, tail⟩ := chained
    have inside := stop i after rfl
    simp only [flagsOf_cons, List.length_append, Region.length_flags] at short
    subst start
    have remaining := fwd_of_le i.beginSeqNum t i.endSeqNum inside.le
    have before : seqLess i.beginSeqNum t = true := by
      rw [seqLess_iff]
      omega
    refine ⟨⟨i.beginSeqNum, t, i.sacked, true⟩ :: { i with beginSeqNum := t } :: after, e, ?_,
      ⟨rfl, ahead, rfl, by simp only; omega, tail⟩, by simp, ?_⟩
    · simp [insertRest, assert, before, bind, Except.bind, pure, Except.pure]
    · have cut := (flags_cut i t inside.le).2
      have none_new : fwd i.beginSeqNum t - (flagsOf (i :: after)).length = 0 := by
        simp only [flagsOf_cons, List.length_append, Region.length_flags]
        omega
      rw [none_new, flagsOf_cons, flagsOf_cons, cut, flagsOf_cons,
        List.take_append_of_le_length (by simpa using inside.le),
        List.drop_append_of_le_length (by simpa using inside.le)]
      simp [Region.flags, Nat.min_eq_left inside.le]

/-- The loop of `setSackedBit`, seen from the region at `c`: the bytes up to `t` are marked. -/
theorem markSacked_chain (t e c : SeqNum) (rest : List Region) (chained : Chained c rest e)
    (short : fwd s c + (flagsOf rest).length < 2 ^ 31) (inside : fwd c t ≤ (flagsOf rest).length) :
    Chained c (markSacked s t rest) e ∧
      flagsOf (markSacked s t rest) =
        ((flagsOf rest).take (fwd c t)).map (fun f => (true, f.2)) ++
          (flagsOf rest).drop (fwd c t) := by
  induction rest generalizing c with
  | nil => exact ⟨chained, by simp [markSacked]⟩
  | cons i rest ih =>
    obtain ⟨start, positive, tail⟩ := chained
    simp only [flagsOf_cons, List.length_append, Region.length_flags] at short inside
    have ends := ends_by_iff c t i start (by omega) (by omega)
    subst start
    by_cases ended : seqLE i.endSeqNum t = true
    · have le := ends.mp ended
      have remaining := fwd_of_le i.beginSeqNum i.endSeqNum t le
      have through : fwd i.beginSeqNum t = i.flags.length + fwd i.endSeqNum t := by
        rw [Region.length_flags]
        omega
      have onward := fwd_trans s i.beginSeqNum i.endSeqNum (by omega)
      have behind : seqGE i.beginSeqNum s = true := by
        rw [seqGE_iff]
        omega
      obtain ⟨chain, marked⟩ := ih i.endSeqNum tail (by omega) (by omega)
      simp only [markSacked, ended, behind, if_true]
      refine ⟨⟨rfl, positive, chain⟩, ?_⟩
      rw [flagsOf_cons, marked, flagsOf_cons, through, List.take_length_add_append,
        List.drop_length_add_append, List.map_append, List.append_assoc]
      simp [Region.flags]
    · have gt : fwd i.beginSeqNum t < fwd i.beginSeqNum i.endSeqNum := by
        rw [ends] at ended
        omega
      have remaining := fwd_of_le i.beginSeqNum t i.endSeqNum gt.le
      simp only [markSacked, ended, Bool.false_eq_true, if_false]
      by_cases positive' : 0 < fwd i.beginSeqNum t
      · have splits : (seqLess i.beginSeqNum t && seqLess t i.endSeqNum) = true := by
          rw [Bool.and_eq_true, seqLess_iff, seqLess_iff]
          omega
        simp only [splits, if_true]
        refine ⟨⟨rfl, positive', rfl, by simp only; omega, tail⟩, ?_⟩
        rw [flagsOf_cons, flagsOf_cons, (flags_cut i t gt.le).2, flagsOf_cons,
          List.take_append_of_le_length (by simpa using gt.le),
          List.drop_append_of_le_length (by simpa using gt.le)]
        simp [Region.flags, Nat.min_eq_left gt.le]
      · have here : fwd i.beginSeqNum t = 0 := by omega
        have whole : (seqLess i.beginSeqNum t && seqLess t i.endSeqNum) = false := by
          rw [Bool.and_eq_false_iff]
          left
          rw [Bool.eq_false_iff, ne_eq, seqLess_iff]
          omega
        simp only [whole, Bool.false_eq_true, if_false]
        exact ⟨⟨rfl, positive, tail⟩, by simp [here]⟩

/-- Discarding drops the bytes below `s`. -/
theorem discardRegions_chain
    (chained : Chained b regions e) (short : (flagsOf regions).length < 2 ^ 31)
    (inside : fwd b s ≤ (flagsOf regions).length) :
    ∃ kept, discardRegions s regions = .ok kept ∧ Chained s kept e ∧
      flagsOf kept = (flagsOf regions).drop (fwd b s) := by
  induction regions generalizing b with
  | nil =>
    have here : b = s := (fwd_eq_zero_iff b s).mp (by simpa using inside)
    subst here
    exact ⟨[], rfl, chained, by simp⟩
  | cons i rest ih =>
    obtain ⟨start, positive, tail⟩ := chained
    simp only [flagsOf_cons, List.length_append, Region.length_flags] at short inside
    have ends := ends_by_iff b s i start (by omega) (by omega)
    subst start
    by_cases ended : seqLE i.endSeqNum s = true
    · have le := ends.mp ended
      have remaining := fwd_of_le i.beginSeqNum i.endSeqNum s le
      have through : fwd i.beginSeqNum s = i.flags.length + fwd i.endSeqNum s := by
        rw [Region.length_flags]
        omega
      obtain ⟨kept, found, chain, bytes⟩ := ih i.endSeqNum tail (by omega) (by omega)
      refine ⟨kept, ?_, chain, ?_⟩
      · rw [← found]
        simp only [discardRegions, List.dropWhile_cons, ended, if_true]
      · rw [bytes, flagsOf_cons, through, List.drop_length_add_append]
    · have gt : fwd i.beginSeqNum s < fwd i.beginSeqNum i.endSeqNum := by
        rw [ends] at ended
        omega
      have remaining := fwd_of_le i.beginSeqNum s i.endSeqNum gt.le
      have holds : (seqLE i.beginSeqNum s && seqLess s i.endSeqNum) = true := by
        rw [Bool.and_eq_true, seqLE_iff, seqLess_iff]
        omega
      refine ⟨{ i with beginSeqNum := s } :: rest, ?_, ⟨rfl, by simp only; omega, tail⟩, ?_⟩
      · simp [discardRegions, ended, assert, holds, bind, Except.bind, pure, Except.pure]
      · rw [flagsOf_cons, (flags_cut i s gt.le).2, flagsOf_cons,
          List.drop_append_of_le_length (by simpa using gt.le)]

end TcpSackRexmitQueue

/-! ### The flags of a byte -/

/-- The bytes of a list of flags that starts at `b`. -/
def lookup (b : SeqNum) (flags : List Flags) (s : SeqNum) : Option Flags := flags[fwd b s]?

/-- `enqueueSentData` on the bytes `[a, t)`, counted from the beginning of the queue. -/
def enqueueFlags (a t : Nat) (flags : List Flags) : List Flags :=
  flags.take a ++ ((flags.drop a).take (t - a)).map (fun f => (f.1, true)) ++ flags.drop t ++
    List.replicate (t - flags.length) (false, false)

/-- `setSackedBit` on the bytes `[a, t)`. -/
def sackFlags (a t : Nat) (flags : List Flags) : List Flags :=
  flags.take a ++ ((flags.drop a).take (t - a)).map (fun f => (true, f.2)) ++ flags.drop t

theorem length_enqueueFlags (flags : List Flags) (le : a ≤ t)
    (inside : a ≤ flags.length) : (enqueueFlags a t flags).length = max flags.length t := by
  simp only [enqueueFlags, List.length_append, List.length_take, List.length_map,
    List.length_drop, List.length_replicate]
  omega

theorem length_sackFlags (flags : List Flags) (le : a ≤ t)
    (inside : t ≤ flags.length) : (sackFlags a t flags).length = flags.length := by
  simp only [sackFlags, List.length_append, List.length_take, List.length_map,
    List.length_drop]
  omega

theorem getElem?_enqueueFlags (n : Nat) (flags : List Flags) (le : a ≤ t)
    (inside : a ≤ flags.length) :
    (enqueueFlags a t flags)[n]? =
      if a ≤ n ∧ n < t then some (sentAgain flags[n]?) else flags[n]? := by
  simp only [enqueueFlags, List.getElem?_append, List.length_append, List.length_take,
    List.length_map, List.length_drop, List.getElem?_take, List.getElem?_map, List.getElem?_drop,
    List.getElem?_replicate]
  by_cases before : n < a
  · grind
  · by_cases past : flags.length ≤ n
    · grind [sentAgain]
    · grind [sentAgain]

theorem getElem?_sackFlags (n : Nat) (flags : List Flags) (le : a ≤ t) (inside : t ≤ flags.length) :
    (sackFlags a t flags)[n]? =
      if a ≤ n ∧ n < t then flags[n]?.map (fun f => (true, f.2)) else flags[n]? := by
  simp only [sackFlags, List.getElem?_append, List.length_append, List.length_take,
    List.length_map, List.length_drop, List.getElem?_take, List.getElem?_map, List.getElem?_drop]
  grind

/-! ### The simulation -/

/-- The queue holds the reference's bytes, in a chain of less than half of the circle. -/
structure Refines (q : TcpSackRexmitQueue) (m : ByteMap) : Prop where
  chained : Chained q.begin_ q.rexmitQueue q.end_
  short : (flagsOf q.rexmitQueue).length < 2 ^ 31
  begin_eq : m.begin_ = q.begin_
  end_eq : m.end_ = q.end_
  flags_eq : ∀ s, m.flags s = lookup q.begin_ (flagsOf q.rexmitQueue) s

namespace Refines

variable {q : TcpSackRexmitQueue} {m : ByteMap}

theorem span (refines : Refines q m) :
    fwd q.begin_ q.end_ = (flagsOf q.rexmitQueue).length :=
  chained_length q.begin_ q.end_ q.rexmitQueue refines.chained refines.short

theorem checkQueue (refines : Refines q m) : q.checkQueue = true :=
  (checkRegions_iff q.begin_ q.end_ q.rexmitQueue refines.short).mpr refines.chained

/-- A number between the ends, as the code tests it, is at most the whole span away. -/
theorem between (refines : Refines q m) (s : SeqNum) (above : seqLE q.begin_ s = true)
    (below : seqLE s q.end_ = true) : fwd q.begin_ s ≤ fwd q.begin_ q.end_ := by
  have span := refines.span
  have short := refines.short
  rw [seqLE_iff] at above
  exact (seqLE_iff_from q.begin_ s q.end_ (by omega) (by omega)).mp below

/-- A successful `checkQueue` ends a mutator. -/
theorem checked {q' : TcpSackRexmitQueue} {m' : ByteMap} (refines : Refines q' m') :
    (do assert q'.checkQueue "checkQueue()"; return q') = Except.ok q' := by
  simp [assert, refines.checkQueue, bind, Except.bind, pure, Except.pure]

theorem rexmitQueue_nil (refines : Refines q m) (equal : q.begin_ = q.end_) :
    q.rexmitQueue = [] := by
  have span := refines.span
  rw [equal, fwd_self] at span
  cases regions : q.rexmitQueue with
  | nil => rfl
  | cons i rest =>
    have chained := refines.chained
    rw [regions] at chained span
    simp only [flagsOf_cons, List.length_append, Region.length_flags] at span
    have positive := chained.2.1
    omega

end Refines

/-- The region `regionAt` finds carries the flags of the byte. -/
theorem find_flags (chained : Chained b regions e) (short : (flagsOf regions).length < 2 ^ 31) :
    (regions.find? fun i => seqLE i.beginSeqNum s && seqLess s i.endSeqNum).map
      (fun i => (i.sacked, i.rexmitted)) = lookup b (flagsOf regions) s := by
  induction regions generalizing b with
  | nil => simp [lookup]
  | cons i rest ih =>
    obtain ⟨start, positive, tail⟩ := chained
    simp only [flagsOf_cons, List.length_append, Region.length_flags] at short
    subst start
    have holds : (seqLE i.beginSeqNum s && seqLess s i.endSeqNum) = true ↔
        fwd i.beginSeqNum s < fwd i.beginSeqNum i.endSeqNum := by
      rw [Bool.and_eq_true, seqLE_iff]
      constructor
      · rintro ⟨near, less⟩
        exact (seqLess_iff_from i.beginSeqNum s i.endSeqNum near.le (by omega)).mp less
      · intro less
        exact ⟨by omega,
          (seqLess_iff_from i.beginSeqNum s i.endSeqNum (by omega) (by omega)).mpr less⟩
    by_cases inside : fwd i.beginSeqNum s < fwd i.beginSeqNum i.endSeqNum
    · have found : (seqLE i.beginSeqNum s && seqLess s i.endSeqNum) = true := holds.mpr inside
      simp [found, lookup, List.getElem?_append, inside, Region.flags]
    · have missed : (seqLE i.beginSeqNum s && seqLess s i.endSeqNum) = false := by
        rw [Bool.eq_false_iff, ne_eq, holds]
        exact inside
      have remaining := fwd_of_le i.beginSeqNum i.endSeqNum s (by omega)
      rw [List.find?_cons, missed]
      simp [ih i.endSeqNum tail (by omega), lookup, List.getElem?_append, inside, remaining]

/-- The ends `enqueueSentData` reads off its regions. -/
private theorem chained_ends (chained : Chained b regions e) (nonempty : regions ≠ []) :
    regions.head?.map Region.beginSeqNum = some b ∧
      regions.getLast?.map Region.endSeqNum = some e := by
  induction regions generalizing b with
  | nil => exact absurd rfl nonempty
  | cons i rest ih =>
    obtain ⟨start, -, tail⟩ := chained
    refine ⟨by simp [start], ?_⟩
    cases rest with
    | nil =>
      obtain rfl : i.endSeqNum = e := tail
      rfl
    | cons j rest =>
      rw [List.getLast?_cons_cons]
      exact (ih i.endSeqNum tail (by simp)).2

/-- The regions `enqueueSentData` builds hold the bytes of `enqueueFlags`. -/
theorem enqueueRegions_chain (q : TcpSackRexmitQueue) (m : ByteMap) (refines : Refines q m)
    (a t : SeqNum) (inside : fwd q.begin_ a ≤ fwd q.begin_ q.end_)
    (ahead : fwd q.begin_ a < fwd q.begin_ t) (near : fwd q.begin_ t < 2 ^ 31) :
    ∃ regions, q.enqueueRegions a t = .ok regions ∧ regions ≠ [] ∧
      Chained q.begin_ regions (if fwd q.begin_ q.end_ ≤ fwd q.begin_ t then t else q.end_) ∧
      flagsOf regions =
        enqueueFlags (fwd q.begin_ a) (fwd q.begin_ t) (flagsOf q.rexmitQueue) := by
  have span := refines.span
  have short := refines.short
  have gap := fwd_of_le q.begin_ a t ahead.le
  by_cases append : (q.rexmitQueue.isEmpty || q.end_ == a) = true
  · have last : q.end_ = a := by
      rcases Bool.or_eq_true _ _ ▸ append with empty | equal
      · rw [List.isEmpty_iff] at empty
        rw [empty] at span
        exact (fwd_inj q.begin_ q.end_ a).mp (by simp at span; omega)
      · simpa using equal
    subst last
    refine ⟨q.rexmitQueue ++ [⟨q.end_, t, false, false⟩], ?_, by simp, ?_, ?_⟩
    · simp [TcpSackRexmitQueue.enqueueRegions]
    · rw [if_pos ahead.le, chained_append]
      exact ⟨q.end_, refines.chained, rfl, by simp only; omega, rfl⟩
    · have past : (flagsOf q.rexmitQueue).length ≤ fwd q.begin_ t := by omega
      simp [enqueueFlags, span, List.drop_of_length_le past, Region.flags, gap]
  · have notEmpty : (q.rexmitQueue.isEmpty || q.end_ == a) = false := by simpa using append
    have before : fwd q.begin_ a < fwd q.begin_ q.end_ := by
      have apart : q.end_ ≠ a := by
        rw [Bool.or_eq_false_iff] at notEmpty
        simpa using notEmpty.2
      rw [ne_eq, ← fwd_inj q.begin_] at apart
      omega
    obtain ⟨left, right, split, chainLeft, chainRight, flagsLeft, flagsRight⟩ :=
      TcpSackRexmitQueue.splitAt_chain q.begin_ q.end_ a q.rexmitQueue refines.chained short
        (by omega)
    have rightLength : (flagsOf right).length = fwd q.begin_ q.end_ - fwd q.begin_ a := by
      rw [flagsRight, List.length_drop, span]
    obtain ⟨marked, others, last, loop, chainMarked, chainOthers, reached, flagsMarked,
      flagsOthers, stop⟩ := TcpSackRexmitQueue.markRexmitted_chain t q.end_ a right chainRight
        (by omega) (by omega)
    have toLast := fwd_trans q.begin_ a last (by omega)
    have fromLast := fwd_of_le a last t reached
    have othersLength : (flagsOf others).length =
        fwd q.begin_ q.end_ - fwd q.begin_ a - fwd a last := by
      rw [flagsOthers, List.length_drop, rightLength]
    have loopInside : fwd a last ≤ (flagsOf right).length := by
      have counted := chained_length a last marked chainMarked
        (by rw [flagsMarked, List.length_map, List.length_take]; omega)
      rw [flagsMarked, List.length_map, List.length_take] at counted
      omega
    by_cases complete : last = t
    · subst complete
      have some_marked : marked ≠ [] := by
        rintro rfl
        have here : a = last := chainMarked
        subst here
        omega
      refine ⟨left ++ marked ++ others, ?_, by simp [some_marked], ?_, ?_⟩
      · simp [TcpSackRexmitQueue.enqueueRegions, notEmpty, split, loop, assert, some_marked, bind,
          Except.bind, pure, Except.pure]
      · have ends : (if fwd q.begin_ q.end_ ≤ fwd q.begin_ last then last else q.end_) = q.end_ := by
          split_ifs with reach
          · exact (fwd_inj q.begin_ last q.end_).mp (by omega)
          · rfl
        rw [ends, List.append_assoc, chained_append]
        exact ⟨a, chainLeft, (chained_append a q.end_ marked others).mpr
          ⟨last, chainMarked, chainOthers⟩⟩
      · have nothing_new : fwd q.begin_ last - (flagsOf q.rexmitQueue).length = 0 := by omega
        rw [flagsOf_append, flagsOf_append, flagsLeft, flagsMarked, flagsOthers, flagsRight,
          enqueueFlags, nothing_new, List.drop_drop, ← toLast, gap]
        simp
    · have apart : 0 < fwd last t := by
        rw [Nat.pos_iff_ne_zero, ne_eq, fwd_eq_zero_iff]
        exact complete
      obtain ⟨tail, e', inserted, chainTail, ends, flagsTail⟩ :=
        TcpSackRexmitQueue.insertRest_chain t q.end_ last others chainOthers (by omega) (by omega)
          apart stop
      have some_tail : tail ≠ [] := by
        rintro rfl
        have counted := congrArg List.length flagsTail
        simp only [flagsOf_nil, List.length_nil, List.length_append, List.length_map,
          List.length_take, List.length_drop, List.length_replicate] at counted
        omega
      refine ⟨left ++ marked ++ tail, ?_, by simp [some_tail], ?_, ?_⟩
      · simp [TcpSackRexmitQueue.enqueueRegions, notEmpty, split, loop, complete, inserted, bind,
          Except.bind, pure, Except.pure]
      · have same : (if fwd q.begin_ q.end_ ≤ fwd q.begin_ t then t else q.end_) = e' := by
          rw [ends]
          cases others with
          | nil =>
            obtain rfl : last = q.end_ := chainOthers
            rw [if_pos (by omega), if_pos rfl]
          | cons i after =>
            have head := stop i after rfl
            simp only [flagsOf_cons, List.length_append, Region.length_flags] at othersLength
            rw [if_neg (by omega), if_neg (by simp)]
        rw [same, List.append_assoc, chained_append]
        exact ⟨a, chainLeft, (chained_append a e' marked tail).mpr
          ⟨last, chainMarked, chainTail⟩⟩
      · have marks : ((flagsOf right).take (fwd a t)).map (fun f => (f.1, true)) =
            flagsOf marked ++ ((flagsOf others).take (fwd last t)).map (fun f => (f.1, true)) := by
          rw [flagsMarked, flagsOthers, ← List.map_append, ← List.take_add,
            show fwd a last + fwd last t = fwd a t by omega]
        have rest : (flagsOf others).drop (fwd last t) =
            (flagsOf q.rexmitQueue).drop (fwd q.begin_ t) := by
          rw [flagsOthers, flagsRight, List.drop_drop, List.drop_drop]
          congr 1
          omega
        rw [flagsOf_append, flagsOf_append, flagsLeft, flagsTail, rest, enqueueFlags, ← gap,
          ← flagsRight, marks, show fwd last t - (flagsOf others).length =
            fwd q.begin_ t - (flagsOf q.rexmitQueue).length by omega]
        simp only [List.append_assoc]

namespace Refines

variable {q : TcpSackRexmitQueue} {m : ByteMap}

theorem init (refines : Refines q m) (seqNum : SeqNum) (empty : m.begin_ = m.end_) :
    Refines (q.init seqNum) (ByteMap.empty seqNum) := by
  have none_left : q.rexmitQueue = [] := by
    rw [refines.begin_eq, refines.end_eq] at empty
    exact refines.rexmitQueue_nil empty
  constructor
  · simp [TcpSackRexmitQueue.init, none_left, Chained]
  · simp [TcpSackRexmitQueue.init, none_left]
  · rfl
  · rfl
  · intro s
    simp [TcpSackRexmitQueue.init, none_left, lookup, ByteMap.empty]

theorem enqueueSentData_flags (refines : Refines q m) (a t : SeqNum)
    (admissible : (RexmitCall.enqueueSentData a t).Admissible m) :
    ∃ q', q.enqueueSentData a t = .ok q' ∧ Refines q' (m.step (.enqueueSentData a t)) ∧
      flagsOf q'.rexmitQueue =
        enqueueFlags (fwd q.begin_ a) (fwd q.begin_ t) (flagsOf q.rexmitQueue) := by
  obtain ⟨above, below, less, near⟩ := admissible
  rw [refines.begin_eq] at above near
  rw [refines.end_eq] at below
  have inside := refines.between a above below
  have span := refines.span
  have short := refines.short
  have ahead := (seqLess_iff_from q.begin_ a t (by omega) near).mp less
  obtain ⟨regions, built, nonempty, chained, flags⟩ :=
    enqueueRegions_chain q m refines a t inside ahead near
  obtain ⟨first, last⟩ := chained_ends _ _ regions chained nonempty
  have length := length_enqueueFlags (fwd q.begin_ a) (fwd q.begin_ t) (flagsOf q.rexmitQueue)
    ahead.le (by omega)
  have refines' : Refines
      ⟨regions, q.begin_, if fwd q.begin_ q.end_ ≤ fwd q.begin_ t then t else q.end_⟩
      (m.step (.enqueueSentData a t)) := by
    refine ⟨chained, by rw [flags, length]; omega, refines.begin_eq, ?_, ?_⟩
    · simp only [ByteMap.step, refines.begin_eq, refines.end_eq]
    · intro s
      simp only [ByteMap.step, refines.flags_eq, lookup, flags, within_iff q.begin_ a t s ahead.le]
      rw [getElem?_enqueueFlags _ _ _ _ ahead.le (by omega)]
  refine ⟨_, ?_, refines', flags⟩
  simp only [TcpSackRexmitQueue.enqueueSentData, assert, above, below, less, built, first, last,
    Bool.and_self, if_true, bind, Except.bind, Option.getD_some]
  exact refines'.checked

theorem enqueueSentData (refines : Refines q m) (a t : SeqNum)
    (admissible : (RexmitCall.enqueueSentData a t).Admissible m) :
    ∃ q', q.enqueueSentData a t = .ok q' ∧ Refines q' (m.step (.enqueueSentData a t)) := by
  obtain ⟨q', returned, refines', -⟩ := refines.enqueueSentData_flags a t admissible
  exact ⟨q', returned, refines'⟩

theorem setSackedBit (refines : Refines q m) (a t : SeqNum)
    (admissible : (RexmitCall.setSackedBit a t).Admissible m) :
    ∃ q', q.setSackedBit a t = .ok q' ∧ Refines q' (m.step (.setSackedBit a t)) := by
  obtain ⟨fromLess, toAbove, toBelow, less⟩ := admissible
  rw [refines.begin_eq] at fromLess toAbove less
  rw [refines.end_eq] at fromLess toBelow
  have span := refines.span
  have short := refines.short
  have toInside : fwd q.begin_ t ≤ fwd q.begin_ q.end_ := by
    rw [seqLess_iff] at toAbove
    exact refines.between t ((seqLE_iff _ _).mpr toAbove.2) toBelow
  have fromNear : fwd q.begin_ (clampFrom q.begin_ a) ≤ 2 ^ 31 := by
    unfold clampFrom
    split
    · simp
    next above =>
      by_contra far
      apply above
      have around := fwd_of_lt q.begin_ a q.begin_ (by rw [fwd_self]; omega)
      have bound := fwd_lt q.begin_ a
      rw [fwd_self] at around
      rw [seqLess_iff]
      omega
  have ahead := (seqLess_iff_from q.begin_ _ t fromNear (by omega)).mp less
  have nonempty : q.rexmitQueue.isEmpty = false := by
    cases regions : q.rexmitQueue with
    | nil => simp [regions] at span; omega
    | cons i rest => rfl
  obtain ⟨left, right, split, chainLeft, chainRight, flagsLeft, flagsRight⟩ :=
    TcpSackRexmitQueue.splitAt_chain q.begin_ q.end_ _ q.rexmitQueue refines.chained short
      (show fwd q.begin_ (clampFrom q.begin_ a) < _ by omega)
  have gap := fwd_of_le q.begin_ (clampFrom q.begin_ a) t ahead.le
  have rightLength : (flagsOf right).length =
      fwd q.begin_ q.end_ - fwd q.begin_ (clampFrom q.begin_ a) := by
    rw [flagsRight, List.length_drop, span]
  obtain ⟨chainMarked, flagsMarked⟩ := TcpSackRexmitQueue.markSacked_chain
    (clampFrom q.begin_ a) t q.end_ _ right chainRight (by rw [fwd_self]; omega) (by omega)
  have flags : flagsOf (left ++ TcpSackRexmitQueue.markSacked (clampFrom q.begin_ a) t right) =
      sackFlags (fwd q.begin_ (clampFrom q.begin_ a)) (fwd q.begin_ t) (flagsOf q.rexmitQueue) := by
    rw [flagsOf_append, flagsLeft, flagsMarked, flagsRight, List.drop_drop, sackFlags, gap,
      show fwd q.begin_ (clampFrom q.begin_ a) +
        (fwd q.begin_ t - fwd q.begin_ (clampFrom q.begin_ a)) = fwd q.begin_ t by omega]
    simp only [List.append_assoc]
  have length := length_sackFlags _ _ (flagsOf q.rexmitQueue) ahead.le (by omega)
  have refines' : Refines
      { q with rexmitQueue := left ++ TcpSackRexmitQueue.markSacked (clampFrom q.begin_ a) t right }
      (m.step (.setSackedBit a t)) := by
    refine ⟨(chained_append _ _ _ _).mpr ⟨_, chainLeft, chainMarked⟩, by rw [flags, length]; omega,
      refines.begin_eq, refines.end_eq, ?_⟩
    intro s
    simp only [ByteMap.step, refines.flags_eq, refines.begin_eq, lookup, flags,
      within_iff q.begin_ _ t s ahead.le]
    rw [getElem?_sackFlags _ _ _ _ ahead.le (by omega)]
  refine ⟨_, ?_, refines'⟩
  unfold clampFrom at fromLess less split refines' ⊢
  simp only [TcpSackRexmitQueue.setSackedBit, assert, fromLess, toAbove, toBelow, less, nonempty,
    split, Bool.and_self, if_true, Bool.false_eq_true, if_false, bind, Except.bind, pure,
    Except.pure]
  exact refines'.checked

theorem discardUpTo (refines : Refines q m) (seqNum : SeqNum)
    (admissible : (RexmitCall.discardUpTo seqNum).Admissible m) :
    ∃ q', q.discardUpTo seqNum = .ok q' ∧ Refines q' (m.step (.discardUpTo seqNum)) := by
  obtain ⟨above, below⟩ := admissible
  rw [refines.begin_eq] at above
  rw [refines.end_eq] at below
  have inside := refines.between seqNum above below
  have span := refines.span
  have short := refines.short
  obtain ⟨kept, found, chained, flags⟩ := TcpSackRexmitQueue.discardRegions_chain q.begin_ q.end_
    seqNum q.rexmitQueue refines.chained short (by omega)
  have refines' : Refines { q with rexmitQueue := kept, begin_ := seqNum }
      (m.step (.discardUpTo seqNum)) := by
    refine ⟨chained, by rw [flags, List.length_drop]; omega, rfl, refines.end_eq, ?_⟩
    intro s
    simp only [ByteMap.step, refines.flags_eq, refines.begin_eq, lookup, flags, Within,
      List.getElem?_drop]
    split_ifs with dropped
    · -- the bytes below `seqNum` are now a full circle away
      have around := fwd_of_lt q.begin_ seqNum s dropped
      rw [eq_comm, List.getElem?_eq_none_iff]
      omega
    · have onward := fwd_of_le q.begin_ seqNum s (by omega)
      rw [onward, show fwd q.begin_ seqNum + (fwd q.begin_ s - fwd q.begin_ seqNum) =
        fwd q.begin_ s by omega]
  refine ⟨_, ?_, refines'⟩
  simp only [TcpSackRexmitQueue.discardUpTo, assert, above, below, found, Bool.and_self, if_true,
    bind, Except.bind]
  exact refines'.checked

/-- Changing the flags of every region changes the flags of every byte. -/
private theorem mapRegions (refines : Refines q m) (f : Region → Region) (g : Flags → Flags)
    (begins : ∀ i, (f i).beginSeqNum = i.beginSeqNum) (ends : ∀ i, (f i).endSeqNum = i.endSeqNum)
    (marks : ∀ i, ((f i).sacked, (f i).rexmitted) = g (i.sacked, i.rexmitted)) :
    Refines { q with rexmitQueue := q.rexmitQueue.map f }
      { m with flags := fun s => (m.flags s).map g } := by
  have flags (regions : List Region) : flagsOf (regions.map f) = (flagsOf regions).map g := by
    induction regions with
    | nil => rfl
    | cons i rest ih => simp [ih, Region.flags, begins, ends, marks]
  have chain (regions : List Region) (b : SeqNum) (chained : Chained b regions q.end_) :
      Chained b (regions.map f) q.end_ := by
    induction regions generalizing b with
    | nil => exact chained
    | cons i rest ih =>
      obtain ⟨start, positive, tail⟩ := chained
      exact ⟨by rw [begins, start], by rw [begins, ends]; exact positive,
        ih _ (by rw [ends]; exact tail)⟩
  refine ⟨chain _ _ refines.chained, by simpa [flags] using refines.short, refines.begin_eq,
    refines.end_eq, ?_⟩
  intro s
  simp [lookup, flags, refines.flags_eq]

/-- Every call simulates the reference, and none of its assertions fails. -/
theorem step (refines : Refines q m) (call : RexmitCall) (admissible : call.Admissible m)
    (onEmpty : call.InitOnEmpty m) : ∃ q', call.step q = .ok q' ∧ Refines q' (m.step call) := by
  cases call with
  | init seqNum => exact ⟨_, rfl, refines.init seqNum onEmpty⟩
  | enqueueSentData a t => exact refines.enqueueSentData a t admissible
  | setSackedBit a t => exact refines.setSackedBit a t admissible
  | discardUpTo seqNum => exact refines.discardUpTo seqNum admissible
  | resetSackedBit =>
    exact ⟨_, rfl, refines.mapRegions _ _ (fun _ => rfl) (fun _ => rfl) (fun _ => rfl)⟩
  | resetRexmittedBit =>
    exact ⟨_, rfl, refines.mapRegions _ _ (fun _ => rfl) (fun _ => rfl) (fun _ => rfl)⟩

theorem run (refines : Refines q m) (calls : List RexmitCall)
    (admissible : Along RexmitCall.Admissible m calls)
    (onEmpty : Along RexmitCall.InitOnEmpty m calls) :
    ∃ q', calls.foldlM RexmitCall.step q = .ok q' ∧ Refines q' (calls.foldl ByteMap.step m) := by
  induction calls generalizing q m with
  | nil => exact ⟨q, rfl, refines⟩
  | cons call rest ih =>
    obtain ⟨q', stepped, refines'⟩ := refines.step call admissible.1 onEmpty.1
    obtain ⟨last, finished, refinesLast⟩ := ih refines' admissible.2 onEmpty.2
    refine ⟨last, ?_, refinesLast⟩
    simp only [List.foldlM_cons, stepped, bind, Except.bind]
    exact finished

/-- A constructed queue refines the empty map at zero. -/
theorem new : Refines TcpSackRexmitQueue.new (ByteMap.empty 0) :=
  ⟨rfl, by simp [TcpSackRexmitQueue.new], rfl, rfl, fun s => by
    simp [TcpSackRexmitQueue.new, ByteMap.empty, lookup]⟩

end Refines

/-- The queue agrees with the reference after every run of admissible calls that calls
`init` only while the queue holds no byte. -/
theorem rexmitQueue_agrees (calls : List RexmitCall)
    (admissible : Along RexmitCall.Admissible (ByteMap.empty 0) calls)
    (onEmpty : Along RexmitCall.InitOnEmpty (ByteMap.empty 0) calls) : Agrees calls := by
  obtain ⟨q, finished, refines⟩ := Refines.new.run calls admissible onEmpty
  refine ⟨q, finished, refines.checkQueue, refines.begin_eq.symm, refines.end_eq.symm,
    refines.rexmitQueue_nil, ?_⟩
  intro s
  rw [TcpSackRexmitQueue.regionAt, find_flags q.begin_ q.end_ s q.rexmitQueue refines.chained
    refines.short]
  exact (refines.flags_eq s).symm

/-- A run across the wrap of the sequence numbers: data is sent, partly sent again, SACKed
and partly discarded. -/
theorem rexmitQueue_agrees_wrapping :
    Agrees [.init 4294967290, .enqueueSentData 4294967290 10, .enqueueSentData 4294967294 20,
      .setSackedBit 2 12, .discardUpTo 4, .resetRexmittedBit] :=
  rexmitQueue_agrees _ (by simp only [Along, RexmitCall.Admissible]; decide)
    (by simp only [Along, RexmitCall.InitOnEmpty]; decide)

/-- `init` keeps the regions of a queue in use: its queue is then neither empty nor valid. -/
theorem init_keeps_regions :
    Along RexmitCall.Admissible (ByteMap.empty 0) [.init 0, .enqueueSentData 0 10, .init 100] ∧
      ¬ Agrees [.init 0, .enqueueSentData 0 10, .init 100] := by
  constructor
  · simp only [Along, RexmitCall.Admissible]
    decide
  · rintro ⟨q, finished, valid, -⟩
    have same : q = ⟨[⟨0, 10, false, false⟩], 100, 100⟩ := by
      have computed : runRexmit [.init 0, .enqueueSentData 0 10, .init 100] =
          .ok ⟨[⟨0, 10, false, false⟩], 100, 100⟩ := by decide
      rw [computed] at finished
      exact (Except.ok.inj finished).symm
    subst same
    revert valid
    decide

end Inet.Tcp

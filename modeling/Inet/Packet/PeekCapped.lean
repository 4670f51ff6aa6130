import Inet.Packet.PeekBeyond
import Inet.Packet.PeekDesignated

/-!
# Peeking at most a number of bits

A negative length asks for at most as many bits. A slice passes such a request on to the
chunk it is a part of, with a cap that it takes from its offset instead of the position. So
the cap may reach behind the slice, or turn into a length that has to be met exactly. The
leaf that the request comes to returns what is asked for if the cap that reaches it is right.
-/
namespace Inet.Packet

open Lib

variable {F : Type} [Fields F]
variable {asked : List Bool} {element : Chunk F} {inner length : Nat}

namespace Chunk

/-- Peeking at most a number of bits returns the bits from the position on, no more than
asked for and no more than there are. A null pointer stands for no bits. -/
def PeeksCapped (sharing : Sharing F) (chunk : Chunk F) (position most : Nat)
    (index : Option Nat) (flags : PeekFlags) : Prop :=
  match peek sharing chunk ⟨true, position, index⟩ (-(most : Int)) flags with
  | .ok (some result) =>
    result.getChunkLength ≤ min most (chunk.getChunkLength - position) ∧
      result.bits = part chunk.bits position result.getChunkLength
  | .ok none => True
  | .error _ => False

/-- The bits a request is about. -/
def askedBits (chunk : Chunk F) (position most : Nat) : List Bool :=
  part chunk.bits position (min most (chunk.getChunkLength - position))

/-- Leaves that are not copied but sliced. -/
def Converts : Chunk F → Nat → Prop
  | .bytes _, position => position % 8 ≠ 0
  | .byteCount _ _, position => position % 8 ≠ 0
  | .fields _, _ => True
  | _, _ => False

/-- What a leaf has behind a position, as far as the distance of cap and position. -/
def convertedLength (chunkLength position most : Nat) : Nat :=
  min ((most - position) + (position - most)) (chunkLength - position)

/-- A length that has to be met exactly is met by bits that are asked for. Behind the end a
sequence has nothing, and a `ByteCountChunk` its default data. -/
inductive ExactHeld (asked : List Bool) : Chunk F → Nat → Nat → Prop
  | inside {chunk : Chunk F} {position length : Nat}
      (fits : position + length ≤ chunk.getChunkLength)
      (among : part chunk.bits position length <+: asked) : ExactHeld asked chunk position length
  | slice {chunk : Chunk F} {offset sliceLength position length : Nat}
      (beyond : sliceLength < position + length)
      (inner : ExactHeld asked chunk (position + offset) length) :
      ExactHeld asked (.slice chunk offset sliceLength) position length
  | sequence {chunks : List (Chunk F)} {position length : Nat}
      (beyond : lengthOfAll chunks < position + length)
      (among : part (bitsOfAll chunks) position (lengthOfAll chunks - position) <+: asked) :
      ExactHeld asked (.sequence chunks) position length
  | byteCount {count : Nat} {data : UInt8} {position length : Nat}
      (beyond : 8 * count < position + length) (aligned : position % 8 = 0 ∧ length % 8 = 0)
      (among : fillBits (length / 8) '?'.toUInt8 <+: asked) :
      ExactHeld asked (.byteCount count data) position length

/-- The cap that reaches a leaf leaves it with bits that are asked for. -/
inductive CapHeld (flags : PeekFlags) (asked : List Bool) : Chunk F → Nat → Nat → Prop
  | whole {chunk : Chunk F} {most : Nat} (single : ∀ chunks, chunk ≠ .sequence chunks)
      (covers : chunk.getChunkLength ≤ most) (among : chunk.bits <+: asked) :
      CapHeld flags asked chunk 0 most
  | bytes {bs : List UInt8} {position most : Nat} (uncovered : position = 0 → most < 8 * bs.length)
      (aligned : position % 8 = 0) (units : min most (8 * bs.length - position) % 8 = 0)
      (among : part (bytesBits bs) position (min most (8 * bs.length - position)) <+: asked) :
      CapHeld flags asked (.bytes bs) position most
  | byteCount {count : Nat} {data : UInt8} {position most : Nat}
      (uncovered : position = 0 → most < 8 * count)
      (aligned : position % 8 = 0) (units : min most (8 * count - position) % 8 = 0)
      (among : fillBits (min most (8 * count - position) / 8) '?'.toUInt8 <+: asked) :
      CapHeld flags asked (.byteCount count data) position most
  | converted {chunk : Chunk F} {position most : Nat} (converts : chunk.Converts position)
      (uncovered : position = 0 → most < chunk.getChunkLength)
      (among : part chunk.bits position
        (convertedLength chunk.getChunkLength position most) <+: asked) :
      CapHeld flags asked chunk position most
  | slice {chunk : Chunk F} {offset sliceLength position most : Nat}
      (uncovered : position = 0 → most < sliceLength) (before : offset < sliceLength)
      (inner : CapHeld flags asked chunk (position + offset) (min most (sliceLength - offset))) :
      CapHeld flags asked (.slice chunk offset sliceLength) position most
  | nothing {chunk : Chunk F} {offset position most : Nat}
      (uncovered : position = 0 → most < offset)
      (allowed : flags.allowNullptr = true ∨ flags.allowEmpty = true) :
      CapHeld flags asked (.slice chunk offset offset) position most
  | exactly {chunk : Chunk F} {offset sliceLength position most : Nat}
      (uncovered : position = 0 → most < sliceLength) (behind : sliceLength < offset)
      (inner : ExactHeld asked chunk (position + offset) (offset - sliceLength)) :
      CapHeld flags asked (.slice chunk offset sliceLength) position most
  | elementWhole {chunks : List (Chunk F)} {element : Chunk F} {position most : Nat}
      (located : locate chunks position 1 = some (element, 0))
      (covers : element.getChunkLength ≤ most) (among : element.bits <+: asked) :
      CapHeld flags asked (.sequence chunks) position most
  | element {chunks : List (Chunk F)} {element : Chunk F} {position most inner : Nat}
      (located : locate chunks position 1 = some (element, inner))
      (uncovered : inner = 0 → most < element.getChunkLength)
      (held : CapHeld flags asked element inner most) :
      CapHeld flags asked (.sequence chunks) position most

/-! ### Exact lengths lose no fill bytes -/

section Keeps

variable (exactly below : Chunk F → Nat → Nat → Prop)

/-- Where a cap turns into an exact length, peeking the sliced chunk keeps its fill bytes. -/
def CapKeepsWith : Chunk F → Nat → Nat → Prop
  | .slice chunk offset sliceLength, position, most =>
    (position = 0 ∧ sliceLength ≤ most) ∨
      ((sliceLength < offset → exactly chunk (position + offset) (offset - sliceLength)) ∧
        (offset < sliceLength →
          CapKeepsWith chunk (position + offset) (min most (sliceLength - offset))))
  | .sequence chunks, position, most =>
    match locate chunks position 1 with
    | some (element, inner) =>
      (inner = 0 ∧ element.getChunkLength ≤ most) ∨ below element inner most
    | none => True
  | _, _, _ => True

end Keeps

def capKeepsLevel (sharing : Sharing F) : Nat → Chunk F → Nat → Nat → Prop
  | 0 => fun _ _ _ => False
  | size + 1 =>
    CapKeepsWith (PeekKeepsWith sharing (level sharing size) (keepsLevel sharing size))
      (capKeepsLevel sharing size)

/-- Peeking at most a number of bits meets exact lengths without losing fill bytes. -/
def CapKeeps (sharing : Sharing F) (chunk : Chunk F) (position most : Nat) : Prop :=
  capKeepsLevel sharing chunk.size chunk position most

/-! ### Answers -/

/-- What a peek returns passes the check of the flags and begins the bits asked for. -/
def Answers (flags : PeekFlags) (asked : List Bool) (result : PeekResult F) : Prop :=
  match result.bind fun chunk => checkPeekResult chunk flags with
  | .ok (some chunk) =>
    chunk.getChunkLength ≤ asked.length ∧ chunk.bits = asked.take chunk.getChunkLength
  | .ok none => True
  | .error _ => False

theorem answers_some {flags : PeekFlags} {result : Chunk F}
    (filled : result ≠ .empty) (length_eq : result.bits.length = result.getChunkLength) :
    Answers flags asked (.ok (some result)) ↔ result.bits <+: asked := by
  have checked : checkPeekResult (some result) flags = .ok (some result) := by
    cases result with
    | empty => exact absurd rfl filled
    | _ => rfl
  unfold Answers
  simp only [Except.bind, checked]
  constructor
  · rintro ⟨_, bits_eq⟩
    rw [bits_eq]
    exact List.take_prefix _ _
  · intro begins
    have shorter := begins.length_le
    rw [length_eq] at shorter
    refine ⟨shorter, ?_⟩
    rw [← length_eq]
    exact List.prefix_iff_eq_take.mp begins

theorem answers_empty (flags : PeekFlags) (asked : List Bool) :
    Answers (F := F) flags asked (getEmptyChunk flags) ↔
      flags.allowNullptr = true ∨ flags.allowEmpty = true := by
  obtain ⟨allowNullptr, allowEmpty⟩ := flags
  cases allowNullptr <;> cases allowEmpty <;>
    simp [Answers, getEmptyChunk, checkPeekResult, Except.bind, getChunkLength, bits]

/-- A slice that ends behind the chunk it is a part of has fewer bits than its length says. -/
theorem not_answers_beyond {flags : PeekFlags} {chunk : Chunk F}
    {offset : Nat} (wf : chunk.WellFormed) (within : offset ≤ chunk.getChunkLength)
    (beyond : chunk.getChunkLength < offset + length) :
    ¬ Answers flags asked (.ok (some (.slice chunk offset length))) := by
  rintro ⟨shorter, bits_eq⟩
  have lengths := congrArg List.length bits_eq
  simp only [bits, List.length_take, List.length_drop, wf.length_bits] at lengths
  change length ≤ asked.length at shorter
  change min length _ = min length _ at lengths
  omega

theorem WellFormed.ne_empty {chunk : Chunk F} (positive : 0 < chunk.getChunkLength) :
    chunk ≠ .empty := by
  rintro rfl
  exact absurd positive (Nat.lt_irrefl 0)

/-! ### Exact lengths -/

section Levels

variable {sharing : Sharing F} {below : Level F} {keeps : KeepsLevel F} {bound : Nat}
variable (chunk : Chunk F) (position : Nat) {flags : PeekFlags} {most : Nat}

theorem exactHeld_inside
    (sound : below.Sound sharing keeps bound) (chunk : Chunk F) (position length : Nat)
    (wf : chunk.WellFormed) (fits : chunk.size ≤ bound + 1) (positive : 0 < length)
    (inside : position + length ≤ chunk.getChunkLength)
    (kept : PeekKeepsWith sharing below keeps chunk position length) :
    Answers flags asked
        (peekUncheckedWith sharing below chunk (.forward position) length flags) ↔
      part chunk.bits position length <+: asked := by
  have pointed : IndexConsistent chunk (.forward position) := by
    cases chunk <;> simp [IndexConsistent, Iterator.forward]
  obtain ⟨result, returned, peeked, bits_eq⟩ := peekUncheckedWith_peeked sound chunk
    (.forward position) length flags wf fits positive inside pointed.inRange
  rw [returned, answers_some (WellFormed.ne_empty (by rw [peeked.length_eq]; exact positive))
    peeked.wf.length_bits, bits_eq rfl pointed kept]
  rfl

/-- A leaf that is not copied is sliced, wherever the part ends. -/
theorem answers_slice_iff
    (length : Nat) (wf : chunk.WellFormed) (within : position ≤ chunk.getChunkLength) :
    Answers flags asked (.ok (some (.slice chunk position length))) ↔
      position + length ≤ chunk.getChunkLength ∧ part chunk.bits position length <+: asked := by
  by_cases inside : position + length ≤ chunk.getChunkLength
  · rw [answers_some (by simp) (WellFormed.slice wf inside).length_bits]
    exact ⟨fun among => ⟨inside, among⟩, fun held => held.2⟩
  · refine iff_of_false (not_answers_beyond wf within (by omega)) ?_
    exact fun held => inside held.1

theorem exactHeld_inside_iff {chunk : Chunk F} {position : Nat}
    (fits : position + length ≤ chunk.getChunkLength) :
    ExactHeld asked chunk position length ↔ part chunk.bits position length <+: asked := by
  constructor
  · intro held
    cases held with
    | inside _ among => exact among
    | slice beyond => exact absurd fits (by rw [getChunkLength]; omega)
    | sequence beyond => exact absurd fits (by rw [getChunkLength]; omega)
    | byteCount beyond => exact absurd fits (by rw [getChunkLength]; omega)
  · exact .inside fits

/-- A leaf that is sliced has nothing behind its end. -/
theorem exactHeld_sliced_iff {chunk : Chunk F}
    {position : Nat} (wf : chunk.WellFormed) (within : position ≤ chunk.getChunkLength)
    (converts : chunk.Converts position ∨ chunk.Converts length) :
    Answers flags asked (peekSlice chunk (.forward position) length) ↔
      ExactHeld asked chunk position length := by
  rw [peekSlice_forward, answers_slice_iff chunk position length wf within]
  constructor
  · rintro ⟨inside, among⟩
    exact .inside inside among
  · intro held
    cases held with
    | inside fits among => exact ⟨fits, among⟩
    | slice => simp [Converts] at converts
    | sequence => simp [Converts] at converts
    | byteCount _ aligned =>
      simp only [Converts] at converts
      omega

/-- An exact length is met by bits that are asked for in just the cases listed. -/
theorem exactHeld_iff
    (sound : below.Sound sharing keeps bound) (chunk : Chunk F) (position length : Nat)
    (wf : chunk.WellFormed) (fits : chunk.size ≤ bound + 1) (started : 0 < position)
    (within : position ≤ chunk.getChunkLength) (positive : 0 < length)
    (kept : PeekKeepsWith sharing below keeps chunk position length) :
    Answers flags asked
        (peekUncheckedWith sharing below chunk (.forward position) length flags) ↔
      ExactHeld asked chunk position length := by
  by_cases inside : position + length ≤ chunk.getChunkLength
  · rw [exactHeld_inside sound chunk position length wf fits positive inside kept,
      exactHeld_inside_iff inside]
  induction wf generalizing position with
  | empty =>
    rw [getChunkLength] at within
    omega
  | bytes bs =>
    unfold peekUncheckedWith
    rw [peekLeaf_started _ _ _ _ _ started positive within]
    unfold peekBytes
    by_cases aligned : position % 8 = 0 ∧ length % 8 = 0
    · rw [if_pos (by simp only [Iterator.forward]; omega)]
      rw [getChunkLength] at inside
      simp only [resolveLength_nat]
      rw [if_neg (by omega), if_pos (by simp only [Iterator.forward]; omega)]
      refine iff_of_false id ?_
      intro held
      cases held with
      | inside fits => exact inside fits
    · rw [if_neg (by simp only [Iterator.forward]; omega)]
      exact exactHeld_sliced_iff (.bytes bs) within (by simp only [Converts]; omega)
  | byteCount count data =>
    unfold peekUncheckedWith
    rw [peekLeaf_started _ _ _ _ _ started positive within]
    unfold peekByteCount
    by_cases aligned : position % 8 = 0 ∧ length % 8 = 0
    · rw [if_pos (by simp only [Iterator.forward]; omega)]
      rw [getChunkLength] at inside
      simp only [resolveLength_nat]
      have length_eq : ((length : Int) / 8).toNat = length / 8 := by omega
      rw [if_neg (by omega), length_eq,
        answers_some (by simp) (WellFormed.byteCount _ _).length_bits]
      constructor
      · exact .byteCount (by omega) aligned
      · intro held
        cases held with
        | inside fits => exact absurd fits inside
        | byteCount _ _ among => exact among
    · rw [if_neg (by simp only [Iterator.forward]; omega)]
      exact exactHeld_sliced_iff (.byteCount count data) within (by simp only [Converts]; omega)
  | fields content =>
    unfold peekUncheckedWith
    rw [peekLeaf_started _ _ _ _ _ started positive within]
    exact exactHeld_sliced_iff (.fields content) within (.inl trivial)
  | @slice chunk offset sliceLength wf room ih =>
    rw [getChunkLength] at within inside
    rw [size_slice] at fits
    have kept_inner : PeekKeepsWith sharing below keeps chunk (position + offset) length := by
      unfold PeekKeepsWith at kept
      rcases kept with whole | kept
      · omega
      · exact kept
    have inner_iff : Answers flags asked (peekUncheckedWith sharing below chunk
        (.forward (position + offset)) length flags) ↔
          ExactHeld asked chunk (position + offset) length := by
      by_cases further : position + offset + length ≤ chunk.getChunkLength
      · rw [exactHeld_inside sound chunk _ length wf fits positive further kept_inner,
          exactHeld_inside_iff further]
      · exact ih (position + offset) fits (by omega) (by omega) kept_inner further
    rw [peekUncheckedWith_slice _ _ _ _ _ _ started within positive, inner_iff]
    constructor
    · exact .slice (by omega)
    · intro held
      cases held with
      | inside fits => exact absurd fits inside
      | slice _ inner => exact inner
  | @sequence chunks wf positive_all ih =>
    rw [getChunkLength] at within inside
    rw [size] at fits
    obtain ⟨after, returned, peeked, bits_eq⟩ := peekSequence_beyond sound chunks position length
      flags (.sequence wf positive_all) (by omega) started within (by omega)
    unfold peekUncheckedWith
    rw [returned, answers_some (by simp) peeked.wf.length_bits, bits, bits_eq kept]
    constructor
    · exact .sequence (by omega)
    · intro held
      cases held with
      | inside fits => exact absurd fits inside
      | sequence _ among => exact among

/-! ### Leaves -/

theorem peekLeaf_capped (rebuild : Iterator → Int → PeekResult F)
    (position most : Nat) (index : Option Nat) (flags : PeekFlags) (positive : 0 < most)
    (within : position < chunk.getChunkLength) :
    peekLeaf chunk rebuild ⟨true, position, index⟩ (-(most : Int)) flags =
      if position = 0 ∧ chunk.getChunkLength ≤ most then .ok (some chunk)
      else rebuild ⟨true, position, index⟩ (-(most : Int)) := by
  unfold peekLeaf
  simp only
  rw [if_neg (by omega), if_neg (by omega)]
  by_cases whole : position = 0 ∧ chunk.getChunkLength ≤ most
  · rw [if_pos (by omega), if_pos whole]
  · rw [if_neg (by omega), if_neg whole]

theorem resolveLength_capped (chunkLength position most : Nat) (positive : 0 < most)
    (within : position ≤ chunkLength) :
    resolveLength chunkLength position (-(most : Int)) =
      ((min most (chunkLength - position) : Nat) : Int) := by
  unfold resolveLength
  rw [if_pos (by omega)]
  omega

theorem peekSlice_capped (most : Nat) (index : Option Nat)
    (positive : 0 < most) (within : position < chunk.getChunkLength) :
    peekSlice chunk ⟨true, position, index⟩ (-(most : Int)) =
      .ok (some (.slice chunk position (convertedLength chunk.getChunkLength position most))) := by
  have nonneg : ¬(position : Int) < 0 := by omega
  have negative : -(most : Int) < 0 := by omega
  unfold peekSlice convertedOffset
  simp only [Bool.not_true, Bool.false_and, Bool.false_eq_true, if_false, if_true, if_neg nonneg,
    if_pos negative, bind, Except.bind, pure, Except.pure, Int.toNat_natCast]
  congr 3
  unfold resolveLength convertedLength
  split <;> omega

/-- A leaf that is sliced gives what lies behind the position. -/
theorem capHeld_converted_iff {chunk : Chunk F}
    {position : Nat} (wf : chunk.WellFormed) (within : position < chunk.getChunkLength)
    (index : Option Nat) (positive : 0 < most) (converts : chunk.Converts position)
    (uncovered : position = 0 → most < chunk.getChunkLength) :
    Answers flags asked (peekSlice chunk ⟨true, position, index⟩ (-(most : Int))) ↔
      CapHeld flags asked chunk position most := by
  have room : position + convertedLength chunk.getChunkLength position most ≤
      chunk.getChunkLength := by
    unfold convertedLength
    omega
  rw [peekSlice_capped chunk position most index positive within,
    answers_some (by simp) (WellFormed.slice wf room).length_bits]
  constructor
  · exact .converted converts uncovered
  · intro held
    cases held with
    | whole _ covers => exact absurd (uncovered rfl) (by omega)
    | bytes _ aligned => exact absurd aligned converts
    | byteCount _ aligned => exact absurd aligned converts
    | converted _ _ among => exact among
    | slice => cases converts
    | nothing => cases converts
    | exactly => cases converts
    | elementWhole => cases converts
    | element => cases converts

/-- A leaf that the cap covers is returned as it is. -/
theorem capHeld_whole_iff {chunk : Chunk F}
    (wf : chunk.WellFormed) (filled : 0 < chunk.getChunkLength)
    (covers : chunk.getChunkLength ≤ most) (single : ∀ chunks, chunk ≠ .sequence chunks) :
    Answers flags asked (.ok (some chunk)) ↔ CapHeld flags asked chunk 0 most := by
  rw [answers_some (WellFormed.ne_empty filled) wf.length_bits]
  constructor
  · exact .whole single covers
  · intro held
    have short : ¬((0 : Nat) = 0 → most < chunk.getChunkLength) := by omega
    cases held with
    | whole _ _ among => exact among
    | bytes uncovered => exact absurd uncovered short
    | byteCount uncovered => exact absurd uncovered short
    | converted _ uncovered => exact absurd uncovered short
    | slice uncovered => exact absurd uncovered short
    | nothing uncovered => exact absurd uncovered short
    | exactly uncovered => exact absurd uncovered short
    | elementWhole => exact absurd rfl (single _)
    | element => exact absurd rfl (single _)

/-- What a slice does with a cap. -/
theorem peekUncheckedWith_slice_capped (offset sliceLength position most : Nat)
    (index : Option Nat) (flags : PeekFlags) (positive : 0 < most) (within : position < sliceLength)
    (uncovered : ¬(position = 0 ∧ sliceLength ≤ most)) :
    peekUncheckedWith sharing below (.slice chunk offset sliceLength) ⟨true, position, index⟩
        (-(most : Int)) flags =
      peekUncheckedWith sharing below chunk (.forward (position + offset))
        (if offset < sliceLength then -((min most (sliceLength - offset) : Nat) : Int)
          else ((offset - sliceLength : Nat) : Int)) flags := by
  conv_lhs => unfold peekUncheckedWith
  rw [if_neg (by simp only; omega), if_neg (by simp only; omega), if_neg (by simp only; omega),
    if_pos (by omega)]
  congr 1
  split <;> omega

/-! ### Sequences -/

/-- Every position of a sequence lies in one of its elements. -/
theorem exists_locate {chunks : List (Chunk F)} {position : Nat}
    (within : position < lengthOfAll chunks) :
    ∃ element inner, locate chunks position 1 = some (element, inner) := by
  induction chunks generalizing position with
  | nil =>
    rw [lengthOfAll] at within
    omega
  | cons chunk rest ih =>
    rw [lengthOfAll] at within
    unfold locate
    by_cases starts : position < chunk.getChunkLength
    · exact ⟨chunk, position, by rw [if_pos starts, if_pos (by omega)]⟩
    · rw [if_neg starts]
      exact ih (by omega)

/-- The loop over the elements stops at the one the position lies in. -/
theorem peekElements_capped (most : Nat) (index : Option Nat) (flags : PeekFlags)
    (chunks : List (Chunk F)) (wf : WellFormed (.sequence chunks)) (start : Nat)
    (reached : start ≤ position)
    (located : locate chunks (position - start) 1 = some (element, inner)) :
    peekElements below ⟨true, position, index⟩ (-(most : Int)) flags chunks start =
      some (if inner = 0 ∧ element.getChunkLength ≤ most then .ok (some element)
        else below.peekUnchecked element ⟨true, inner, none⟩ (-(most : Int)) flags) := by
  induction chunks generalizing start with
  | nil => cases located
  | cons chunk rest ih =>
    obtain ⟨filled, wf_rest⟩ := wf.tail
    unfold peekElements
    simp only
    unfold locate at located
    by_cases starts : position - start < chunk.getChunkLength
    · rw [if_pos starts, if_pos (by omega), Option.some.injEq, Prod.mk.injEq] at located
      obtain ⟨rfl, rfl⟩ := located
      by_cases whole : position - start = 0 ∧ chunk.getChunkLength ≤ most
      · rw [if_pos (by omega), if_pos whole]
      · rw [if_neg (by omega), if_pos (by omega), if_neg whole]
    · rw [if_neg starts, Nat.sub_sub] at located
      rw [if_neg (by omega), if_neg (by omega)]
      exact ih wf_rest _ (by omega) located

theorem peekSequence_capped (chunks : List (Chunk F)) (position most : Nat) (index : Option Nat)
    (flags : PeekFlags) (wf : WellFormed (.sequence chunks)) (positive : 0 < most)
    (within : position < lengthOfAll chunks)
    (consistent : isIteratorConsistent (.sequence chunks) ⟨true, position, index⟩ = true) 
    (located : locate chunks position 1 = some (element, inner)) :
    peekSequence sharing below chunks ⟨true, position, index⟩ (-(most : Int)) flags =
      if inner = 0 ∧ element.getChunkLength ≤ most then .ok (some element)
      else below.peekUnchecked element ⟨true, inner, none⟩ (-(most : Int)) flags := by
  rw [isIteratorConsistent_sequence_iff chunks _ wf (Nat.le_of_lt within)] at consistent
  have unindexed : peekUnindexed sharing below chunks ⟨true, position, index⟩ (-(most : Int)) flags =
      if inner = 0 ∧ element.getChunkLength ≤ most then .ok (some element)
      else below.peekUnchecked element ⟨true, inner, none⟩ (-(most : Int)) flags := by
    unfold peekUnindexed
    simp only [if_true]
    rw [peekElements_capped position most index flags chunks wf 0 (Nat.zero_le _) located]
  unfold peekSequence
  simp only
  rw [if_neg (by omega), if_neg (by omega), if_neg (by omega)]
  cases index with
  | none => exact unindexed
  | some index =>
    obtain ⟨bounded, starts⟩ := consistent index rfl
    simp only [directed, if_true] at starts
    simp only
    split
    next => exact unindexed
    next not_end =>
      have here : index < chunks.length := by omega
      have good := (wellFormed_sequence_iff chunks).mp wf chunks[index] (List.getElem_mem here)
      have at_index := locate_at (chunks.take index) (chunks.drop (index + 1)) chunks[index] 0 1
        (by omega) (by omega)
      rw [← List.drop_eq_getElem_cons here, List.take_append_drop, starts, Nat.add_zero,
        located] at at_index
      cases at_index
      have found : getElementChunk chunks true index = some chunks[index] := by
        simp [getElementChunk, here]
      rw [found]
      dsimp only
      split
      next covers => rw [if_pos ⟨rfl, by omega⟩]
      next => exact unindexed

/-! ### Every chunk -/

theorem capHeld_slice_iff {chunk : Chunk F}
    {offset sliceLength position : Nat} (uncovered : position = 0 → most < sliceLength) :
    CapHeld flags asked (.slice chunk offset sliceLength) position most ↔
      (offset < sliceLength ∧
        CapHeld flags asked chunk (position + offset) (min most (sliceLength - offset))) ∨
      (offset = sliceLength ∧ (flags.allowNullptr = true ∨ flags.allowEmpty = true)) ∨
      (sliceLength < offset ∧
        ExactHeld asked chunk (position + offset) (offset - sliceLength)) := by
  constructor
  · intro held
    cases held with
    | whole _ covers => exact absurd (uncovered rfl) (Nat.not_lt.mpr covers)
    | converted converts => cases converts
    | slice _ before inner => exact .inl ⟨before, inner⟩
    | nothing _ allowed => exact .inr (.inl ⟨rfl, allowed⟩)
    | exactly _ behind inner => exact .inr (.inr ⟨behind, inner⟩)
  · rintro (⟨before, inner⟩ | ⟨rfl, allowed⟩ | ⟨behind, inner⟩)
    · exact .slice uncovered before inner
    · exact .nothing uncovered allowed
    · exact .exactly uncovered behind inner

theorem capHeld_sequence_iff {chunks : List (Chunk F)}
    {position : Nat} (located : locate chunks position 1 = some (element, inner)) :
    CapHeld flags asked (.sequence chunks) position most ↔
      if inner = 0 ∧ element.getChunkLength ≤ most then element.bits <+: asked
      else CapHeld flags asked element inner most := by
  constructor
  · intro held
    cases held with
    | whole single => exact absurd rfl (single _)
    | converted converts => cases converts
    | elementWhole found covers among =>
      rw [located] at found
      cases found
      rwa [if_pos ⟨rfl, covers⟩]
    | element found uncovered inner_held =>
      rw [located] at found
      cases found
      rwa [if_neg (by omega)]
  · intro held
    split at held
    next whole =>
      obtain ⟨rfl, covers⟩ := whole
      exact .elementWhole located covers held
    next not_whole => exact .element located (by omega) held

/-- A request is answered by bits that are asked for if and only if the cap that reaches the
leaf is right. -/
theorem level_capped (sharing : Sharing F) (bound : Nat)
    (chunk : Chunk F) (position most : Nat) (index : Option Nat) (wf : chunk.WellFormed)
    (fits : chunk.size ≤ bound) (positive : 0 < most) (within : position < chunk.getChunkLength)
    (consistent : chunk.isIteratorConsistent ⟨true, position, index⟩ = true)
    (kept : capKeepsLevel sharing bound chunk position most) :
    Answers flags asked ((level sharing bound).peekUnchecked chunk ⟨true, position, index⟩
        (-(most : Int)) flags) ↔
      CapHeld flags asked chunk position most := by
  induction bound generalizing chunk position most index with
  | zero => cases kept
  | succ bound below =>
    show Answers flags asked (peekUncheckedWith sharing (level sharing bound) chunk _ _ _) ↔ _
    change CapKeepsWith _ _ _ _ _ at kept
    -- slices are followed within the level, elements lie in the level below
    induction wf generalizing position most index with
    | empty =>
      rw [getChunkLength] at within
      omega
    | bytes bs =>
      unfold peekUncheckedWith
      rw [peekLeaf_capped _ _ _ _ _ _ positive within]
      split
      next whole =>
        obtain ⟨rfl, covers⟩ := whole
        exact capHeld_whole_iff (.bytes bs) within covers (by simp)
      next not_whole =>
        have uncovered : position = 0 → most < (Chunk.bytes bs : Chunk F).getChunkLength := by omega
        unfold peekBytes
        by_cases aligned : position % 8 = 0
        · rw [getChunkLength] at within uncovered
          rw [if_pos (by simp only; omega)]
          simp only
          rw [resolveLength_capped _ _ _ positive (by omega)]
          by_cases units : min most (8 * bs.length - position) % 8 = 0
          · have part_eq : (Chunk.bytes (part bs (position / 8)
                (((min most (8 * bs.length - position) : Nat) : Int) / 8).toNat) : Chunk F).bits =
                  part (bytesBits bs) position (min most (8 * bs.length - position)) := by
              rw [bits, bytesBits_part]
              congr 1 <;> omega
            rw [if_neg (by omega), if_neg (by omega),
              answers_some (by simp) (WellFormed.bytes _).length_bits, part_eq]
            constructor
            · exact .bytes uncovered aligned units
            · intro held
              cases held with
              | whole _ covers => exact absurd covers (by rw [getChunkLength]; omega)
              | bytes _ _ _ among => exact among
              | converted converts => exact absurd aligned converts
          · rw [if_pos (by omega)]
            refine iff_of_false id ?_
            intro held
            cases held with
            | whole _ covers => exact absurd covers (by rw [getChunkLength]; omega)
            | bytes _ _ units' => exact units units'
            | converted converts => exact absurd aligned converts
        · rw [if_neg (by simp only; omega)]
          exact capHeld_converted_iff (.bytes bs) within index positive aligned uncovered
    | byteCount count data =>
      unfold peekUncheckedWith
      rw [peekLeaf_capped _ _ _ _ _ _ positive within]
      split
      next whole =>
        obtain ⟨rfl, covers⟩ := whole
        exact capHeld_whole_iff (.byteCount count data) within covers (by simp)
      next not_whole =>
        have uncovered : position = 0 →
            most < (Chunk.byteCount count data : Chunk F).getChunkLength := by
          omega
        unfold peekByteCount
        by_cases aligned : position % 8 = 0
        · rw [getChunkLength] at within uncovered
          rw [if_pos (by simp only; omega)]
          simp only
          rw [resolveLength_capped _ _ _ positive (by omega)]
          by_cases units : min most (8 * count - position) % 8 = 0
          · have length_eq : (((min most (8 * count - position) : Nat) : Int) / 8).toNat =
                min most (8 * count - position) / 8 := by omega
            rw [if_neg (by omega), length_eq,
              answers_some (by simp) (WellFormed.byteCount _ _).length_bits]
            constructor
            · exact .byteCount uncovered aligned units
            · intro held
              cases held with
              | whole _ covers => exact absurd covers (by rw [getChunkLength]; omega)
              | byteCount _ _ _ among => exact among
              | converted converts => exact absurd aligned converts
          · rw [if_pos (by omega)]
            refine iff_of_false id ?_
            intro held
            cases held with
            | whole _ covers => exact absurd covers (by rw [getChunkLength]; omega)
            | byteCount _ _ units' => exact units units'
            | converted converts => exact absurd aligned converts
        · rw [if_neg (by simp only; omega)]
          exact capHeld_converted_iff (.byteCount count data) within index positive aligned uncovered
    | fields content =>
      unfold peekUncheckedWith
      rw [peekLeaf_capped _ _ _ _ _ _ positive within]
      split
      next whole =>
        obtain ⟨rfl, covers⟩ := whole
        exact capHeld_whole_iff (.fields content) within covers (by simp)
      next not_whole =>
        exact capHeld_converted_iff (.fields content) within index positive trivial (by omega)
    | @slice chunk offset sliceLength wf room ih =>
      have wf_slice : (slice chunk offset sliceLength).WellFormed := .slice wf room
      rw [getChunkLength] at within
      rw [size_slice] at fits
      by_cases whole : position = 0 ∧ sliceLength ≤ most
      · obtain ⟨rfl, covers⟩ := whole
        rw [← capHeld_whole_iff wf_slice within covers (by simp)]
        unfold peekUncheckedWith
        rw [if_neg (by simp only; omega), if_neg (by simp only; omega),
          if_pos ⟨rfl, .inl (by omega)⟩]
        split
        next all =>
          have simplified := bits_simplify wf_slice
          rw [simplify_slice, if_pos all] at simplified
          rw [answers_some (WellFormed.ne_empty (by omega)) wf.length_bits,
            answers_some (by simp) wf_slice.length_bits, simplified]
        next => exact Iff.rfl
      · rw [peekUncheckedWith_slice_capped chunk offset sliceLength position most index flags
          positive within whole, capHeld_slice_iff (by omega)]
        unfold CapKeepsWith at kept
        obtain ⟨exact_kept, inner_kept⟩ := kept.resolve_left whole
        rcases Nat.lt_trichotomy offset sliceLength with before | rfl | behind
        · rw [if_pos before, Iterator.forward, ih (position + offset) _ none fits (by omega)
            (by omega) (isIteratorConsistent_none chunk true _ wf (by omega)) (inner_kept before)]
          simp only [before, true_and, Nat.ne_of_lt before, false_and, Nat.lt_asymm before, or_false]
        · have nothing := peekUncheckedWith_zero sharing (level sharing bound) chunk
            (.forward (position + offset)) flags (by simp only [Iterator.forward]; omega)
          rw [if_neg (Nat.lt_irrefl _), Nat.sub_self, show ((0 : Nat) : Int) = 0 from rfl, nothing,
            answers_empty]
          simp
        · rw [if_neg (by omega), exactHeld_iff (level_sound sharing bound) chunk _ _ wf fits
            (by omega) (by omega) (by omega) (exact_kept behind)]
          simp only [behind, true_and, Nat.ne_of_gt behind, false_and, Nat.lt_asymm behind, false_or]
    | @sequence chunks wf positive_all ih =>
      have wf_all : WellFormed (.sequence chunks) := .sequence wf positive_all
      rw [getChunkLength] at within
      rw [size] at fits
      obtain ⟨element, inner, located⟩ := exists_locate within
      obtain ⟨before, after, chunks_eq, _, ends, _⟩ := locate_spec located
      have member : element ∈ chunks := by
        rw [chunks_eq]
        exact List.mem_append_right _ List.mem_cons_self
      have good := (wellFormed_sequence_iff chunks).mp wf_all element member
      have size_le := size_le_sizeOfAll member
      unfold CapKeepsWith at kept
      rw [located] at kept
      unfold peekUncheckedWith
      rw [peekSequence_capped chunks position most index flags wf_all positive within consistent
        located, capHeld_sequence_iff located]
      split
      next whole => exact answers_some (WellFormed.ne_empty good.2) good.1.length_bits
      next not_whole =>
        exact below element inner most none good.1 (by omega) positive (by omega)
          (isIteratorConsistent_none element true _ good.1 (by omega))
          (kept.resolve_left not_whole)

end Levels

/-! ### Peeking at most a number of bits -/

theorem length_askedBits (chunk : Chunk F) (position most : Nat) (wf : chunk.WellFormed)
    (inside : position ≤ chunk.getChunkLength) :
    (chunk.askedBits position most).length = min most (chunk.getChunkLength - position) :=
  length_part _ _ _ (by rw [wf.length_bits]; omega)

theorem peeksCapped_iff_answers (sharing : Sharing F) (chunk : Chunk F) (position most : Nat)
    (index : Option Nat) (flags : PeekFlags) (wf : chunk.WellFormed)
    (inside : position ≤ chunk.getChunkLength) :
    PeeksCapped sharing chunk position most index flags ↔
      Answers flags (chunk.askedBits position most)
        (peekUnchecked sharing chunk ⟨true, position, index⟩ (-(most : Int)) flags) := by
  unfold PeeksCapped Answers
  show _ ↔ match peek sharing chunk ⟨true, position, index⟩ (-(most : Int)) flags with
    | .ok (some result) => _ ∧ _
    | .ok none => True
    | .error _ => False
  rw [length_askedBits chunk position most wf inside]
  split
  next result _ =>
    refine and_congr_right fun shorter => ?_
    unfold askedBits part
    rw [List.take_take, Nat.min_eq_left shorter]
  next => exact Iff.rfl
  next => exact Iff.rfl

/-- At the end of a chunk there is nothing to peek. -/
theorem peekUncheckedWith_end (sharing : Sharing F) (below : Level F) (chunk : Chunk F)
    (most : Nat) (index : Option Nat) (flags : PeekFlags) (positive : 0 < most) :
    peekUncheckedWith sharing below chunk ⟨true, chunk.getChunkLength, index⟩ (-(most : Int))
      flags = getEmptyChunk flags := by
  cases chunk with
  | empty =>
    unfold peekUncheckedWith peekEmpty
    rw [if_neg (by simp [getChunkLength]), if_neg (by omega)]
  | sequence chunks =>
    unfold peekUncheckedWith peekSequence
    simp only [getChunkLength]
    rw [if_neg (by omega), if_pos (.inr ⟨trivial, by omega⟩)]
  | slice chunk offset length =>
    unfold peekUncheckedWith
    rw [if_neg (by simp [getChunkLength]), if_pos (.inr ⟨rfl, by omega⟩)]
  | _ =>
    unfold peekUncheckedWith peekLeaf
    simp only
    rw [if_neg (by omega), if_pos (.inr ⟨trivial, by omega⟩)]

end Chunk
end Inet.Packet

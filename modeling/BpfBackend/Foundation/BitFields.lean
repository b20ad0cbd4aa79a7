/-! # Words assembled from bit fields

A fixed-width word is described by values placed at bit positions. Placing is
a shift and a bitwise or, so the order of the placements is irrelevant, and
reading a position back is an extraction.
-/

namespace BpfBackend.BitFields

structure Placed where
  lo : Nat
  width : Nat
  value : BitVec width

namespace Placed

def hi (field : Placed) : Nat := field.lo + field.width

def word (size : Nat) (field : Placed) : BitVec size :=
  field.value.setWidth size <<< field.lo

/-- The field occupies no bit of the interval `[lo, lo + width)`. The test is
Boolean so that `rfl` decides it whatever value the field holds. -/
def avoids (field : Placed) (lo width : Nat) : Bool :=
  decide (field.hi ≤ lo) || decide (lo + width ≤ field.lo)

theorem getLsbD_word (size : Nat) (field : Placed) (index : Nat)
    (inRange : index < size) :
    (field.word size).getLsbD index =
      (decide (field.lo ≤ index) && field.value.getLsbD (index - field.lo)) := by
  by_cases below : index < field.lo
  · simp [word, below, Nat.not_le_of_lt below]
  · simp [word, inRange, below, Nat.le_of_not_lt below]

theorem getLsbD_word_of_avoids {size : Nat} {field : Placed} {lo width : Nat}
    (avoids : field.avoids lo width = true) (index : Nat) (within : index < width) :
    (field.word size).getLsbD (lo + index) = false := by
  by_cases inRange : lo + index < size
  · rw [getLsbD_word size field _ inRange]
    simp only [Placed.avoids, Bool.or_eq_true, decide_eq_true_eq] at avoids
    rcases avoids with above | below
    · have outside : field.width ≤ lo + index - field.lo := by
        simp only [hi] at above
        omega
      simp [BitVec.getLsbD_of_ge _ _ outside]
    · have notReached : ¬field.lo ≤ lo + index := by omega
      simp [notReached]
  · exact BitVec.getLsbD_of_ge _ _ (Nat.le_of_not_lt inRange)

end Placed

/-- The word in which every listed value stands at its position. -/
def assemble (size : Nat) : List Placed → BitVec size
  | [] => 0
  | field :: rest => field.word size ||| assemble size rest

@[simp] theorem assemble_nil (size : Nat) : assemble size [] = 0 := rfl

theorem assemble_append (size : Nat) (left right : List Placed) :
    assemble size (left ++ right) = assemble size left ||| assemble size right := by
  induction left with
  | nil => simp
  | cons field rest induction =>
      simp [assemble, induction, BitVec.or_assoc]

theorem extract_assemble_of_avoids {size : Nat} (lo width : Nat) :
    ∀ {fields : List Placed}, fields.all (·.avoids lo width) = true →
      (assemble size fields).extractLsb' lo width = 0
  | [], _ => by
      apply BitVec.eq_of_getLsbD_eq
      intro index within
      simp [assemble]
  | field :: rest, avoids => by
      rw [List.all_cons, Bool.and_eq_true] at avoids
      have restZero : (assemble size rest).extractLsb' lo width = 0 :=
        extract_assemble_of_avoids lo width avoids.2
      apply BitVec.eq_of_getLsbD_eq
      intro index within
      have bitZero := congrArg (fun word => word.getLsbD index) restZero
      simp only [BitVec.getLsbD_extractLsb', within, decide_true, Bool.true_and]
        at bitZero ⊢
      rw [assemble, BitVec.getLsbD_or,
        Placed.getLsbD_word_of_avoids avoids.1 index within]
      simpa using bitZero

/-- A field that no other field overlaps is read back unchanged. -/
theorem extract_assemble (size : Nat) (field : Placed) (fits : field.hi ≤ size)
    {before after : List Placed}
    (beforeAvoids : before.all (·.avoids field.lo field.width) = true)
    (afterAvoids : after.all (·.avoids field.lo field.width) = true) :
    (assemble size (before ++ field :: after)).extractLsb' field.lo field.width =
      field.value := by
  have beforeZero : (assemble size before).extractLsb' field.lo field.width = 0 :=
    extract_assemble_of_avoids _ _ beforeAvoids
  have afterZero : (assemble size after).extractLsb' field.lo field.width = 0 :=
    extract_assemble_of_avoids _ _ afterAvoids
  apply BitVec.eq_of_getLsbD_eq
  intro index within
  have inRange : field.lo + index < size := by
    simp only [Placed.hi] at fits
    omega
  have beforeBit := congrArg (fun word => word.getLsbD index) beforeZero
  have afterBit := congrArg (fun word => word.getLsbD index) afterZero
  simp only [BitVec.getLsbD_extractLsb', within, decide_true, Bool.true_and]
    at beforeBit afterBit ⊢
  rw [assemble_append, BitVec.getLsbD_or, assemble, BitVec.getLsbD_or, beforeBit,
    afterBit, Placed.getLsbD_word size field _ inRange]
  simp

/-! ## Reading a single field from the front -/

section Reading

variable {size : Nat} {field : Placed} {rest : List Placed} {lo width : Nat}

theorem extract_assemble_cons_of_avoids (avoids : field.avoids lo width = true) :
    (assemble size (field :: rest)).extractLsb' lo width =
      (assemble size rest).extractLsb' lo width := by
  apply BitVec.eq_of_getLsbD_eq
  intro index within
  simp [assemble, within, Placed.getLsbD_word_of_avoids avoids index within]

theorem extract_assemble_cons (value : BitVec width)
    (fits : decide (lo + width ≤ size) = true)
    (restAvoids : rest.all (·.avoids lo width) = true) :
    (assemble size (⟨lo, width, value⟩ :: rest)).extractLsb' lo width = value :=
  @extract_assemble size ⟨lo, width, value⟩ (of_decide_eq_true fits) [] rest rfl restAvoids

end Reading

theorem extract_assemble_of_replaced {size : Nat} {field other : Placed} {lo width : Nat}
    (before after : List Placed) (fieldAvoids : field.avoids lo width = true)
    (otherAvoids : other.avoids lo width = true) :
    (assemble size (before ++ field :: after)).extractLsb' lo width =
      (assemble size (before ++ other :: after)).extractLsb' lo width := by
  rw [assemble_append, assemble_append, BitVec.extractLsb'_or, BitVec.extractLsb'_or,
    extract_assemble_cons_of_avoids fieldAvoids, extract_assemble_cons_of_avoids otherAvoids]

/-! ## Cutting a word into fields -/

def pieces (word : BitVec size) (intervals : List (Nat × Nat)) : List Placed :=
  intervals.map fun interval =>
    ⟨interval.1, interval.2, word.extractLsb' interval.1 interval.2⟩

theorem getLsbD_assemble_pieces (word : BitVec size) (total index : Nat)
    (inRange : index < total) :
    ∀ intervals : List (Nat × Nat),
      (assemble total (pieces word intervals)).getLsbD index =
        (word.getLsbD index && intervals.any fun interval =>
          decide (interval.1 ≤ index) && decide (index < interval.1 + interval.2))
  | [] => by simp [pieces]
  | interval :: rest => by
      have restBit := getLsbD_assemble_pieces word total index inRange rest
      rw [pieces] at restBit ⊢
      rw [List.map_cons, assemble, BitVec.getLsbD_or, restBit,
        Placed.getLsbD_word _ _ _ inRange]
      by_cases reached : interval.1 ≤ index
      · have position : interval.1 + (index - interval.1) = index := by omega
        have inside : index - interval.1 < interval.2 ↔
            index < interval.1 + interval.2 := by omega
        simp [reached, position, inside, Bool.and_or_distrib_left, Bool.and_comm]
      · simp [reached]

/-- Intervals that together cover every bit lose nothing. -/
theorem assemble_pieces (word : BitVec size) (intervals : List (Nat × Nat))
    (covers : ∀ index < size, ∃ interval ∈ intervals,
      interval.1 ≤ index ∧ index < interval.1 + interval.2) :
    assemble size (pieces word intervals) = word := by
  apply BitVec.eq_of_getLsbD_eq
  intro index inRange
  rw [getLsbD_assemble_pieces word size index inRange]
  rcases covers index inRange with ⟨interval, member, low, high⟩
  have covered : (intervals.any fun interval =>
      decide (interval.1 ≤ index) && decide (index < interval.1 + interval.2)) = true :=
    List.any_eq_true.mpr ⟨interval, member, by simp [low, high]⟩
  rw [covered, Bool.and_true]

theorem eq_of_extracts {left right : BitVec size} (intervals : List (Nat × Nat))
    (covers : ∀ index < size, ∃ interval ∈ intervals,
      interval.1 ≤ index ∧ index < interval.1 + interval.2)
    (same : ∀ interval ∈ intervals,
      left.extractLsb' interval.1 interval.2 = right.extractLsb' interval.1 interval.2) :
    left = right := by
  rw [← assemble_pieces left intervals covers, ← assemble_pieces right intervals covers,
    pieces, pieces]
  congr 1
  apply List.map_congr_left
  intro interval member
  rw [same interval member]

end BpfBackend.BitFields

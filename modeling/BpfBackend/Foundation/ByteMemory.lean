import Mathlib.Algebra.Order.Ring.Nat
import Mathlib.Data.Set.Function

/-! # Byte-addressed memory

Little-endian accesses to a memory that is total on its address space and
wraps around at the end of it.
-/

namespace BpfBackend.ByteMemory

abbrev Memory (width : Nat) := BitVec width → BitVec 8

variable {width count : Nat}

def load (memory : Memory width) (address : BitVec width) :
    (count : Nat) → BitVec (8 * count)
  | 0 => 0
  | count + 1 => load memory (address + 1) count ++ memory address

def store (memory : Memory width) (address : BitVec width) (count : Nat)
    (value : BitVec (8 * count)) : Memory width := fun other =>
  let index := (other - address).toNat
  if index < count then value.extractLsb' (8 * index) 8 else memory other

/-! ## Bytes of a word -/

theorem eq_of_bytes {left right : BitVec (8 * count)}
    (bytes : ∀ index < count,
      left.extractLsb' (8 * index) 8 = right.extractLsb' (8 * index) 8) : left = right := by
  apply BitVec.eq_of_getLsbD_eq
  intro position inRange
  have equal := congrArg (·.getLsbD (position % 8)) (bytes (position / 8) (by omega))
  have split : 8 * (position / 8) + position % 8 = position := by omega
  have inByte : position % 8 < 8 := by omega
  simpa [BitVec.getLsbD_extractLsb', inByte, split] using equal

theorem extract_load (memory : Memory width) (address : BitVec width) {index : Nat}
    (inRange : index < count) :
    (load memory address count).extractLsb' (8 * index) 8 =
      memory (address + BitVec.ofNat width index) := by
  induction count generalizing address index with
  | zero => omega
  | succ count induction =>
      cases index with
      | zero =>
          have first : address + BitVec.ofNat width 0 = address := BitVec.add_zero address
          rw [first]
          exact BitVec.extractLsb'_append_eq_right
      | succ index =>
          have next : address + 1 + BitVec.ofNat width index =
              address + BitVec.ofNat width (index + 1) := by
            rw [Nat.add_comm, BitVec.ofNat_add, ← BitVec.add_assoc]
            rfl
          have above : 8 ≤ 8 * (index + 1) := by omega
          rw [← next, ← induction (address + 1) (by omega)]
          exact BitVec.extractLsb'_append_eq_of_le above

/-! ## Loads after stores -/

variable {memory : Memory width} {address : BitVec width}

theorem offset_of_add (address : BitVec width) {index : Nat} (fits : index < 2 ^ width) :
    (address + BitVec.ofNat width index - address).toNat = index := by
  rw [BitVec.add_comm, BitVec.add_sub_cancel, BitVec.toNat_ofNat, Nat.mod_eq_of_lt fits]

theorem load_store (fits : count ≤ 2 ^ width) (value : BitVec (8 * count)) :
    load (store memory address count value) address count = value := by
  apply eq_of_bytes
  intro index inRange
  rw [extract_load _ _ inRange, store, offset_of_add address (by omega)]
  simp [inRange]

def Disjoint (address : BitVec width) (count : Nat) (other : BitVec width)
    (otherCount : Nat) : Prop :=
  ∀ index < otherCount, count ≤ (other + BitVec.ofNat width index - address).toNat

theorem load_store_of_disjoint {other : BitVec width} {otherCount : Nat}
    (disjoint : Disjoint address count other otherCount) (value : BitVec (8 * count)) :
    load (store memory address count value) other otherCount =
      load memory other otherCount := by
  apply eq_of_bytes
  intro index inRange
  have outside := disjoint index inRange
  rw [extract_load _ _ inRange, extract_load _ _ inRange, store]
  exact if_neg (Nat.not_lt.mpr outside)

theorem store_load (memory : Memory width) (address : BitVec width) (count : Nat) :
    store memory address count (load memory address count) = memory := by
  funext other
  unfold store
  dsimp only
  split
  · rename_i inRange
    rw [extract_load _ _ inRange, BitVec.ofNat_toNat, BitVec.setWidth_eq,
      BitVec.add_comm, BitVec.sub_add_cancel]
  · rfl

/-- Two stores of the same width at disjoint addresses leave the same memory
only if both store what is already there. -/
theorem store_eq_store_of_disjoint {other : BitVec width}
    (fits : count ≤ 2 ^ width) (disjoint : Disjoint other count address count)
    {value otherValue : BitVec (8 * count)}
    (equal : store memory address count value = store memory other count otherValue) :
    value = load memory address count := by
  calc
    value = load (store memory address count value) address count :=
      (load_store fits value).symm
    _ = load (store memory other count otherValue) address count := by rw [equal]
    _ = load memory address count := load_store_of_disjoint disjoint otherValue

/-! ## Regions -/

section Regions

variable {region : Set (BitVec width)} {left right : Memory width}

def Within (region : Set (BitVec width)) (address : BitVec width) (count : Nat) : Prop :=
  ∀ index < count, address + BitVec.ofNat width index ∈ region

theorem load_of_eqOn (agree : Set.EqOn left right region)
    (within : Within region address count) :
    load left address count = load right address count := by
  apply eq_of_bytes
  intro index inRange
  rw [extract_load _ _ inRange, extract_load _ _ inRange]
  exact agree (within index inRange)

theorem store_eqOn (agree : Set.EqOn left right region) (address : BitVec width)
    (value : BitVec (8 * count)) :
    Set.EqOn (store left address count value) (store right address count value) region := by
  intro other member
  unfold store
  dsimp only
  split
  · rfl
  · exact agree member

theorem store_eqOn_compl (within : Within region address count)
    (value : BitVec (8 * count)) :
    Set.EqOn (store memory address count value) memory regionᶜ := by
  intro other outside
  apply if_neg
  intro inRange
  apply outside
  have inside := within _ inRange
  rwa [BitVec.ofNat_toNat, BitVec.setWidth_eq, BitVec.add_comm,
    BitVec.sub_add_cancel] at inside

end Regions

/-! ## Cells -/

universe u

structure Cells (Name : Type u) (width count : Nat) where
  names : List Name
  address : Name → BitVec width
  apart : ∀ left ∈ names, ∀ right ∈ names, left ≠ right →
    Disjoint (address left) count (address right) count

namespace Cells

variable {Name : Type u} {cells : Cells Name width count} {name : Name}
variable {values : Name → BitVec (8 * count)}

def region (cells : Cells Name width count) : Set (BitVec width) :=
  {other | ∃ name ∈ cells.names, (other - cells.address name).toNat < count}

instance (cells : Cells Name width count) : DecidablePred (· ∈ cells.region) := fun other =>
  inferInstanceAs (Decidable (∃ name ∈ cells.names, (other - cells.address name).toNat < count))

def Hold (cells : Cells Name width count) (memory : Memory width)
    (values : Name → BitVec (8 * count)) : Prop :=
  ∀ name ∈ cells.names, load memory (cells.address name) count = values name

theorem within_region (fits : count ≤ 2 ^ width) (member : name ∈ cells.names) :
    Within cells.region (cells.address name) count := by
  intro index inRange
  refine ⟨name, member, ?_⟩
  rwa [offset_of_add _ (by omega)]

theorem Hold.store [DecidableEq Name] (fits : count ≤ 2 ^ width)
    (holds : cells.Hold memory values) (member : name ∈ cells.names)
    (value : BitVec (8 * count)) :
    cells.Hold (store memory (cells.address name) count value)
      (Function.update values name value) := by
  intro other otherMember
  by_cases same : other = name
  · subst same
    rw [load_store fits, Function.update_self]
  · rw [load_store_of_disjoint (cells.apart name member other otherMember (Ne.symm same)),
      Function.update_of_ne same]
    exact holds other otherMember

theorem Hold.of_eqOn {after : Memory width} (fits : count ≤ 2 ^ width)
    (holds : cells.Hold memory values) (same : Set.EqOn after memory cells.region) :
    cells.Hold after values := by
  intro name member
  rw [load_of_eqOn same (within_region fits member)]
  exact holds name member

end Cells

end BpfBackend.ByteMemory

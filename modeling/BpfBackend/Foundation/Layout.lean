import Mathlib.Data.List.Basic
import Mathlib.Data.List.Perm.Basic
import Mathlib.Algebra.Order.Ring.Nat

/-! # Layouts and patches

Items of known sizes are placed one after another, and single elements of the
finished array are then overwritten.
-/

namespace BpfBackend.Layout

/-! ## Placing items -/

def place (size : α → Nat) : Nat → List α → List (Nat × α)
  | _, [] => []
  | start, item :: rest => (start, item) :: place size (start + size item) rest

def totalSize (size : α → Nat) (items : List α) : Nat := (items.map size).sum

section Place

variable {size : α → Nat} {start : Nat} {items : List α}

@[simp] theorem totalSize_nil : totalSize size [] = 0 := rfl

@[simp] theorem totalSize_cons (item : α) :
    totalSize size (item :: items) = size item + totalSize size items := rfl

theorem totalSize_replicate (count : Nat) (item : α) :
    totalSize size (List.replicate count item) = count * size item := by
  simp [totalSize]

theorem totalSize_flatten (size : α → Nat) (lists : List (List α)) :
    totalSize size lists.flatten = totalSize (totalSize size) lists := by
  induction lists with
  | nil => rfl
  | cons items rest induction =>
      rw [List.flatten_cons, totalSize_cons, ← induction]
      simp [totalSize]

theorem getElem?_place (start index : Nat) (items : List α) :
    (place size start items)[index]? =
      items[index]?.map fun item => (start + totalSize size (items.take index), item) := by
  induction items generalizing start index with
  | nil => rfl
  | cons item rest induction =>
      cases index with
      | zero => rfl
      | succ index =>
          rw [place, List.getElem?_cons_succ, induction, List.getElem?_cons_succ,
            List.take_succ_cons, totalSize_cons, Nat.add_assoc]

theorem place_append (start : Nat) (first second : List α) :
    place size start (first ++ second) =
      place size start first ++ place size (start + totalSize size first) second := by
  induction first generalizing start with
  | nil => rfl
  | cons item rest induction =>
      simp [place, induction, Nat.add_assoc]

theorem place_add (offset start : Nat) (items : List α) :
    place size (offset + start) items =
      (place size start items).map fun placed => (offset + placed.1, placed.2) := by
  induction items generalizing start with
  | nil => rfl
  | cons item rest induction =>
      rw [place, Nat.add_assoc, induction]
      rfl

theorem mem_of_mem_place {placed : Nat × α}
    (member : placed ∈ place size start items) : placed.2 ∈ items := by
  induction items generalizing start with
  | nil => cases member
  | cons item rest induction =>
      rcases List.mem_cons.mp member with rfl | member
      · exact List.mem_cons_self
      · exact List.mem_cons_of_mem _ (induction member)

theorem place_bounds {placed : Nat × α}
    (member : placed ∈ place size start items) :
    start ≤ placed.1 ∧ placed.1 + size placed.2 ≤ start + totalSize size items := by
  induction items generalizing start with
  | nil => cases member
  | cons item rest induction =>
      rw [totalSize_cons]
      rcases List.mem_cons.mp member with rfl | member
      · dsimp only
        omega
      · have bounds := induction member
        omega

end Place

/-! ## Patches -/

def patch (data : List α) (writes : List (Nat × α)) : List α :=
  writes.foldl (fun data write => data.set write.1 write.2) data

section Patch

variable {data : List α} {writes : List (Nat × α)}

theorem patch_append (data : List α) (first second : List (Nat × α)) :
    patch data (first ++ second) = patch (patch data first) second :=
  List.foldl_append

@[simp] theorem length_patch (data : List α) (writes : List (Nat × α)) :
    (patch data writes).length = data.length := by
  induction writes generalizing data with
  | nil => rfl
  | cons write rest induction =>
      exact (induction _).trans List.length_set

theorem patch_append_left {first second : List α}
    (inside : ∀ write ∈ writes, write.1 < first.length) :
    patch (first ++ second) writes = patch first writes ++ second := by
  induction writes generalizing first with
  | nil => rfl
  | cons write rest induction =>
      have moved : (first ++ second).set write.1 write.2 =
          first.set write.1 write.2 ++ second :=
        List.set_append_left _ _ (inside write List.mem_cons_self)
      have further : ∀ other ∈ rest, other.1 < (first.set write.1 write.2).length := by
        intro other member
        rw [List.length_set]
        exact inside other (List.mem_cons_of_mem _ member)
      exact (congrArg (patch · rest) moved).trans (induction further)

theorem patch_append_right (first second : List α) (writes : List (Nat × α)) :
    patch (first ++ second) (writes.map fun write => (first.length + write.1, write.2)) =
      first ++ patch second writes := by
  induction writes generalizing second with
  | nil => rfl
  | cons write rest induction =>
      have moved : (first ++ second).set (first.length + write.1) write.2 =
          first ++ second.set write.1 write.2 := by
        rw [List.set_append_right _ _ (Nat.le_add_right _ _), Nat.add_sub_cancel_left]
      rw [List.map_cons]
      exact (congrArg (patch · _) moved).trans (induction _)

theorem getElem?_patch_of_notMem {index : Nat}
    (untouched : index ∉ writes.map Prod.fst) :
    (patch data writes)[index]? = data[index]? := by
  induction writes generalizing data with
  | nil => rfl
  | cons write rest induction =>
      rw [List.map_cons, List.mem_cons, not_or] at untouched
      exact (induction untouched.2).trans
        (List.getElem?_set_ne (Ne.symm untouched.1))

/-- A write is seen afterwards when no other write touches its position. -/
theorem getElem?_patch_of_mem {write : Nat × α}
    (separate : (writes.map Prod.fst).Nodup) (member : write ∈ writes)
    (inRange : write.1 < data.length) :
    (patch data writes)[write.1]? = some write.2 := by
  induction writes generalizing data with
  | nil => cases member
  | cons first rest induction =>
      rw [List.map_cons, List.nodup_cons] at separate
      rcases List.mem_cons.mp member with rfl | member
      · exact (getElem?_patch_of_notMem separate.1).trans
          (List.getElem?_set_self inRange)
      · exact induction separate.2 member (by rwa [List.length_set])

/-- Writes to different positions may be made in any order. -/
theorem patch_perm {order : List (Nat × α)}
    (separate : (writes.map Prod.fst).Nodup) (permuted : order.Perm writes) :
    patch data order = patch data writes := by
  have orderSeparate : (order.map Prod.fst).Nodup :=
    (permuted.map Prod.fst).nodup_iff.mpr separate
  apply List.ext_getElem?
  intro index
  by_cases inRange : index < data.length
  · by_cases touched : index ∈ writes.map Prod.fst
    · rcases List.mem_map.mp touched with ⟨write, member, rfl⟩
      rw [getElem?_patch_of_mem separate member inRange,
        getElem?_patch_of_mem orderSeparate (permuted.mem_iff.mpr member) inRange]
    · have untouched : index ∉ order.map Prod.fst := fun written =>
        touched ((permuted.map Prod.fst).mem_iff.mp written)
      rw [getElem?_patch_of_notMem touched, getElem?_patch_of_notMem untouched]
  · have beyond : data.length ≤ index := Nat.le_of_not_lt inRange
    rw [List.getElem?_eq_none (by simpa using beyond),
      List.getElem?_eq_none (by simpa using beyond)]

end Patch

end BpfBackend.Layout

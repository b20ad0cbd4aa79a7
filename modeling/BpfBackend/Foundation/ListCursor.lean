import Mathlib.Data.List.Basic

/-! # Cursors in lists

The position of a bidirectional list iterator: what lies above it, nearest
first, and what lies from it on. At the end of the list nothing does.
-/

namespace BpfBackend.ListCursor

structure Cursor (Item : Type) where
  above : List Item
  below : List Item

variable {Item : Type}

namespace Cursor

def toList (cursor : Cursor Item) : List Item := cursor.above.reverse ++ cursor.below

def atEnd (items : List Item) : Cursor Item := ⟨items.reverse, []⟩

/-- The item above the cursor and the cursor at that item; `none` at the
beginning. -/
def retreat (cursor : Cursor Item) : Option (Item × Cursor Item) :=
  match cursor.above with
  | [] => none
  | item :: above => some (item, ⟨above, item :: cursor.below⟩)

def eraseAfter (cursor : Cursor Item) : Cursor Item :=
  ⟨cursor.above, cursor.below.take 1⟩

/-- Erases the item at the cursor and moves to the end. -/
def eraseToEnd (cursor : Cursor Item) : Cursor Item :=
  atEnd (cursor.above.reverse ++ cursor.below.tail)

@[simp] theorem toList_atEnd (items : List Item) : (atEnd items).toList = items := by
  simp [toList, atEnd]

@[simp] theorem length_above_atEnd (items : List Item) :
    (atEnd items).above.length = items.length := by
  simp [atEnd]

theorem eraseToEnd_eraseAfter {cursor : Cursor Item} {item : Item} {below : List Item}
    (at_item : cursor.below = item :: below) :
    cursor.eraseAfter.eraseToEnd = ⟨cursor.above, []⟩ := by
  simp [eraseToEnd, eraseAfter, atEnd, at_item]

end Cursor

end BpfBackend.ListCursor

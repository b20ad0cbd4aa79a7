/-! # Streams of self-delimiting items

An item is written as a nonempty block of symbols, and a reader of one item
leaves the symbols that follow it. Reading until the input is exhausted then
recovers every item of a concatenation.
-/

namespace BpfBackend.ItemStream

/-- Read items until the input is empty. Each item is expected to consume at
least one symbol, so the input's length is enough fuel. -/
def readItems (readOne : List σ → Option (α × List σ)) :
    Nat → List σ → Option (List α)
  | _, [] => some []
  | 0, _ :: _ => none
  | fuel + 1, symbol :: symbols =>
      match readOne (symbol :: symbols) with
      | none => none
      | some (item, rest) => (readItems readOne fuel rest).map (item :: ·)

def readAll (readOne : List σ → Option (α × List σ)) (input : List σ) :
    Option (List α) :=
  readItems readOne input.length input

theorem readItems_of_ne_nil (readOne : List σ → Option (α × List σ))
    (fuel : Nat) {input rest : List σ} {item : α} (nonempty : input ≠ [])
    (reads : readOne input = some (item, rest)) :
    readItems readOne (fuel + 1) input =
      (readItems readOne fuel rest).map (item :: ·) := by
  cases input with
  | nil => exact absurd rfl nonempty
  | cons symbol symbols => simp [readItems, reads]

section Concatenation

variable {readOne : List σ → Option (α × List σ)}
variable {write : β → List σ} {read : β → α}

theorem readItems_flatMap {items : List β}
    (nonempty : ∀ item ∈ items, write item ≠ [])
    (reads : ∀ item ∈ items, ∀ rest,
      readOne (write item ++ rest) = some (read item, rest))
    {fuel : Nat} (enough : items.length ≤ fuel) :
    readItems readOne fuel (items.flatMap write) = some (items.map read) := by
  induction items generalizing fuel with
  | nil => cases fuel <;> rfl
  | cons item items induction =>
      cases fuel with
      | zero => simp at enough
      | succ fuel =>
          have itemNonempty := nonempty item List.mem_cons_self
          have itemReads := reads item List.mem_cons_self (items.flatMap write)
          have restReads := induction
            (fun other member => nonempty other (List.mem_cons_of_mem _ member))
            (fun other member => reads other (List.mem_cons_of_mem _ member))
            (by simpa using enough : items.length ≤ fuel)
          rw [List.flatMap_cons, readItems_of_ne_nil readOne fuel
            (by simp [itemNonempty]) itemReads, restReads]
          rfl

theorem readAll_flatMap_append_of_none {items : List β}
    (nonempty : ∀ item ∈ items, write item ≠ [])
    (reads : ∀ item ∈ items, ∀ rest,
      readOne (write item ++ rest) = some (read item, rest))
    {rest : List σ} (more : rest ≠ []) (fails : readOne rest = none) :
    readAll readOne (items.flatMap write ++ rest) = none := by
  rw [readAll]
  generalize (items.flatMap write ++ rest).length = fuel
  induction items generalizing fuel with
  | nil =>
      cases rest with
      | nil => exact absurd rfl more
      | cons symbol symbols =>
          cases fuel with
          | zero => rfl
          | succ fuel => simp [readItems, fails]
  | cons item items induction =>
      have itemNonempty := nonempty item List.mem_cons_self
      rw [List.flatMap_cons, List.append_assoc]
      cases fuel with
      | zero =>
          cases written : write item with
          | nil => exact absurd written itemNonempty
          | cons symbol symbols => rfl
      | succ fuel =>
          rw [readItems_of_ne_nil readOne fuel (by simp [itemNonempty])
            (reads item List.mem_cons_self _), induction
              (fun other member => nonempty other (List.mem_cons_of_mem _ member))
              (fun other member => reads other (List.mem_cons_of_mem _ member))]
          rfl

theorem length_le_length_flatMap {items : List β}
    (nonempty : ∀ item ∈ items, write item ≠ []) :
    items.length ≤ (items.flatMap write).length := by
  induction items with
  | nil => simp
  | cons item items induction =>
      have itemLength := List.length_pos_iff.mpr (nonempty item List.mem_cons_self)
      have restLength := induction fun other member =>
        nonempty other (List.mem_cons_of_mem _ member)
      simp only [List.flatMap_cons, List.length_append, List.length_cons]
      omega

theorem readAll_flatMap {items : List β}
    (nonempty : ∀ item ∈ items, write item ≠ [])
    (reads : ∀ item ∈ items, ∀ rest,
      readOne (write item ++ rest) = some (read item, rest)) :
    readAll readOne (items.flatMap write) = some (items.map read) :=
  readItems_flatMap nonempty reads (length_le_length_flatMap nonempty)

end Concatenation

/-! ## Cutting an input into blocks -/

section Cutting

variable {readOne : List σ → Option (α × List σ)}

/-- What reads is a concatenation of blocks, one for each item. -/
theorem readAll_blocks
    (cuts : ∀ input item rest, readOne input = some (item, rest) →
      ∃ block, input = block ++ rest ∧ readOne block = some (item, []))
    {input : List σ} {items : List α} (reads : readAll readOne input = some items) :
    ∃ blocks : List (α × List σ), blocks.map Prod.fst = items ∧
      blocks.flatMap Prod.snd = input ∧
      ∀ block ∈ blocks, readOne block.2 = some (block.1, []) := by
  rw [readAll] at reads
  generalize input.length = fuel at reads
  induction fuel generalizing input items with
  | zero =>
      cases input with
      | nil =>
          cases reads
          exact ⟨[], rfl, rfl, by simp⟩
      | cons symbol symbols => cases reads
  | succ fuel induction =>
      cases input with
      | nil =>
          cases reads
          exact ⟨[], rfl, rfl, by simp⟩
      | cons symbol symbols =>
          rw [readItems] at reads
          split at reads
          · cases reads
          · rename_i item rest first
            rcases Option.map_eq_some_iff.mp reads with ⟨others, restReads, rfl⟩
            rcases cuts _ _ _ first with ⟨block, joined, blockReads⟩
            rcases induction restReads with ⟨blocks, names, restJoined, blocksRead⟩
            refine ⟨(item, block) :: blocks, ?_, ?_, ?_⟩
            · rw [List.map_cons, names]
            · rw [List.flatMap_cons, restJoined, joined]
            · exact List.forall_mem_cons.mpr ⟨blockReads, blocksRead⟩

end Cutting

end BpfBackend.ItemStream

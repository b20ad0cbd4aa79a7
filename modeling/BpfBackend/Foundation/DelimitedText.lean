/-! # Delimited texts

A delimiter cuts a text into the blocks in which it does not occur. Texts are
printed as tokens, and two sequences of tokens of the same shape that print the
same text print the same text token by token.
-/

namespace BpfBackend.DelimitedText

/-! ## Blocks -/

theorem append_cons_inj {delimiter : σ} {block other rest otherRest : List σ}
    (absent : delimiter ∉ block) (otherAbsent : delimiter ∉ other)
    (same : block ++ delimiter :: rest = other ++ delimiter :: otherRest) :
    block = other ∧ rest = otherRest := by
  induction block generalizing other with
  | nil =>
      cases other with
      | nil =>
          cases same
          exact ⟨rfl, rfl⟩
      | cons symbol symbols =>
          cases same
          exact absurd List.mem_cons_self otherAbsent
  | cons first block induction =>
      rw [List.mem_cons, not_or] at absent
      cases other with
      | nil =>
          cases same
          exact absurd rfl absent.1
      | cons symbol symbols =>
          rw [List.mem_cons, not_or] at otherAbsent
          rw [List.cons_append, List.cons_append, List.cons.injEq] at same
          rcases induction absent.2 otherAbsent.2 same.2 with ⟨blocksSame, restSame⟩
          exact ⟨List.cons_eq_cons.mpr ⟨same.1, blocksSame⟩, restSame⟩

def lines (delimiter : σ) (blocks : List (List σ)) : List σ := blocks.flatMap (· ++ [delimiter])

theorem lines_inj {delimiter : σ} {blocks others : List (List σ)}
    (absent : ∀ block ∈ blocks, delimiter ∉ block)
    (otherAbsent : ∀ other ∈ others, delimiter ∉ other)
    (same : lines delimiter blocks = lines delimiter others) : blocks = others := by
  induction blocks generalizing others with
  | nil =>
      cases others with
      | nil => rfl
      | cons other others => simp [lines] at same
  | cons block blocks induction =>
      cases others with
      | nil => simp [lines] at same
      | cons other others =>
          rw [lines, lines, List.flatMap_cons, List.flatMap_cons, List.append_assoc,
            List.append_assoc] at same
          rcases append_cons_inj (absent block List.mem_cons_self)
            (otherAbsent other List.mem_cons_self) same with ⟨first, rest⟩
          rw [first, induction (fun later member => absent later (List.mem_cons_of_mem _ member))
            (fun later member => otherAbsent later (List.mem_cons_of_mem _ member)) rest]

/-! ## Tokens -/

section Tokens

variable (print : τ → List σ)

/-- Tokens at the same places. Where they differ they are last, or what separates
both from the rest starts with a symbol that neither of them contains. -/
inductive Aligned : List τ → List τ → Prop where
  | nil : Aligned [] []
  | same (token : τ) {rest otherRest : List τ} :
      Aligned rest otherRest → Aligned (token :: rest) (token :: otherRest)
  | last (token other : τ) : Aligned [token] [other]
  | separated {token other separator : τ} {delimiter : σ} {text : List σ}
      {rest otherRest : List τ} :
      print separator = delimiter :: text →
      delimiter ∉ print token → delimiter ∉ print other → Aligned rest otherRest →
      Aligned (token :: separator :: rest) (other :: separator :: otherRest)

theorem Aligned.map_eq {tokens others : List τ} (aligned : Aligned print tokens others)
    (same : tokens.flatMap print = others.flatMap print) :
    tokens.map print = others.map print := by
  induction aligned with
  | nil => rfl
  | same token aligned induction =>
      rw [List.flatMap_cons, List.flatMap_cons, List.append_cancel_left_eq] at same
      rw [List.map_cons, List.map_cons, induction same]
  | last token other => simpa using same
  | @separated token other separator delimiter text rest otherRest starts absent otherAbsent
      aligned induction =>
      simp only [List.flatMap_cons, starts, List.cons_append] at same
      rcases append_cons_inj absent otherAbsent same with ⟨first, after⟩
      rw [List.append_cancel_left_eq] at after
      simp only [List.map_cons, first, induction after]

end Tokens

end BpfBackend.DelimitedText

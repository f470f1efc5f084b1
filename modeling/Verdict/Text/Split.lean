/-
  Splitting — the pieces of a row between its separators.

  1. **Program** — `splitAt` walks over a row once; `n` separators make `n + 1` pieces, empty ones
     included.

  2. **Pinned** — no piece holds a separator (`not_mem_splitAt`), and the pieces with separators
     between them are the row again (`intercalate_splitAt`).  Pieces that hold no separator are
     found again in the row that is made of them (`splitAt_intercalate`).

  Core only.
-/

namespace Verdict.Text

/-- Puts a character in front of the first piece. -/
def consFirst (c : Char) : List (List Char) → List (List Char)
  | [] => [[c]]
  | piece :: others => (c :: piece) :: others

/-- The pieces of a row between its separators. -/
def splitAt (separator : Char) (cs : List Char) : List (List Char) :=
  cs.foldr (fun c out => if c = separator then [] :: out else consFirst c out) [[]]

theorem splitAt_cons (separator c : Char) (cs : List Char) :
    splitAt separator (c :: cs)
      = if c = separator then [] :: splitAt separator cs
        else consFirst c (splitAt separator cs) := rfl

theorem splitAt_ne_nil (separator : Char) (cs : List Char) : splitAt separator cs ≠ [] := by
  cases cs with
  | nil => nofun
  | cons c cs =>
      rw [splitAt_cons]
      split
      · nofun
      · cases splitAt separator cs <;> nofun

/-- The separator stands in no piece. -/
theorem not_mem_splitAt {separator : Char} {cs piece : List Char}
    (h : piece ∈ splitAt separator cs) : separator ∉ piece := by
  induction cs generalizing piece with
  | nil =>
      cases h with
      | head => nofun
      | tail _ h => nomatch h
  | cons c cs ih =>
      rw [splitAt_cons] at h
      split at h
      · cases h with
        | head => nofun
        | tail _ h => exact ih h
      · rename_i hc
        cases hs : splitAt separator cs with
        | nil => exact absurd hs (splitAt_ne_nil separator cs)
        | cons first others =>
            rw [hs] at h ih
            cases h with
            | head =>
                intro hm
                cases hm with
                | head => exact hc rfl
                | tail _ hm => exact ih (.head _) hm
            | tail _ h => exact ih (.tail _ h)

/-- Nothing is lost: the pieces with separators between them are the row again. -/
theorem intercalate_splitAt (separator : Char) (cs : List Char) :
    [separator].intercalate (splitAt separator cs) = cs := by
  induction cs with
  | nil => rfl
  | cons c cs ih =>
      rw [splitAt_cons]
      cases hs : splitAt separator cs with
      | nil => exact absurd hs (splitAt_ne_nil separator cs)
      | cons first others =>
          rw [hs] at ih
          split
          · rename_i hc
            subst hc
            rw [List.intercalate_cons_cons, ih]
            rfl
          · rw [← ih]
            cases others <;> rfl

/-- Up to the first separator every character stands in the first piece. -/
theorem splitAt_append {separator : Char} {cs others first : List Char} {pieces : List (List Char)}
    (hcs : separator ∉ cs) (h : splitAt separator others = first :: pieces) :
    splitAt separator (cs ++ others) = (cs ++ first) :: pieces := by
  induction cs with
  | nil => exact h
  | cons c cs ih =>
      rw [List.mem_cons, not_or] at hcs
      rw [List.cons_append, splitAt_cons, if_neg (Ne.symm hcs.1), ih hcs.2]
      rfl

/-- The pieces of a row that is made of pieces; there must be at least one. -/
theorem splitAt_intercalate {separator : Char} {pieces : List (List Char)} (hne : pieces ≠ [])
    (h : ∀ piece ∈ pieces, separator ∉ piece) :
    splitAt separator ([separator].intercalate pieces) = pieces := by
  induction pieces with
  | nil => exact absurd rfl hne
  | cons piece pieces ih =>
      have hpiece := h piece (List.mem_cons_self ..)
      rcases pieces with _ | ⟨next, others⟩
      · have hend := splitAt_append hpiece (show splitAt separator [] = [[]] from rfl)
        rw [List.append_nil] at hend
        rw [List.intercalate_singleton]
        exact hend
      · have hothers := ih nofun fun q hq => h q (List.mem_cons_of_mem _ hq)
        have hseparator : splitAt separator
            (separator :: [separator].intercalate (next :: others)) = [] :: next :: others := by
          rw [splitAt_cons, if_pos rfl, hothers]
        have hall := splitAt_append hpiece hseparator
        rw [List.append_nil] at hall
        rw [List.intercalate_cons_cons, List.append_assoc, List.singleton_append]
        exact hall

end Verdict.Text

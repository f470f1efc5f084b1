/-
  Texts — what trimming leaves of a text, and what a path is made of.

  1. **Trimming** — `Trimmed text rest`: nothing but blanks stands in front of the rest and behind
     it, and it neither begins nor ends with a blank.  There is exactly one such rest, the one that
     `trim` finds (`trimmed_iff`).

  2. **Components** — `Component path c`: the root of an absolute path, the dot at the head of a
     relative one, and every piece between slashes that is neither empty nor a dot.

  3. **Lengths** — `pathComponents` leaves out the root and the dot at the head.  These are single
     bytes, so a bound on the length of components does not depend on them
     (`forall_component_iff`).

  Core only.
-/
import Verdict.Text.Blank
import Verdict.Text.Path

namespace Verdict.Text

/-! ## Trimming -/

/-- What is left of a text without the blanks at its two ends. -/
def Trimmed (text rest : String) : Prop :=
  ∃ front back : List Char, text.toList = front ++ rest.toList ++ back
    ∧ (∀ c ∈ front ++ back, isBlank c = true)
    ∧ (∀ c, rest.toList.head? = some c → isBlank c = false)
    ∧ ∀ c, rest.toList.getLast? = some c → isBlank c = false

/-- Dropping goes on to the first character that is kept. -/
theorem dropWhile_append_of_head {p : Char → Bool} {front rest : List Char}
    (hfront : ∀ c ∈ front, p c = true) (hrest : ∀ c, rest.head? = some c → p c = false) :
    (front ++ rest).dropWhile p = rest := by
  rw [List.dropWhile_append_of_pos hfront]
  cases rest with
  | nil => rfl
  | cons c rest =>
      rw [List.dropWhile_cons, hrest c rfl]
      rfl

theorem head_dropWhile_eq_false {p : Char → Bool} {cs : List Char} {c : Char}
    (h : (cs.dropWhile p).head? = some c) : p c = false := by
  have hhead := List.head?_dropWhile_not p cs
  rw [h] at hhead
  exact hhead

/-- Trimming leaves a rest.  It drops the blanks in front, turns the text around, drops the blanks
    that are in front then, and turns it back. -/
theorem trimmed_trim (text : String) : Trimmed text (trim text) := by
  let inner := text.toList.dropWhile isBlank
  let blanks := inner.reverse.takeWhile isBlank
  let kept := inner.reverse.dropWhile isBlank
  have hkept : (trim text).toList = kept.reverse := String.toList_ofList
  have hinner : inner = kept.reverse ++ blanks.reverse := by
    rw [← List.reverse_append, List.takeWhile_append_dropWhile, List.reverse_reverse]
  refine ⟨text.toList.takeWhile isBlank, blanks.reverse, ?_, fun c hc => ?_, fun c hc => ?_,
    fun c hc => ?_⟩
  · rw [hkept, List.append_assoc, ← hinner, List.takeWhile_append_dropWhile]
  · -- Only blanks were taken away, at either end.
    rcases List.mem_append.mp hc with hfront | hback
    · exact List.all_eq_true.mp List.all_takeWhile c hfront
    · exact List.all_eq_true.mp List.all_takeWhile c (List.mem_reverse.mp hback)
  · -- What is kept begins where the text without the blanks in front begins.
    have hhead : inner.head? = some c := by
      rw [hinner, List.head?_append, ← hkept, hc, Option.some_or]
    exact head_dropWhile_eq_false hhead
  · rw [hkept, List.getLast?_reverse] at hc
    exact head_dropWhile_eq_false hc

/-- **Trimming** leaves the one rest that there is.  Of a text that is all blanks nothing is left;
    otherwise the rest has a first and a last character, where the dropping stops from either
    side. -/
theorem trimmed_iff {text rest : String} : Trimmed text rest ↔ rest = trim text := by
  constructor
  · rintro ⟨front, back, htext, hblank, hhead, hlast⟩
    obtain ⟨hfront, hback⟩ := List.forall_mem_append.mp hblank
    have hkept : (text.toList.dropWhile isBlank).reverse.dropWhile isBlank
        = rest.toList.reverse := by
      cases hrest : rest.toList with
      | nil =>
          have hall : text.toList.dropWhile isBlank = [] := by
            rw [htext, hrest, List.append_nil, ← List.append_nil (front ++ back)]
            exact dropWhile_append_of_head hblank nofun
          rw [hall]
          rfl
      | cons first others =>
          have hinner : text.toList.dropWhile isBlank = rest.toList ++ back := by
            rw [htext, List.append_assoc]
            refine dropWhile_append_of_head hfront fun c hc => hhead c ?_
            rw [hrest] at hc ⊢
            exact hc
          rw [hinner, List.reverse_append, ← hrest]
          refine dropWhile_append_of_head (fun c hc => hback c (List.mem_reverse.mp hc)) ?_
          rw [List.head?_reverse]
          exact hlast
    rw [trim, hkept, List.reverse_reverse, String.ofList_toList]
  · rintro rfl
    exact trimmed_trim text

/-! ## Components of paths -/

/-- A component of a path; two dots are a piece like any other. -/
inductive Component (path : String) : String → Prop
  | root {rest : List Char} (absolute : path.toList = '/' :: rest) : Component path "/"
  | here {rest : List Char} (relative : path.toList = '.' :: rest)
      (ends : rest = [] ∨ rest.head? = some '/') : Component path "."
  | piece {pieces : List (List Char)} {piece : List Char}
      (joined : path.toList = ['/'].intercalate pieces) (unbroken : ∀ p ∈ pieces, '/' ∉ p)
      (mem : piece ∈ pieces) (ne_nil : piece ≠ []) (ne_dot : piece ≠ ['.']) :
      Component path (String.ofList piece)

/-- The components that are found: pieces that are neither empty nor a dot. -/
theorem mem_pathComponents_iff {path c : String} :
    c ∈ pathComponents path ↔
      ∃ piece ∈ splitAt '/' path.toList, piece ≠ [] ∧ piece ≠ ['.'] ∧ String.ofList piece = c := by
  have hempty : ∀ piece, String.ofList piece = "" ↔ piece = [] := fun piece => String.ofList_inj
  have hdot : ∀ piece, String.ofList piece = "." ↔ piece = ['.'] := fun piece => String.ofList_inj
  rw [pathComponents, List.mem_filter, List.mem_map]
  simp only [ne_eq, decide_eq_true_eq]
  constructor
  · rintro ⟨⟨piece, hpiece, rfl⟩, hsome, hother⟩
    rw [hempty] at hsome
    rw [hdot] at hother
    exact ⟨piece, hpiece, hsome, hother, rfl⟩
  · rintro ⟨piece, hpiece, hsome, hother, rfl⟩
    rw [hempty, hdot]
    exact ⟨⟨piece, hpiece, rfl⟩, hsome, hother⟩

/-- Apart from the root and the dot at the head, the components of a path are those that are found
    by splitting it. -/
theorem Component.mem_pathComponents {path c : String} (h : Component path c) :
    c = "/" ∨ c = "." ∨ c ∈ pathComponents path := by
  cases h with
  | root absolute => exact Or.inl rfl
  | here relative ends => exact Or.inr (Or.inl rfl)
  | @piece pieces piece joined unbroken mem ne_nil ne_dot =>
      have hsplit : splitAt '/' path.toList = pieces := by
        rw [joined, splitAt_intercalate (List.ne_nil_of_mem mem) unbroken]
      refine Or.inr (Or.inr (mem_pathComponents_iff.mpr ⟨piece, ?_, ne_nil, ne_dot, rfl⟩))
      rw [hsplit]
      exact mem

/-- What is found is a component: the pieces put together again are the path. -/
theorem component_of_mem {path c : String} (h : c ∈ pathComponents path) : Component path c := by
  obtain ⟨piece, hpiece, hsome, hother, rfl⟩ := mem_pathComponents_iff.mp h
  exact .piece (intercalate_splitAt '/' path.toList).symm (fun p hp => not_mem_splitAt hp) hpiece
    hsome hother

/-- **Lengths of components** are bounded iff those of the components between slashes are, since
    the two that are not found there, the root and the dot, are one byte long. -/
theorem forall_component_iff {path : String} {n : Nat} (hn : 1 ≤ n) :
    (∀ c, Component path c → c.utf8ByteSize ≤ n) ↔
      ∀ c ∈ pathComponents path, c.utf8ByteSize ≤ n := by
  constructor
  · intro h c hc
    exact h c (component_of_mem hc)
  · intro h c hc
    rcases hc.mem_pathComponents with rfl | rfl | hmem
    · -- The root, and below the dot: one byte each.
      exact hn
    · exact hn
    · exact h c hmem

end Verdict.Text

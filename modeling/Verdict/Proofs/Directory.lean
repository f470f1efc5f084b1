/-
  Directories as sets — the entries of a directory say nothing of how it came about.

  1. **Invariant** — `Directory.Ascending`: the names of the entries ascend, so that each stands
     there once.  The empty directory ascends, and insertion keeps it (`Ascending.insert`).

  2. **Theorem** — ascending directories in which the same is found under every name are EQUAL
     (`Ascending.ext`).

  Core only.
-/
import Verdict.Directory

namespace Verdict

namespace Directory

variable {α : Type}

/-- Ascending names, each one once. -/
def Ascending (d : Directory α) : Prop := d.entries.Pairwise fun e f => e.1 < f.1

theorem Ascending.empty : (empty : Directory α).Ascending := .nil

/-! ## Insertion -/

/-- An insertion brings in nothing but its entry. -/
theorem mem_insertIn {name : String} {x : α} {es : List (String × α)} {e : String × α}
    (h : e ∈ insertIn name x es) : e = (name, x) ∨ e ∈ es := by
  induction es with
  | nil => exact Or.inl (List.mem_singleton.mp h)
  | cons f es ih =>
      obtain ⟨n, y⟩ := f
      unfold insertIn at h
      split at h
      · exact List.mem_cons.mp h
      · split at h
        · exact (List.mem_cons.mp h).imp_right (List.mem_cons_of_mem _)
        · rcases List.mem_cons.mp h with hfront | hbehind
          · exact Or.inr (hfront ▸ List.mem_cons_self ..)
          · exact (ih hbehind).imp_right (List.mem_cons_of_mem _)

/-- An insertion keeps the names ascending: it goes on to the first name that is not smaller, and
    either takes its place or stands in front of it. -/
theorem Ascending.insert {d : Directory α} (h : d.Ascending) (name : String) (x : α) :
    (d.insert name x).Ascending := by
  obtain ⟨es⟩ := d
  change (insertIn name x es).Pairwise _
  change es.Pairwise _ at h
  induction es with
  | nil => exact List.pairwise_singleton _ _
  | cons f es ih =>
      obtain ⟨n, y⟩ := f
      obtain ⟨hfront, hrest⟩ := List.pairwise_cons.mp h
      unfold insertIn
      split
      · -- In front of the first entry.
        rename_i hlt
        refine List.pairwise_cons.mpr ⟨fun e he => ?_, h⟩
        rcases List.mem_cons.mp he with rfl | he
        · exact hlt
        · exact String.lt_trans hlt (hfront e he)
      · rename_i hle
        split
        · -- In its place.
          rename_i heq
          subst heq
          exact List.pairwise_cons.mpr ⟨hfront, hrest⟩
        · -- Behind it: the new name is neither smaller nor the same, so it is greater.
          rename_i hne
          refine List.pairwise_cons.mpr ⟨fun e he => ?_, ih hrest⟩
          rcases mem_insertIn he with rfl | he
          · have hle' : n ≤ name := String.not_lt.mp hle
            exact Decidable.by_contra fun hnot =>
              hne (String.le_antisymm (String.not_lt.mp hnot) hle')
          · exact hfront e he

/-! ## Equality -/

/-- In an ascending directory the entries are what is found.  A search stops at the first entry of
    the name, which is the only one. -/
theorem Ascending.mem_entries_iff {d : Directory α} (h : d.Ascending) {name : String} {x : α} :
    (name, x) ∈ d.entries ↔ d.get? name = some x := by
  obtain ⟨es⟩ := d
  change es.Pairwise _ at h
  change (name, x) ∈ es ↔ (es.find? (·.1 == name)).map (·.2) = some x
  induction es with
  | nil => exact ⟨nofun, nofun⟩
  | cons f es ih =>
      obtain ⟨n, y⟩ := f
      obtain ⟨hfront, hrest⟩ := List.pairwise_cons.mp h
      rw [List.mem_cons, ih hrest, List.find?_cons]
      by_cases hn : n = name
      · -- Behind the entry there is no other one of the same name.
        subst hn
        have habsent : (es.find? (·.1 == n)).map (·.2) ≠ some x := by
          intro hx
          have hlt : n < n := hfront (n, x) ((ih hrest).mpr hx)
          exact String.lt_irrefl n hlt
        simp [habsent, eq_comm]
      · have hbeq : (n == name) = false := beq_eq_false_iff_ne.mpr hn
        rw [hbeq, Prod.mk.injEq]
        exact or_iff_right fun hfront => hn hfront.1.symm

theorem Ascending.nodup {d : Directory α} (h : d.Ascending) : d.entries.Nodup := by
  refine h.imp fun hlt heq => ?_
  subst heq
  exact String.lt_irrefl _ hlt

/-- **Directories are sets.**  What is found under the names is all that there is: two ascending
    rows with the same entries are permutations of each other, and so they are one row. -/
theorem Ascending.ext {d d' : Directory α} (h : d.Ascending) (h' : d'.Ascending)
    (heq : ∀ name, d.get? name = d'.get? name) : d = d' := by
  have hmem : ∀ e, e ∈ d.entries ↔ e ∈ d'.entries := by
    intro e
    rw [h.mem_entries_iff, h'.mem_entries_iff, heq]
  have hperm : d.entries.Perm d'.entries :=
    (List.perm_ext_iff_of_nodup h.nodup h'.nodup).mpr hmem
  have hentries : d.entries = d'.entries := by
    refine List.Perm.eq_of_pairwise ?_ h h' hperm
    exact fun e f _ _ hef hfe => absurd (String.lt_trans hef hfe) (String.lt_irrefl _)
  cases d
  exact congrArg Directory.mk hentries

end Directory

end Verdict

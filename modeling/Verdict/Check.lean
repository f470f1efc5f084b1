/-
  Checks — statements that pass, or fail with the FIRST objection.

  A check is an `Except ε Unit`, and a row of checks is their sequence: what stands first in a row
  is reported first.  The lemmas below say when a row passes; which objection a failing row
  reports is read off its order.

  Core only.
-/

namespace Verdict

variable {ε α β : Type}

/-- Passes exactly if the condition is met. -/
def ensure (condition : Bool) (otherwise : ε) : Except ε Unit :=
  if condition then .ok () else .error otherwise

/-- Passes exactly if there is no objection. -/
def forbid : Option ε → Except ε Unit
  | none => .ok ()
  | some e => .error e

theorem ensure_eq_ok_iff {condition : Bool} {otherwise : ε} {u : Unit} :
    ensure condition otherwise = .ok u ↔ condition = true := by
  cases condition
  · exact ⟨nofun, nofun⟩
  · exact ⟨fun _ => rfl, fun _ => rfl⟩

theorem forbid_eq_ok_iff {objection : Option ε} {u : Unit} :
    forbid objection = .ok u ↔ objection = none := by
  cases objection
  · exact ⟨fun _ => rfl, fun _ => rfl⟩
  · exact ⟨nofun, nofun⟩

/-- A sequence passes exactly if its first part does, and then its second. -/
theorem bind_eq_ok_iff {x : Except ε α} {f : α → Except ε β} {b : β} :
    (x >>= f) = .ok b ↔ ∃ a, x = .ok a ∧ f a = .ok b := by
  cases x with
  | error e => exact ⟨nofun, fun ⟨_, h, _⟩ => nomatch h⟩
  | ok a => exact ⟨fun h => ⟨a, rfl, h⟩, fun ⟨_, h, h'⟩ => by cases h; exact h'⟩

/-- The same check of every entry of a list passes exactly if it passes for each of them. -/
theorem forM_eq_ok_iff {check : α → Except ε Unit} {xs : List α} {u : Unit} :
    xs.forM check = .ok u ↔ ∀ x ∈ xs, check x = .ok () := by
  induction xs with
  | nil => exact ⟨fun _ => nofun, fun _ => rfl⟩
  | cons x xs ih =>
      change (check x >>= fun _ => xs.forM check) = .ok u ↔ _
      rw [bind_eq_ok_iff]
      constructor
      · rintro ⟨_, hx, hxs⟩ y hy
        cases hy with
        | head => exact hx
        | tail _ h => exact ih.1 hxs y h
      · intro h
        exact ⟨(), h x (.head _), ih.2 fun y hy => h y (.tail _ hy)⟩

/-- The first entry of a list that occurs again behind itself. -/
def firstRepeated? : List String → Option String
  | [] => none
  | x :: xs => if xs.contains x then some x else firstRepeated? xs

theorem firstRepeated?_eq_none_iff {xs : List String} :
    firstRepeated? xs = none ↔ xs.Nodup := by
  induction xs with
  | nil => exact ⟨fun _ => .nil, fun _ => rfl⟩
  | cons x xs ih =>
      rw [List.nodup_cons, firstRepeated?, ← ih, ← List.contains_iff_mem]
      split
      · rename_i h
        exact ⟨nofun, fun hx => absurd h hx.1⟩
      · rename_i h
        exact ⟨fun hx => ⟨h, hx⟩, fun hx => hx.2⟩

end Verdict

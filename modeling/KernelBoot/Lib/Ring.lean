import Mathlib.Data.List.Basic
import Mathlib.Data.Nat.ModEq

/-!
# Ring buffers

`n` slots used in a circle: `count` values start at slot `head` and wrap around at slot `n`. The
values in order are the ring's contents; storing past the last one appends to them, and moving the
head on drops the first.
-/

namespace KernelBoot.Lib

open List

variable {α : Type*}

/-- The values of the ring, oldest first. -/
def ringContents (n : Nat) (slots : Nat → α) (head count : Nat) : List α :=
  (List.range count).map fun k => slots ((head + k) % n)

variable {n head count : Nat} {slots : Nat → α}

@[simp] theorem ringContents_length : (ringContents n slots head count).length = count := by
  rw [ringContents, length_map, length_range]

theorem ringContents_pop :
    ringContents n slots head (count + 1) =
      slots (head % n) :: ringContents n slots ((head + 1) % n) count := by
  rw [ringContents, range_succ_eq_map, map_cons, map_map, Nat.add_zero]
  refine congrArg _ (map_congr_left fun k _ => ?_)
  have hindex : (head + (k + 1)) % n = ((head + 1) % n + k) % n := by
    rw [Nat.mod_add_mod, Nat.add_assoc, Nat.add_comm 1 k]
  exact congrArg slots hindex

/-- Distinct offsets below the size land in distinct slots. -/
theorem ring_index_ne {j k : Nat} (hj : j < k) (hk : k < n) : (head + j) % n ≠ (head + k) % n := by
  intro h
  have hmod : j % n = k % n := Nat.ModEq.add_left_cancel' head h
  rw [Nat.mod_eq_of_lt (by omega), Nat.mod_eq_of_lt hk] at hmod
  omega

theorem ringContents_push {x : α} (hcount : count < n) :
    ringContents n (fun i => if i = (head + count) % n then x else slots i) head (count + 1) =
      ringContents n slots head count ++ [x] := by
  rw [ringContents, range_succ, map_append, map_singleton, if_pos rfl]
  refine congrArg (· ++ [x]) (map_congr_left fun k hk => ?_)
  exact if_neg (ring_index_ne (mem_range.mp hk) hcount)

end KernelBoot.Lib

import Mathlib.Data.List.Basic

/-!
# Absorbing blocks

A list is taken in blocks of `n` items: `absorb` folds the complete blocks at its front into a state
and leaves what does not fill one. Absorbing may stop anywhere and go on later, if what was left is
put in front of what comes.
-/

namespace Blocks

variable {α σ : Type*} (f : σ → List α → σ) (n : ℕ)

def absorb (s : σ) (xs : List α) : σ × List α :=
  if _h : 0 < n ∧ n ≤ xs.length then absorb (f s (xs.take n)) (xs.drop n) else (s, xs)
termination_by xs.length
decreasing_by
  rw [List.length_drop]
  omega

variable {f n} {s : σ} {xs ys b : List α}

theorem absorb_of_lt (h : xs.length < n) : absorb f n s xs = (s, xs) := by
  rw [absorb, dif_neg (by omega)]

theorem absorb_of_le (hn : 0 < n) (h : n ≤ xs.length) :
    absorb f n s xs = absorb f n (f s (xs.take n)) (xs.drop n) := by
  rw [absorb, dif_pos ⟨hn, h⟩]

theorem absorb_block (hn : 0 < n) (hb : b.length = n) :
    absorb f n s (b ++ xs) = absorb f n (f s b) xs := by
  rw [absorb_of_le hn (by rw [List.length_append]; omega), List.take_left' hb, List.drop_left' hb]

/-- Absorbing may be interrupted. -/
theorem absorb_append (hn : 0 < n) (s : σ) (xs ys : List α) :
    absorb f n s (xs ++ ys) = absorb f n (absorb f n s xs).1 ((absorb f n s xs).2 ++ ys) := by
  induction s, xs using absorb.induct (f := f) (n := n) with
  | case1 s xs h ih =>
    have hlen : n ≤ (xs ++ ys).length := by
      rw [List.length_append]
      omega
    rw [absorb_of_le hn hlen, absorb_of_le hn h.2, List.take_append_of_le_length h.2,
      List.drop_append_of_le_length h.2, ih]
  | case2 s xs h =>
    have hlt : xs.length < n := by omega
    rw [absorb_of_lt hlt]

theorem length_absorb (s : σ) (xs : List α) : (absorb f n s xs).2.length = xs.length % n := by
  induction s, xs using absorb.induct (f := f) (n := n) with
  | case1 s xs h ih =>
    rw [absorb_of_le h.1 h.2, ih, List.length_drop, ← Nat.mod_eq_sub_mod h.2]
  | case2 s xs h =>
    rw [absorb, dif_neg h]
    by_cases hn : 0 < n
    · rw [Nat.mod_eq_of_lt (by omega)]
    · rw [Nat.eq_zero_of_not_pos hn, Nat.mod_zero]

end Blocks

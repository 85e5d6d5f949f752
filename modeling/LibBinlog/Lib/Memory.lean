import Mathlib.Algebra.Order.Ring.Int
import Mathlib.Data.Int.Basic
import Mathlib.Data.List.Basic
import Mathlib.Data.List.GetD
import Mathlib.Tactic.Ring

/-!
# Byte memory around a pointer

A pointer's surroundings are a total map from signed offsets to bytes, so reads before or past an
object give whatever stands there. `Holds m p bs` says that the bytes `bs` stand at offset `p`;
a parser's correctness is stated against `Holds` and therefore for every surrounding memory.
-/

namespace Memory

abbrev Mem := ℤ → UInt8

variable {m : Mem} {p : ℤ} {bs cs : List UInt8}

def slice (m : Mem) : ℤ → ℕ → List UInt8
  | _, 0 => []
  | p, n + 1 => m p :: slice m (p + 1) n

@[simp] theorem slice_zero (m : Mem) (p : ℤ) : slice m p 0 = [] := rfl

theorem slice_succ (m : Mem) (p : ℤ) (n : ℕ) : slice m p (n + 1) = m p :: slice m (p + 1) n := rfl

@[simp] theorem length_slice (m : Mem) (p : ℤ) (n : ℕ) : (slice m p n).length = n := by
  induction n generalizing p with
  | zero => rfl
  | succ n ih => simp only [slice_succ, List.length_cons, ih]

theorem slice_add (m : Mem) (p : ℤ) (a b : ℕ) :
    slice m p (a + b) = slice m p a ++ slice m (p + a) b := by
  induction a generalizing p with
  | zero => simp
  | succ a ih =>
    rw [Nat.add_right_comm, slice_succ, slice_succ, ih, List.cons_append]
    congr 3
    push_cast
    ring

theorem take_slice (m : Mem) (p : ℤ) {n k : ℕ} (hk : k ≤ n) :
    (slice m p n).take k = slice m p k := by
  obtain ⟨j, rfl⟩ := Nat.exists_eq_add_of_le hk
  rw [slice_add, List.take_left' (length_slice m p k)]

theorem drop_slice (m : Mem) (p : ℤ) {n k : ℕ} (hk : k ≤ n) :
    (slice m p n).drop k = slice m (p + k) (n - k) := by
  obtain ⟨j, rfl⟩ := Nat.exists_eq_add_of_le hk
  rw [slice_add, List.drop_left' (length_slice m p k), Nat.add_sub_cancel_left]

/-- Equal blocks have equal fronts and equal rests. -/
theorem slice_eq_split {m' : Mem} {p' : ℤ} {a b : ℕ}
    (h : slice m p (a + b) = slice m' p' (a + b)) :
    slice m p a = slice m' p' a ∧ slice m (p + a) b = slice m' (p' + a) b := by
  rw [slice_add, slice_add] at h
  exact List.append_inj h (by simp)

theorem getElem_slice (m : Mem) (p : ℤ) (n i : ℕ) (hi : i < (slice m p n).length) :
    (slice m p n)[i] = m (p + i) := by
  induction n generalizing p i with
  | zero => simp at hi
  | succ n ih =>
    cases i with
    | zero => simp [slice_succ]
    | succ i =>
      simp only [slice_succ, List.getElem_cons_succ, ih]
      congr 1
      push_cast
      ring

def Holds (m : Mem) (p : ℤ) (bs : List UInt8) : Prop := slice m p bs.length = bs

instance (m : Mem) (p : ℤ) (bs : List UInt8) : Decidable (Holds m p bs) :=
  inferInstanceAs (Decidable (slice m p bs.length = bs))

@[simp] theorem holds_nil (m : Mem) (p : ℤ) : Holds m p [] := rfl

theorem holds_cons {b : UInt8} : Holds m p (b :: bs) ↔ m p = b ∧ Holds m (p + 1) bs := by
  simp only [Holds, List.length_cons, slice_succ, List.cons.injEq]

theorem holds_append : Holds m p (bs ++ cs) ↔ Holds m p bs ∧ Holds m (p + bs.length) cs := by
  simp only [Holds, List.length_append, slice_add]
  constructor
  · exact fun h => List.append_inj h (length_slice m p bs.length)
  · exact fun h => congrArg₂ _ h.1 h.2

theorem Holds.slice_eq (h : Holds m p bs) {n : ℕ} (hn : n = bs.length) : slice m p n = bs := by
  rw [hn]
  exact h

theorem Holds.getElem (h : Holds m p bs) {i : ℕ} (hi : i < bs.length) : m (p + i) = bs[i] := by
  rw [← getElem_slice m p bs.length i (by simpa using hi)]
  exact List.getElem_of_eq h _

theorem Holds.left (h : Holds m p (bs ++ cs)) : Holds m p bs := (holds_append.mp h).1

theorem Holds.right (h : Holds m p (bs ++ cs)) : Holds m (p + bs.length) cs :=
  (holds_append.mp h).2

/-- The second of two adjacent blocks, at a natural offset. -/
theorem Holds.next {n k : ℕ} (h : Holds m n (bs ++ cs)) (hk : k = n + bs.length) :
    Holds m k cs := by
  subst hk
  exact_mod_cast h.right

theorem Holds.slice_take (h : Holds m p bs) {k : ℕ} (hk : k ≤ bs.length) :
    slice m p k = bs.take k := by
  rw [← List.take_append_drop k bs] at h
  exact h.left.slice_eq (List.length_take_of_le hk).symm

/-- A part of a block at offset zero. -/
theorem Holds.slice_drop (h : Holds m 0 bs) {k j : ℕ} (hj : k + j ≤ bs.length) :
    slice m k j = (bs.drop k).take j := by
  rw [← List.take_append_drop k bs] at h
  have hright := h.right
  rw [List.length_take_of_le (by omega), zero_add] at hright
  exact hright.slice_take (by rw [List.length_drop]; omega)

theorem slice_congr {m' : Mem} {n : ℕ} (h : ∀ i, p ≤ i → i < p + n → m i = m' i) :
    slice m p n = slice m' p n := by
  apply List.ext_getElem (by simp)
  intro i hi _
  rw [length_slice] at hi
  rw [getElem_slice, getElem_slice]
  exact h _ (by omega) (by omega)

theorem holds_congr {m' : Mem} (h : ∀ i, p ≤ i → i < p + bs.length → m i = m' i) :
    Holds m p bs ↔ Holds m' p bs := by
  rw [Holds, Holds, slice_congr h]

/-- Memory after copying `bs` to offset `p`. -/
def store (m : Mem) (p : ℤ) (bs : List UInt8) : Mem :=
  fun i => if p ≤ i ∧ i < p + bs.length then bs.getD (i - p).toNat 0 else m i

theorem holds_store (m : Mem) (p : ℤ) (bs : List UInt8) : Holds (store m p bs) p bs := by
  apply List.ext_getElem (by simp)
  intro i hi hi'
  have hr : p ≤ p + (i : ℤ) ∧ p + (i : ℤ) < p + bs.length := by omega
  have hn : (p + (i : ℤ) - p).toNat = i := by omega
  rw [getElem_slice, store, if_pos hr, hn, List.getD_eq_getElem _ _ hi']

theorem store_of_lt (m : Mem) {i : ℤ} (h : i < p) : store m p bs i = m i :=
  if_neg (by omega)

theorem store_of_ge (m : Mem) {i : ℤ} (h : p + bs.length ≤ i) : store m p bs i = m i :=
  if_neg (by omega)

/-- Copying a block behind another one leaves that one in place. -/
theorem Holds.store_append (h : Holds m p bs) (cs : List UInt8) :
    Holds (store m (p + bs.length) cs) p (bs ++ cs) := by
  refine holds_append.mpr ⟨?_, holds_store _ _ _⟩
  refine (holds_congr fun i _ hi => ?_).mpr h
  exact store_of_lt _ hi

theorem holds_store_store (m : Mem) (p : ℤ) (bs cs : List UInt8) :
    Holds (store (store m p bs) (p + bs.length) cs) p (bs ++ cs) :=
  (holds_store m p bs).store_append cs

/-- Memory that holds the block, and agrees with `m` elsewhere. -/
theorem Holds.eq_store {m' : Mem} (h : Holds m' p bs) (hlow : ∀ i < p, m' i = m i)
    (hhigh : ∀ i, p + bs.length ≤ i → m' i = m i) : m' = store m p bs := by
  funext i
  by_cases hlt : i < p
  · rw [store_of_lt m hlt, hlow i hlt]
  by_cases hge : p + bs.length ≤ i
  · rw [store_of_ge m hge, hhigh i hge]
  obtain ⟨k, rfl⟩ := Int.le.dest (Int.not_lt.mp hlt)
  have hk : k < bs.length := by omega
  exact (h.getElem hk).trans ((holds_store m p bs).getElem hk).symm

/-- Storing what is there already changes nothing. -/
theorem Holds.store_eq (h : Holds m p bs) : store m p bs = m :=
  (h.eq_store (fun _ _ => rfl) fun _ _ => rfl).symm

theorem store_store_append (m : Mem) (p : ℤ) (bs cs : List UInt8) :
    store (store m p bs) (p + bs.length) cs = store m p (bs ++ cs) := by
  apply (holds_store_store m p bs cs).eq_store
  · intro i hi
    rw [store_of_lt _ (by omega), store_of_lt m hi]
  · intro i hi
    rw [List.length_append] at hi
    rw [store_of_ge _ (by omega), store_of_ge m (by omega)]

/-- Memory after `realloc`: the bytes that both sizes have are kept, and behind them stands whatever
`fresh` has. -/
def realloc (fresh m : Mem) (oldlen newlen : ℤ) : Mem :=
  fun i => if i < min oldlen newlen then m i else fresh i

theorem Holds.realloc (h : Holds m p bs) (fresh : Mem) {oldlen newlen : ℤ}
    (hold : p + bs.length ≤ oldlen) (hnew : p + bs.length ≤ newlen) :
    Holds (realloc fresh m oldlen newlen) p bs :=
  (holds_congr fun _ _ hi => if_pos (lt_min (by omega) (by omega))).mpr h

theorem realloc_self (m : Mem) (oldlen newlen : ℤ) : realloc m m oldlen newlen = m :=
  funext fun _ => ite_self _

/-- A block of bytes at offset zero, surrounded by zeros. -/
def ofBytes (bs : List UInt8) : Mem := store (fun _ => 0) 0 bs

theorem holds_ofBytes (bs : List UInt8) : Holds (ofBytes bs) 0 bs := holds_store _ _ _

/-! ## Little- and big-endian numbers -/

def leNat : List UInt8 → ℕ
  | [] => 0
  | b :: bs => b.toNat + 256 * leNat bs

def leBytes : ℕ → ℕ → List UInt8
  | 0, _ => []
  | k + 1, n => UInt8.ofNat n :: leBytes k (n / 256)

def beNat (bs : List UInt8) : ℕ := leNat bs.reverse

def beBytes (k n : ℕ) : List UInt8 := (leBytes k n).reverse

@[simp] theorem length_leBytes (k n : ℕ) : (leBytes k n).length = k := by
  induction k generalizing n with
  | zero => rfl
  | succ k ih => simp only [leBytes, List.length_cons, ih]

@[simp] theorem length_beBytes (k n : ℕ) : (beBytes k n).length = k := by
  rw [beBytes, List.length_reverse, length_leBytes]

theorem leNat_leBytes (k n : ℕ) : leNat (leBytes k n) = n % 256 ^ k := by
  induction k generalizing n with
  | zero => simp [leBytes, leNat, Nat.mod_one]
  | succ k ih =>
    have hb : (UInt8.ofNat n).toNat = n % 256 := UInt8.toNat_ofNat'
    rw [leBytes, leNat, ih, hb, pow_succ', Nat.mod_mul]

theorem leNat_leBytes_of_lt {k n : ℕ} (h : n < 256 ^ k) : leNat (leBytes k n) = n := by
  rw [leNat_leBytes, Nat.mod_eq_of_lt h]

theorem beNat_beBytes_of_lt {k n : ℕ} (h : n < 256 ^ k) : beNat (beBytes k n) = n := by
  rw [beNat, beBytes, List.reverse_reverse, leNat_leBytes_of_lt h]

theorem leBytes_succ' (k n : ℕ) :
    leBytes (k + 1) n = leBytes k n ++ [UInt8.ofNat (n / 256 ^ k)] := by
  induction k generalizing n with
  | zero => simp [leBytes]
  | succ k ih => rw [leBytes, ih, leBytes, Nat.div_div_eq_div_mul, pow_succ', List.cons_append]

theorem leBytes_add (k j n : ℕ) : leBytes (k + j) n = leBytes k n ++ leBytes j (n / 256 ^ k) := by
  induction k generalizing n with
  | zero => simp [leBytes]
  | succ k ih =>
    rw [Nat.add_right_comm, leBytes, ih, leBytes, Nat.div_div_eq_div_mul, pow_succ',
      List.cons_append]

/-- Only the bytes that are written count. -/
theorem leBytes_mod (k n : ℕ) : leBytes k (n % 256 ^ k) = leBytes k n := by
  induction k generalizing n with
  | zero => rfl
  | succ k ih =>
    have hbyte : UInt8.ofNat (n % 256 ^ (k + 1)) = UInt8.ofNat n := by
      apply UInt8.toNat_inj.mp
      rw [UInt8.toNat_ofNat', UInt8.toNat_ofNat']
      exact Nat.mod_mod_of_dvd n (Dvd.intro_left (256 ^ k) rfl)
    rw [leBytes, leBytes, hbyte, pow_succ', Nat.mod_mul_right_div_self, ih]

theorem beBytes_succ (k n : ℕ) : beBytes (k + 1) n = UInt8.ofNat (n / 256 ^ k) :: beBytes k n := by
  rw [beBytes, leBytes_succ', List.reverse_append]
  rfl

/-- Complementing every byte subtracts from the largest number of that width. -/
theorem leNat_map_complement (bs : List UInt8) :
    leNat (bs.map (~~~·)) + leNat bs + 1 = 256 ^ bs.length := by
  induction bs with
  | nil => rfl
  | cons b bs ih =>
    have hb := b.toNat_lt
    have hc : (~~~b).toNat = 255 - b.toNat := UInt8.toNat_not b
    rw [List.map_cons, leNat, leNat, hc, List.length_cons, pow_succ, ← ih]
    omega

theorem leNat_lt (bs : List UInt8) : leNat bs < 256 ^ bs.length := by
  induction bs with
  | nil => simp [leNat]
  | cons b bs ih =>
    have hb := b.toNat_lt
    rw [leNat, List.length_cons, pow_succ]
    omega

/-- A little-endian number that stands in memory is read back. -/
theorem Holds.leNat_slice {k n : ℕ} (h : Holds m p (leBytes k n)) (hn : n < 256 ^ k) :
    leNat (slice m p k) = n := by
  rw [h.slice_eq (length_leBytes k n).symm, leNat_leBytes_of_lt hn]

/-! ## Bitmaps, least significant bit first -/

def bitAt (bitmap : List UInt8) (i : ℕ) : Bool := (bitmap.getD (i / 8) 0).toNat.testBit (i % 8)

theorem testBit_leNat (bs : List UInt8) (i : ℕ) : (leNat bs).testBit i = bitAt bs i := by
  induction bs generalizing i with
  | nil => simp [leNat, bitAt]
  | cons b bs ih =>
    have hsum : leNat (b :: bs) = 2 ^ 8 * leNat bs + b.toNat := by
      rw [leNat]
      ring
    rw [hsum, Nat.testBit_two_pow_mul_add _ b.toNat_lt, bitAt]
    by_cases hi : i < 8
    · rw [if_pos hi, Nat.div_eq_of_lt hi, Nat.mod_eq_of_lt hi]
      rfl
    · obtain ⟨k, rfl⟩ := Nat.exists_eq_add_of_le (not_lt.mp hi)
      rw [if_neg hi, ih, bitAt, Nat.add_sub_cancel_left, Nat.add_div_left k (by norm_num),
        Nat.add_mod_left]
      rfl

theorem Holds.testBit (h : Holds m p bs) {i : ℕ} (hi : i < 8 * bs.length) :
    (m (p + (i / 8 : ℕ))).toNat.testBit (i % 8) = bitAt bs i := by
  have hd : i / 8 < bs.length := by omega
  rw [h.getElem hd, bitAt, List.getD_eq_getElem _ _ hd]

end Memory

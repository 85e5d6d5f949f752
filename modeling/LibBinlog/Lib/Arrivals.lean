import Mathlib.Data.List.Basic
import Mathlib.Data.List.TakeWhile

/-!
# Streams that end or fail

What arrives on a line is a list of items and failed reads; behind the list the stream has ended, or
is broken for good. `receive` takes a number of items, or those before the first failed read or the
end.
-/

namespace Arrivals

variable {α : Type*} {broken : Bool} {n : ℕ} {arriving later : List (Option α)} {bs : List α}

structure Reception (α : Type*) where
  items : List α
  failed : Bool
  rest : List (Option α)

def receive (broken : Bool) : ℕ → List (Option α) → Reception α
  | 0, arriving => ⟨[], false, arriving⟩
  | _ + 1, [] => ⟨[], broken, []⟩
  | _ + 1, none :: arriving => ⟨[], true, arriving⟩
  | n + 1, some b :: arriving =>
    { receive broken n arriving with items := b :: (receive broken n arriving).items }

/-- The next `n` reads each bring an item. -/
def Arrive (n : ℕ) (arriving : List (Option α)) : Prop :=
  n ≤ (arriving.takeWhile Option.isSome).length

instance (n : ℕ) (arriving : List (Option α)) : Decidable (Arrive n arriving) :=
  inferInstanceAs (Decidable (n ≤ _))

@[simp] theorem receive_zero (arriving : List (Option α)) :
    receive broken 0 arriving = ⟨[], false, arriving⟩ := by
  cases arriving <;> rfl

theorem receive_append (broken : Bool) (bs : List α) (n : ℕ) (later : List (Option α)) :
    receive broken (bs.length + n) (bs.map some ++ later) =
      { receive broken n later with items := bs ++ (receive broken n later).items } := by
  induction bs with
  | nil => rw [List.length_nil, Nat.zero_add]; rfl
  | cons b bs ih =>
    rw [List.length_cons, Nat.add_right_comm, List.map_cons, List.cons_append, receive, ih]
    rfl

theorem receive_whole (hn : n = bs.length) :
    receive broken n (bs.map some ++ later) = ⟨bs, false, later⟩ := by
  subst hn
  have h := receive_append broken bs 0 later
  simpa using h

theorem receive_ended (hn : bs.length < n) :
    receive broken n (bs.map some) = ⟨bs, broken, []⟩ := by
  obtain ⟨k, rfl⟩ := Nat.exists_eq_add_of_lt hn
  have h := receive_append broken bs (k + 1) []
  simpa [receive, Nat.add_assoc] using h

theorem receive_failed (hn : bs.length < n) :
    receive broken n (bs.map some ++ none :: later) = ⟨bs, true, later⟩ := by
  obtain ⟨k, rfl⟩ := Nat.exists_eq_add_of_lt hn
  have h := receive_append broken bs (k + 1) (none :: later)
  simpa [receive, Nat.add_assoc] using h

/-- What a single read of at most `n` items can come to: some of the items that stand first, however
few, nothing at the end of the stream, or a failure. -/
inductive Takes (broken : Bool) (n : ℕ) :
    List (Option α) → Option (List α) → List (Option α) → Prop
  | some (bs : List α) (later : List (Option α)) (hne : bs ≠ []) (hle : bs.length ≤ n) :
    Takes broken n (bs.map some ++ later) (some bs) later
  | failed (later : List (Option α)) : Takes broken n (none :: later) none later
  | ended (h : broken = false) : Takes broken n [] (some []) []
  | broken (h : broken = true) : Takes broken n [] none []

/-- Reading on for the items that are missing makes up for a read that brings too few. -/
theorem receive_of_takes {arriving rest : List (Option α)} (hne : bs ≠ [])
    (h : Takes broken n arriving (some bs) rest) : receive broken n arriving =
      { receive broken (n - bs.length) rest with
        items := bs ++ (receive broken (n - bs.length) rest).items } := by
  cases h with
  | some _ _ _ hle =>
    have happend := receive_append broken bs (n - bs.length) rest
    rwa [Nat.add_sub_cancel' hle] at happend
  | ended => exact absurd rfl hne

theorem receive_of_takes_none {arriving rest : List (Option α)} (hn : 0 < n)
    (h : Takes broken n arriving none rest) : receive broken n arriving = ⟨[], true, rest⟩ := by
  obtain ⟨k, rfl⟩ := Nat.exists_eq_succ_of_ne_zero hn.ne'
  cases h with
  | failed => rfl
  | broken hbroken => rw [receive, hbroken]

theorem receive_of_takes_nil {arriving rest : List (Option α)} (hn : 0 < n)
    (h : Takes broken n arriving (some []) rest) :
    receive broken n arriving = ⟨[], false, rest⟩ := by
  obtain ⟨k, rfl⟩ := Nat.exists_eq_succ_of_ne_zero hn.ne'
  cases h with
  | some _ _ hne => exact absurd rfl hne
  | ended hbroken => rw [receive, hbroken]

/-- Every item received is gone from the line. -/
theorem length_receive (broken : Bool) (n : ℕ) (arriving : List (Option α)) :
    (receive broken n arriving).items.length + (receive broken n arriving).rest.length ≤
      arriving.length := by
  induction n generalizing arriving with
  | zero =>
    rw [receive_zero]
    exact (Nat.zero_add _).le
  | succ n ih =>
    rcases arriving with _ | ⟨_ | b, arriving⟩
    · exact le_rfl
    · exact (Nat.zero_add _).trans_le (Nat.le_succ _)
    · have hrest := ih arriving
      simp only [receive, List.length_cons]
      omega

/-- Either `n` items arrive, or fewer and then nothing, or fewer and then a failed read. -/
theorem arriving_cases (n : ℕ) (arriving : List (Option α)) :
    (∃ (bs : List α) (later : _), n = bs.length ∧ arriving = bs.map some ++ later) ∨
      (∃ bs : List α, bs.length < n ∧ arriving = bs.map some) ∨
      ∃ (bs : List α) (later : _), bs.length < n ∧ arriving = bs.map some ++ none :: later := by
  induction n generalizing arriving with
  | zero => exact .inl ⟨[], arriving, rfl, rfl⟩
  | succ n ih =>
    rcases arriving with _ | ⟨_ | b, arriving⟩
    · exact .inr (.inl ⟨[], Nat.succ_pos n, rfl⟩)
    · exact .inr (.inr ⟨[], arriving, Nat.succ_pos n, rfl⟩)
    · obtain ⟨bs, later, rfl, rfl⟩ | ⟨bs, hlt, rfl⟩ | ⟨bs, later, hlt, rfl⟩ := ih arriving
      · exact .inl ⟨b :: bs, later, rfl, rfl⟩
      · exact .inr (.inl ⟨b :: bs, Nat.succ_lt_succ hlt, rfl⟩)
      · exact .inr (.inr ⟨b :: bs, later, Nat.succ_lt_succ hlt, rfl⟩)

theorem takeWhile_isSome_map (bs : List α) (later : List (Option α)) :
    (bs.map some ++ later).takeWhile Option.isSome =
      bs.map some ++ later.takeWhile Option.isSome := by
  rw [List.takeWhile_append_of_pos]
  simp

theorem arrive_append (hn : n = bs.length) : Arrive n (bs.map some ++ later) := by
  rw [Arrive, takeWhile_isSome_map, List.length_append, List.length_map, hn]
  exact Nat.le_add_right _ _

theorem not_arrive_ended (hn : bs.length < n) : ¬Arrive n (bs.map some) := by
  have h := takeWhile_isSome_map bs []
  rw [List.append_nil, List.takeWhile_nil, List.append_nil] at h
  rw [Arrive, h, List.length_map]
  exact Nat.not_le_of_lt hn

theorem not_arrive_failed (hn : bs.length < n) : ¬Arrive n (bs.map some ++ none :: later) := by
  rw [Arrive, takeWhile_isSome_map, List.takeWhile_cons_of_neg (by simp), List.append_nil,
    List.length_map]
  exact Nat.not_le_of_lt hn

/-- `a` items, and from there `b` more. -/
theorem arrive_add_iff {a b : ℕ} (ha : a = bs.length) :
    Arrive (a + b) (bs.map some ++ later) ↔ Arrive b later := by
  rw [Arrive, Arrive, takeWhile_isSome_map, List.length_append, List.length_map, ha,
    Nat.add_le_add_iff_left]

end Arrivals

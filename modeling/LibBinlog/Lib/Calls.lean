import Mathlib.Data.List.Basic

/-!
# Repeated calls of a fallible operation

`calls f n s` makes `n` calls of `f`, threading the state and collecting the answers; the first
fault ends the run. The rules below split a run into shorter ones, carry an invariant along it,
and transfer it along a simulation.
-/

namespace Calls

variable {σ τ α ε : Type*} {f : σ → Except ε (α × σ)} {g : τ → Except ε (α × τ)}

theorem map_ok {β : Type*} {x : Except ε α} {h : α → β} {b : β} :
    x.map h = .ok b ↔ ∃ a, x = .ok a ∧ h a = b := by
  cases x <;> simp [Except.map]

def calls (f : σ → Except ε (α × σ)) : ℕ → σ → Except ε (List α × σ)
  | 0, s => .ok ([], s)
  | n + 1, s =>
    match f s with
    | .error e => .error e
    | .ok (a, s') =>
      match calls f n s' with
      | .error e => .error e
      | .ok (as, s'') => .ok (a :: as, s'')

@[simp] theorem calls_zero (s : σ) : calls f 0 s = .ok ([], s) := rfl

theorem calls_succ_ok {n : ℕ} {s s' : σ} {as : List α} :
    calls f (n + 1) s = .ok (as, s') ↔
      ∃ a t as', f s = .ok (a, t) ∧ calls f n t = .ok (as', s') ∧ as = a :: as' := by
  constructor
  · intro h
    cases hf : f s with
    | error e => simp only [calls, hf] at h; cases h
    | ok r =>
      obtain ⟨a, t⟩ := r
      cases hc : calls f n t with
      | error e => simp only [calls, hf, hc] at h; cases h
      | ok r =>
        obtain ⟨as', u⟩ := r
        simp only [calls, hf, hc, Except.ok.injEq, Prod.mk.injEq] at h
        obtain ⟨rfl, rfl⟩ := h
        exact ⟨a, t, as', rfl, hc, rfl⟩
  · rintro ⟨a, t, as', hf, hc, rfl⟩
    simp only [calls, hf, hc]

theorem length_calls {n : ℕ} {s s' : σ} {as : List α} (h : calls f n s = .ok (as, s')) :
    as.length = n := by
  induction n generalizing s as with
  | zero =>
    cases h
    rfl
  | succ n ih =>
    obtain ⟨a, t, as', -, hrest, rfl⟩ := calls_succ_ok.mp h
    exact congrArg Nat.succ (ih hrest)

theorem calls_succ_congr {n : ℕ} {s t : σ} (h : f s = f t) :
    calls f (n + 1) s = calls f (n + 1) t := by
  rw [calls, calls, h]

theorem calls_one {s s' : σ} {a : α} (h : f s = .ok (a, s')) : calls f 1 s = .ok ([a], s') :=
  calls_succ_ok.mpr ⟨a, s', [], h, rfl, rfl⟩

/-- A run of `m + n` calls is a run of `m` calls followed by one of `n`. -/
theorem calls_add_ok {m n : ℕ} {s s' : σ} {as : List α} :
    calls f (m + n) s = .ok (as, s') ↔
      ∃ as₁ t as₂, calls f m s = .ok (as₁, t) ∧ calls f n t = .ok (as₂, s') ∧ as = as₁ ++ as₂ := by
  induction m generalizing s as with
  | zero => simp
  | succ m ih =>
    rw [Nat.add_right_comm, calls_succ_ok]
    constructor
    · rintro ⟨a, t, as', hf, hc, rfl⟩
      obtain ⟨as₁, u, as₂, h₁, h₂, rfl⟩ := ih.mp hc
      exact ⟨a :: as₁, u, as₂, calls_succ_ok.mpr ⟨a, t, as₁, hf, h₁, rfl⟩, h₂, rfl⟩
    · rintro ⟨as₁, u, as₂, h₁, h₂, rfl⟩
      obtain ⟨a, t, as', hf, hc, rfl⟩ := calls_succ_ok.mp h₁
      exact ⟨a, t, as' ++ as₂, hf, ih.mpr ⟨as', u, as₂, hc, h₂, rfl⟩, rfl⟩

theorem calls_snoc_ok {n : ℕ} {s s' : σ} {as : List α} :
    calls f (n + 1) s = .ok (as, s') ↔
      ∃ as' t a, calls f n s = .ok (as', t) ∧ f t = .ok (a, s') ∧ as = as' ++ [a] := by
  rw [calls_add_ok]
  constructor
  · rintro ⟨as₁, t, as₂, h₁, h₂, rfl⟩
    obtain ⟨a, u, as', hf, hc, rfl⟩ := calls_succ_ok.mp h₂
    cases hc
    exact ⟨as₁, t, a, h₁, hf, rfl⟩
  · rintro ⟨as', t, a, h₁, hf, rfl⟩
    exact ⟨as', t, [a], h₁, calls_one hf, rfl⟩

/-- A run that gives an answer has a call that gives it. -/
theorem calls_of_mem {n : ℕ} {s s' : σ} {as : List α} {a : α} (ha : a ∈ as)
    (h : calls f n s = .ok (as, s')) : ∃ m k as₁ as₂ t u, calls f m s = .ok (as₁, t) ∧
      f t = .ok (a, u) ∧ calls f k u = .ok (as₂, s') := by
  induction n generalizing s as with
  | zero =>
    cases h
    contradiction
  | succ n ih =>
    obtain ⟨b, t, as', hf, hc, rfl⟩ := calls_succ_ok.mp h
    obtain rfl | ha := List.mem_cons.mp ha
    · exact ⟨0, n, [], as', s, t, rfl, hf, hc⟩
    · obtain ⟨m, k, as₁, as₂, u, v, h₁, hfu, h₂⟩ := ih ha hc
      exact ⟨m + 1, k, b :: as₁, as₂, u, v, calls_succ_ok.mpr ⟨b, t, as₁, hf, h₁, rfl⟩, hfu, h₂⟩

/-- A property that every call preserves holds after any run. -/
theorem calls_invariant {P : σ → Prop} (hstep : ∀ s a s', P s → f s = .ok (a, s') → P s')
    {n : ℕ} {s s' : σ} {as : List α} (hs : P s) (h : calls f n s = .ok (as, s')) : P s' := by
  induction n generalizing s as with
  | zero => cases h; exact hs
  | succ n ih =>
    obtain ⟨a, t, as', hf, hc, rfl⟩ := calls_succ_ok.mp h
    exact ih (hstep s a t hs hf) hc

/-- After any number of calls `P` holds. -/
def Always (f : σ → Except ε (α × σ)) (P : σ → Prop) (s : σ) : Prop :=
  ∀ n as s', calls f n s = .ok (as, s') → P s'

theorem always_iff {P : σ → Prop} {s : σ} :
    Always f P s ↔ P s ∧ ∀ a s', f s = .ok (a, s') → Always f P s' := by
  constructor
  · refine fun h => ⟨h 0 [] s rfl, fun a s' hf n as s'' hc => ?_⟩
    exact h (n + 1) (a :: as) s'' (calls_succ_ok.mpr ⟨a, s', as, hf, hc, rfl⟩)
  · rintro ⟨hs, hnext⟩ n as s' hc
    cases n with
    | zero =>
      cases hc
      exact hs
    | succ n =>
      obtain ⟨a, t, as', hf, hrest, rfl⟩ := calls_succ_ok.mp hc
      exact hnext a t hf n as' s' hrest

theorem always_of_invariant {I P : σ → Prop}
    (hstep : ∀ s a s', I s → f s = .ok (a, s') → I s') (hP : ∀ s, I s → P s) {s : σ} (hs : I s) :
    Always f P s :=
  fun _ _ s' hc => hP s' (calls_invariant hstep hs hc)

/-- Every run goes through, and its `i`-th answer meets `R i`. -/
def Gives (f : σ → Except ε (α × σ)) (R : ℕ → α → Prop) (s : σ) : Prop :=
  ∀ n, ∃ as s', calls f n s = .ok (as, s') ∧ ∀ i (hi : i < as.length), R i as[i]

/-- The first call, and the calls behind it. -/
theorem gives_iff {R : ℕ → α → Prop} {s : σ} :
    Gives f R s ↔ ∃ a t, f s = .ok (a, t) ∧ R 0 a ∧ Gives f (fun i => R (i + 1)) t := by
  constructor
  · intro h
    obtain ⟨as, s', hc, has⟩ := h 1
    obtain ⟨a, t, as', hf, -, rfl⟩ := calls_succ_ok.mp hc
    refine ⟨a, t, hf, has 0 (Nat.zero_lt_succ _), fun n => ?_⟩
    obtain ⟨as, s'', hc, has⟩ := h (n + 1)
    obtain ⟨b, u, as', hf', hrest, rfl⟩ := calls_succ_ok.mp hc
    obtain ⟨rfl, rfl⟩ := Prod.mk.inj (Except.ok.inj (hf.symm.trans hf'))
    exact ⟨as', s'', hrest, fun i hi => has (i + 1) (Nat.succ_lt_succ hi)⟩
  · rintro ⟨a, t, hf, ha, hrest⟩ n
    cases n with
    | zero => exact ⟨[], s, rfl, fun i hi => absurd hi (Nat.not_lt_zero i)⟩
    | succ n =>
      obtain ⟨as, s', hc, has⟩ := hrest n
      refine ⟨a :: as, s', calls_succ_ok.mpr ⟨a, t, as, hf, hc, rfl⟩, fun i hi => ?_⟩
      cases i with
      | zero => exact ha
      | succ i => exact has i (Nat.lt_of_succ_lt_succ hi)

/-- A property of states that every call keeps and whose answers all meet `R`. -/
theorem gives_of_invariant {I : σ → Prop} {P : α → Prop}
    (hstep : ∀ s, I s → ∃ a t, f s = .ok (a, t) ∧ P a ∧ I t) {s : σ} (hs : I s) :
    Gives f (fun _ => P) s := by
  intro n
  induction n generalizing s with
  | zero => exact ⟨[], s, rfl, fun i hi => absurd hi (Nat.not_lt_zero i)⟩
  | succ n ih =>
    obtain ⟨a, t, hf, ha, ht⟩ := hstep s hs
    obtain ⟨as, s', hc, has⟩ := ih ht
    refine ⟨a :: as, s', calls_succ_ok.mpr ⟨a, t, as, hf, hc, rfl⟩, fun i hi => ?_⟩
    cases i with
    | zero => exact ha
    | succ i => exact has i (Nat.lt_of_succ_lt_succ hi)

/-- Calls that hand out a list item by item, and then nothing any more: `I` says which items are
left, `J` that the end has been met. -/
theorem calls_of_items {f : σ → Except ε (Option α × σ)} {I : List α → σ → Prop} {J : σ → Prop}
    (hitem : ∀ x xs s, I (x :: xs) s → ∃ t, f s = .ok (some x, t) ∧ I xs t)
    (hend : ∀ s, I [] s → ∃ t, f s = .ok (none, t) ∧ J t)
    (hended : ∀ s, J s → ∃ t, f s = .ok (none, t) ∧ J t) {xs : List α} {s : σ} (hs : I xs s)
    (n : ℕ) : ∃ as t, calls f n s = .ok (as, t) ∧
      (∀ i (hi : i < as.length), as[i] = xs[i]?) ∧
      (n ≤ xs.length → I (xs.drop n) t) ∧ (xs.length < n → J t) := by
  have hafter : ∀ n s, J s → ∃ as t, calls f n s = .ok (as, t) ∧ (∀ a ∈ as, a = none) ∧ J t := by
    intro n
    induction n with
    | zero => exact fun s hs => ⟨[], s, rfl, List.forall_mem_nil _, hs⟩
    | succ n ih =>
      intro s hs
      obtain ⟨t, hf, ht⟩ := hended s hs
      obtain ⟨as, u, hc, has, hu⟩ := ih t ht
      exact ⟨none :: as, u, calls_succ_ok.mpr ⟨none, t, as, hf, hc, rfl⟩,
        List.forall_mem_cons.mpr ⟨rfl, has⟩, hu⟩
  induction n generalizing s xs with
  | zero => exact ⟨[], s, rfl, fun i hi => absurd hi (Nat.not_lt_zero i), fun _ => hs,
      fun hlt => absurd hlt (Nat.not_lt_zero _)⟩
  | succ n ih =>
    cases xs with
    | nil =>
      obtain ⟨t, hf, ht⟩ := hend s hs
      obtain ⟨as, u, hc, has, hu⟩ := hafter n t ht
      refine ⟨none :: as, u, calls_succ_ok.mpr ⟨none, t, as, hf, hc, rfl⟩, fun i hi => ?_,
        fun hle => absurd hle (Nat.not_succ_le_zero n), fun _ => hu⟩
      rw [List.getElem?_nil]
      cases i with
      | zero => rfl
      | succ i => exact has _ (List.getElem_mem _)
    | cons x xs =>
      obtain ⟨t, hf, ht⟩ := hitem x xs s hs
      obtain ⟨as, u, hc, has, hleft, hdone⟩ := ih ht
      refine ⟨some x :: as, u, calls_succ_ok.mpr ⟨some x, t, as, hf, hc, rfl⟩, fun i hi => ?_,
        fun hle => hleft (Nat.le_of_succ_le_succ hle),
        fun hlt => hdone (Nat.lt_of_succ_lt_succ hlt)⟩
      cases i with
      | zero => rfl
      | succ i => exact has i (Nat.lt_of_succ_lt_succ hi)

/-- Two outcomes agree: the same answer and related states, or the same fault. -/
def Agree (R : σ → τ → Prop) : Except ε (α × σ) → Except ε (α × τ) → Prop
  | .ok (a, s), .ok (b, t) => a = b ∧ R s t
  | .error e, .error e' => e = e'
  | _, _ => False

@[simp] theorem agree_error {R : σ → τ → Prop} {e e' : ε} :
    Agree (α := α) R (.error e) (.error e') ↔ e = e' := Iff.rfl

theorem Agree.ok_left {R : σ → τ → Prop} {x : Except ε (α × σ)} {y : Except ε (α × τ)} {a : α}
    {s : σ} (h : Agree R x y) (hx : x = .ok (a, s)) : ∃ t, y = .ok (a, t) ∧ R s t := by
  subst hx
  cases y with
  | error e => exact h.elim
  | ok r =>
    obtain ⟨b, t⟩ := r
    obtain ⟨rfl, hr⟩ := h
    exact ⟨t, rfl, hr⟩

theorem Agree.ok_right {R : σ → τ → Prop} {x : Except ε (α × σ)} {y : Except ε (α × τ)} {a : α}
    {t : τ} (h : Agree R x y) (hy : y = .ok (a, t)) : ∃ s, x = .ok (a, s) ∧ R s t := by
  subst hy
  cases x with
  | error e => exact h.elim
  | ok r =>
    obtain ⟨b, s⟩ := r
    obtain ⟨rfl, hr⟩ := h
    exact ⟨s, rfl, hr⟩

theorem Agree.answers {R : σ → τ → Prop} {x : Except ε (α × σ)} {y : Except ε (α × τ)}
    (h : Agree R x y) : x.map Prod.fst = y.map Prod.fst := by
  cases x <;> cases y
  · exact congrArg _ h
  · exact h.elim
  · exact h.elim
  · exact congrArg _ h.1

/-- Two outcomes that agree with a third one agree. -/
theorem Agree.join {υ : Type*} {R : σ → υ → Prop} {R' : τ → υ → Prop} {S : σ → τ → Prop}
    {x : Except ε (α × σ)} {y : Except ε (α × τ)} {z : Except ε (α × υ)} (h : Agree R x z)
    (h' : Agree R' y z) (hS : ∀ s t u, R s u → R' t u → S s t) : Agree S x y := by
  cases z with
  | error e =>
    cases x with
    | error e₁ =>
      cases y with
      | error e₂ => exact h.trans h'.symm
      | ok r => exact h'.elim
    | ok r => exact h.elim
  | ok r =>
    obtain ⟨a, u⟩ := r
    obtain ⟨s, rfl, hs⟩ := h.ok_right rfl
    obtain ⟨t, rfl, ht⟩ := h'.ok_right rfl
    exact ⟨rfl, hS s t u hs ht⟩

def Simulates (R : σ → τ → Prop) (f : σ → Except ε (α × σ)) (g : τ → Except ε (α × τ)) : Prop :=
  ∀ s t, R s t → Agree R (f s) (g t)

/-- A simulation of single calls is a simulation of runs. -/
theorem Simulates.calls {R : σ → τ → Prop} (h : Simulates R f g) (n : ℕ) :
    Simulates R (Calls.calls f n) (Calls.calls g n) := by
  induction n with
  | zero => exact fun s t hst => ⟨rfl, hst⟩
  | succ n ih =>
    intro s t hst
    have hfg := h s t hst
    cases hf : f s with
    | error e =>
      cases hg : g t with
      | error e' => simpa only [Calls.calls, hf, hg] using (by rwa [hf, hg] at hfg)
      | ok r => rw [hf, hg] at hfg; exact hfg.elim
    | ok r =>
      obtain ⟨a, s'⟩ := r
      obtain ⟨t', hg, hst'⟩ := hfg.ok_left hf
      have hrest := ih s' t' hst'
      cases hcf : Calls.calls f n s' with
      | error e =>
        cases hcg : Calls.calls g n t' with
        | error e' => simpa only [Calls.calls, hf, hg, hcf, hcg] using (by rwa [hcf, hcg] at hrest)
        | ok r => rw [hcf, hcg] at hrest; exact hrest.elim
      | ok r =>
        obtain ⟨as, s''⟩ := r
        obtain ⟨t'', hcg, hst''⟩ := hrest.ok_left hcf
        simp only [Calls.calls, hf, hg, hcf, hcg]
        exact ⟨rfl, hst''⟩

theorem Simulates.always {R : σ → τ → Prop} {P : σ → Prop} {Q : τ → Prop} (h : Simulates R f g)
    (hPQ : ∀ s t, R s t → Q t → P s) {s : σ} {t : τ} (hst : R s t) (hQ : Always g Q t) :
    Always f P s := by
  intro n as s' hc
  obtain ⟨t', hc', hst'⟩ := (h.calls n s t hst).ok_left hc
  exact hPQ s' t' hst' (hQ n as t' hc')

end Calls

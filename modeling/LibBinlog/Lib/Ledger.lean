import Mathlib.Algebra.BigOperators.Group.Multiset.Basic
import Mathlib.Data.Finset.Basic

/-!
# Allocated blocks and who owns them

A heap knows which blocks are allocated. Programs over it allocate, free and touch blocks; to free
or to touch a block that is not allocated is an error. `Tracks s m v erase t` says that `m`, run
where the blocks `s` are owned, does what the computation `v` on plain values does, up to `erase`,
and leaves the blocks `t` owned. All other allocated blocks are left alone: the frame is part of the
definition. The rules below follow a program call by call; that blocks are freed only once is the
sum of the multisets.
-/

namespace Ledger

abbrev Block := ℕ

/-- The blocks from `next` on have never been allocated. -/
structure Heap where
  live : Finset Block
  next : Block
  live_lt : ∀ b ∈ live, b < next

def Heap.empty : Heap := ⟨∅, 0, fun _ hb => absurd hb (Finset.notMem_empty _)⟩

def Heap.alloc (h : Heap) : Heap where
  live := insert h.next h.live
  next := h.next + 1
  live_lt b hb := by
    obtain rfl | hlive := Finset.mem_insert.mp hb
    · exact Nat.lt_succ_self _
    · exact Nat.lt_succ_of_lt (h.live_lt b hlive)

def Heap.erase (h : Heap) (b : Block) : Heap where
  live := h.live.erase b
  next := h.next
  live_lt c hc := h.live_lt c (Finset.mem_of_mem_erase hc)

/-- The allocated blocks, each once. -/
def Owns (h : Heap) (s : Multiset Block) : Prop := h.live.val = s

section

variable {h : Heap} {s : Multiset Block} {b : Block}

theorem owns_empty : Owns .empty 0 := rfl

theorem Owns.alloc (hs : Owns h s) : Owns h.alloc (h.next ::ₘ s) := by
  have hfresh : h.next ∉ h.live := fun hlive => lt_irrefl _ (h.live_lt _ hlive)
  rw [Owns, Heap.alloc, Finset.insert_val_of_notMem hfresh, hs]

theorem Owns.mem (hs : Owns h (b ::ₘ s)) : b ∈ h.live := by
  rw [← Finset.mem_val, hs]
  exact Multiset.mem_cons_self b s

theorem Owns.erase (hs : Owns h (b ::ₘ s)) : Owns (h.erase b) s := by
  rw [Owns, Heap.erase, Finset.erase_val, hs, Multiset.erase_cons_head]

end

/-! ## Programs -/

abbrev HeapM (ε α : Type) := StateT Heap (Except ε) α

variable {ε α β γ δ : Type}

def alloc : HeapM ε Block := fun h => .ok (h.next, h.alloc)

/-- `bad` is the error. -/
def free (bad : ε) (b : Block) : HeapM ε Unit :=
  fun h => if b ∈ h.live then .ok ((), h.erase b) else .error bad

def touch (bad : ε) (b : Block) : HeapM ε Unit :=
  fun h => if b ∈ h.live then .ok ((), h) else .error bad

/-- So many blocks. -/
def allocs : ℕ → HeapM ε (List Block)
  | 0 => pure []
  | n + 1 => do
    let b ← alloc
    let bs ← allocs n
    pure (b :: bs)

/-! ## Tracking a computation on values -/

def Tracks (s : Multiset Block) (m : HeapM ε β) (v : Except ε α) (R : β → α → Prop)
    (t : β → Multiset Block) : Prop :=
  ∀ h rest, Owns h (s + rest) → (∀ e, v = .error e → m h = .error e) ∧
    ∀ a, v = .ok a → ∃ b h', m h = .ok (b, h') ∧ R b a ∧ Owns h' (t b + rest)

variable {s s' r : Multiset Block} {m : HeapM ε β} {k : β → HeapM ε δ} {v : Except ε α}
  {w : Except ε γ} {R : β → α → Prop} {R' : δ → γ → Prop} {t : β → Multiset Block}
  {t' : δ → Multiset Block} {bad : ε}

theorem tracks_ok {a : α} (h : ∀ heap rest, Owns heap (s + rest) → ∃ b heap',
    m heap = .ok (b, heap') ∧ R b a ∧ Owns heap' (t b + rest)) : Tracks s m (.ok a) R t := by
  intro heap rest howns
  refine ⟨fun e he => ?_, fun a' ha => ?_⟩
  · cases he
  · cases ha
    exact h heap rest howns

/-- Blocks that are not touched may be owned as well. -/
theorem Tracks.frame (h : Tracks s m v R t) (r : Multiset Block) :
    Tracks (s + r) m v R fun b => t b + r := by
  intro heap rest howns
  rw [add_assoc] at howns
  obtain ⟨herror, hok⟩ := h heap (r + rest) howns
  refine ⟨herror, fun a ha => ?_⟩
  obtain ⟨b, heap', hrun, hb, howns'⟩ := hok a ha
  rw [← add_assoc] at howns'
  exact ⟨b, heap', hrun, hb, howns'⟩

/-- The same blocks, written otherwise, and less of what is known of the result. -/
theorem Tracks.cast {R₁ : β → α → Prop} {t₁ : β → Multiset Block} (h : Tracks s m v R t)
    (hs : s = s') (hR : ∀ b a, R b a → v = .ok a → R₁ b a ∧ t b = t₁ b) :
    Tracks s' m v R₁ t₁ := by
  subst hs
  intro heap rest howns
  obtain ⟨herror, hok⟩ := h heap rest howns
  refine ⟨herror, fun a ha => ?_⟩
  obtain ⟨b, heap', hrun, hb, howns'⟩ := hok a ha
  obtain ⟨hR₁, ht⟩ := hR b a hb ha
  exact ⟨b, heap', hrun, hR₁, ht ▸ howns'⟩

theorem tracks_pure {a : α} (b : β) (hv : v = .ok a) (hR : R b a) (hs : s = t b) :
    Tracks s (pure b) v R t := by
  subst hv hs
  exact tracks_ok fun heap rest howns => ⟨b, heap, rfl, hR, howns⟩

theorem tracks_throw (e : ε) (hv : v = .error e) : Tracks s (throw e : HeapM ε β) v R t := by
  subst hv
  intro heap rest _
  refine ⟨fun e' he => ?_, fun a ha => ?_⟩
  · cases he
    rfl
  · cases ha

/-- One call after another: `v` is what the first does, `w` what both do. -/
theorem Tracks.bind (h : Tracks s m v R t) (herror : ∀ e, v = .error e → w = .error e)
    (hk : ∀ b a, R b a → v = .ok a → Tracks (t b) (k b) w R' t') :
    Tracks s (m >>= k) w R' t' := by
  intro heap rest howns
  obtain ⟨hfault, hok⟩ := h heap rest howns
  cases hv : v with
  | error e =>
    have hrun : (m >>= k) heap = .error e := by
      show m heap >>= (fun p => k p.1 p.2) = _
      rw [hfault e hv]
      rfl
    rw [herror e hv]
    refine ⟨fun e' he => ?_, fun a ha => ?_⟩
    · cases he
      exact hrun
    · cases ha
  | ok a =>
    obtain ⟨b, heap', hrun, hR, howns'⟩ := hok a hv
    have hbind : (m >>= k) heap = k b heap' := by
      show m heap >>= (fun p => k p.1 p.2) = _
      rw [hrun]
      rfl
    rw [hbind]
    exact hk b a hR hv heap' rest howns'

/-- The first call does nothing on plain values. -/
theorem Tracks.then {v : Except ε Unit} {R : β → Unit → Prop} (h : Tracks s m v R t)
    (hv : v = .ok ()) (hk : ∀ b, R b () → Tracks (t b) (k b) w R' t') :
    Tracks s (m >>= k) w R' t' := by
  subst hv
  apply h.bind
  · intro e he
    cases he
  · intro b _ hR _
    exact hk b hR

theorem Tracks.lift_bind {k : α → HeapM ε δ} (herror : ∀ e, v = .error e → w = .error e)
    (hk : ∀ a, v = .ok a → Tracks s (k a) w R' t') :
    Tracks s ((liftM v : HeapM ε α) >>= k) w R' t' := by
  have hlift : Tracks s (liftM v : HeapM ε α) v Eq fun _ => s := by
    cases v with
    | error e => exact tracks_throw e rfl
    | ok a => exact tracks_pure a rfl rfl rfl
  apply hlift.bind herror
  intro b a hba hv
  exact hk b (hba ▸ hv)

/-! ## Calls of the heap -/

/-- Nothing is known of a result that has no value. -/
abbrev Unseen : β → Unit → Prop := fun _ _ => True

theorem tracks_alloc (s : Multiset Block) :
    Tracks s (alloc : HeapM ε Block) (.ok ()) Unseen fun b => {b} + s := by
  apply tracks_ok
  intro heap rest howns
  refine ⟨heap.next, heap.alloc, rfl, trivial, ?_⟩
  rw [add_assoc, Multiset.singleton_add]
  exact howns.alloc

theorem tracks_free (bad : ε) (b : Block) (s : Multiset Block) :
    Tracks ({b} + s) (free bad b) (.ok ()) Unseen fun _ => s := by
  apply tracks_ok
  intro heap rest howns
  rw [add_assoc, Multiset.singleton_add] at howns
  exact ⟨(), heap.erase b, if_pos howns.mem, trivial, howns.erase⟩

theorem tracks_touch (bad : ε) {b : Block} (hb : b ∈ s) :
    Tracks s (touch bad b) (.ok ()) Unseen fun _ => s := by
  apply tracks_ok
  intro heap rest howns
  have hlive : b ∈ heap.live := by
    rw [← Finset.mem_val, howns]
    exact Multiset.mem_add.mpr (.inl hb)
  exact ⟨(), heap, if_pos hlive, trivial, howns⟩

theorem tracks_allocs (n : ℕ) (s : Multiset Block) :
    Tracks s (allocs n : HeapM ε (List Block)) (.ok ()) Unseen fun bs => bs + s := by
  induction n generalizing s with
  | zero => exact tracks_pure [] rfl trivial (zero_add s).symm
  | succ n ih =>
    apply (tracks_alloc s).then rfl
    intro b _
    apply (ih _).then rfl
    intro bs _
    refine tracks_pure _ rfl trivial ?_
    rw [← Multiset.cons_coe, ← Multiset.singleton_add, add_left_comm, add_assoc]

end Ledger

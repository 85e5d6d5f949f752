import LibBinlog.Lib.SecureHash
import LibBinlog.Sha1
import Mathlib.Data.ZMod.Defs
import Mathlib.Tactic.FinCases
import Mathlib.Tactic.IntervalCases

/-!
# The rounds compute the standard's steps

After `t` of the 80 rounds the variables hold the words of the standard, each `t` places further,
and the block holds the latest 16 words of the schedule. A round on a little-endian machine starts
from words with their bytes reversed; the first 16 rounds turn them around.
-/

namespace LibBinlog

open Memory SecureHash Sha1

namespace Sha1

/-! ## Words -/

theorem rol_ofNat (x : UInt32) {k : ℕ} (hpos : 0 < k) (hlt : k < 32) :
    rol x (UInt32.ofNat k) = rotl k x := by
  have hleft : ((UInt32.ofNat k).toBitVec % 32).toNat = k := by
    rw [BitVec.toNat_umod]
    simp
    omega
  have hright : ((32 - UInt32.ofNat k).toBitVec % 32).toNat = 32 - k := by
    simp
    omega
  apply UInt32.eq_of_toBitVec_eq
  rw [rol, UInt32.toBitVec_or, UInt32.toBitVec_shiftLeft, UInt32.toBitVec_shiftRight,
    BitVec.shiftLeft_eq', BitVec.ushiftRight_eq', hleft, hright, rotl, BitVec.rotateLeft_def,
    Nat.mod_eq_of_lt hlt]

theorem ch_eq (w x y : UInt32) : (w &&& (x ^^^ y)) ^^^ y = ch w x y := by
  apply UInt32.eq_of_toBitVec_eq
  simp only [ch, UInt32.toBitVec_xor, UInt32.toBitVec_and, UInt32.toBitVec_not]
  ext i hi
  simp only [BitVec.getElem_xor, BitVec.getElem_and, BitVec.getElem_not]
  cases w.toBitVec[i] <;> cases x.toBitVec[i] <;> cases y.toBitVec[i] <;> rfl

theorem maj_eq (w x y : UInt32) : ((w ||| x) &&& y) ||| (w &&& x) = maj w x y := by
  apply UInt32.eq_of_toBitVec_eq
  simp only [maj, UInt32.toBitVec_xor, UInt32.toBitVec_and, UInt32.toBitVec_or]
  ext i hi
  simp only [BitVec.getElem_xor, BitVec.getElem_and, BitVec.getElem_or]
  cases w.toBitVec[i] <;> cases x.toBitVec[i] <;> cases y.toBitVec[i] <;> rfl

theorem getElem_ofNat_leNat (bs : List UInt8) {i : ℕ} (hi : i < 32) :
    (UInt32.ofNat (leNat bs)).toBitVec[i] = bitAt bs i := by
  rw [← testBit_leNat, BitVec.getElem_eq_testBit_toNat, UInt32.toNat_toBitVec, UInt32.toNat_ofNat',
    Nat.testBit_mod_two_pow, decide_eq_true hi, Bool.true_and]

/-- The two rotations and masks reverse the bytes of a word. -/
theorem swap_eq (b₀ b₁ b₂ b₃ : UInt8) (x : UInt32)
    (hx : x = UInt32.ofNat (leNat [b₀, b₁, b₂, b₃])) :
    (rol x 24 &&& 0xFF00FF00) ||| (rol x 8 &&& 0x00FF00FF) =
      UInt32.ofNat (beNat [b₀, b₁, b₂, b₃]) := by
  have hrol : rol x 24 = rotl 24 x := rol_ofNat x (by norm_num) (by norm_num)
  have hrol' : rol x 8 = rotl 8 x := rol_ofNat x (by norm_num) (by norm_num)
  have hbit {i : ℕ} (hi : i < 32) : x.toBitVec[i] = bitAt [b₀, b₁, b₂, b₃] i := by
    rw [hx]
    exact getElem_ofNat_leNat _ hi
  rw [hrol, hrol', rotl, rotl]
  apply UInt32.eq_of_toBitVec_eq
  ext i hi
  rw [beNat, getElem_ofNat_leNat _ hi]
  simp only [UInt32.toBitVec_or, UInt32.toBitVec_and, BitVec.getElem_or, BitVec.getElem_and,
    BitVec.getElem_rotateLeft, hbit]
  interval_cases i <;> simp [bitAt]

/-! ## One round -/

/-- Where the standard's word `i` is kept after `t` rounds. -/
def place (t : ℕ) (i : Fin 5) : Fin 5 := i - ⟨t % 5, Nat.mod_lt t (by decide)⟩

theorem place_inj {t : ℕ} {i j : Fin 5} : place t i = place t j ↔ i = j := sub_left_inj

theorem place_succ (t : ℕ) (i : Fin 5) : place (t + 1) i = place t (i - 1) := by
  have hcast : (⟨(t + 1) % 5, Nat.mod_lt _ (by decide)⟩ : Fin 5) =
      1 + ⟨t % 5, Nat.mod_lt _ (by decide)⟩ := by
    ext
    simp [Fin.add_def, Nat.add_comm]
  rw [place, place, hcast, sub_sub]

/-- A macro on the places of round `t` replaces its word of the block. -/
theorem round_l (word : ℕ → (Fin 16 → UInt32) → UInt32) (f : UInt32 → UInt32 → UInt32 → UInt32)
    (k : UInt32) (v w x y z : Fin 5) (t : ℕ) (work : Work) :
    (round word f k v w x y z t work).l =
      Function.update work.l (Fin.ofNat 16 t) (word t work.l) := rfl

/-- It does to the variables what a step does to the words. -/
theorem round_var {word : ℕ → (Fin 16 → UInt32) → UInt32}
    {f : UInt32 → UInt32 → UInt32 → UInt32} {k : UInt32} {t : ℕ} {work : Work} {v : Words}
    (hvar : ∀ i, work.var (place t i) = v i) (i : Fin 5) :
    (round word f k (place t a) (place t b) (place t c) (place t d) (place t e) t work).var
        (place (t + 1) i) =
      (![rotl 5 (v 0) + f (v 1) (v 2) (v 3) + v 4 + k + word t work.l,
        v 0, rotl 30 (v 1), v 2, v 3] : Words) i := by
  have hfive : rol (v 0) 5 = rotl 5 (v 0) := rol_ofNat (v 0) (by norm_num) (by norm_num)
  have hthirty : rol (v 1) 30 = rotl 30 (v 1) := rol_ofNat (v 1) (by norm_num) (by norm_num)
  rw [place_succ, show a = 0 from rfl, show b = 1 from rfl, show c = 2 from rfl,
    show d = 3 from rfl, show e = 4 from rfl]
  fin_cases i
  · simp [round, Function.update_apply, place_inj, hvar, hfive]
    ac_rfl
  · simp [round, place_inj, hvar]
  · simp [round, place_inj, hvar, hthirty]
  · simp [round, place_inj, hvar]
  · simp [round, place_inj, hvar]

/-- Line `t` of the 80, in the standard's terms. -/
def line (t : ℕ) : Work → Work :=
  round (if t < 16 then blk0 else blk) (mix t) (constant t)
    (place t a) (place t b) (place t c) (place t d) (place t e) t

theorem r0_eq : r0 = round blk0 ch 0x5A827999 :=
  congrArg (round blk0 · _) (funext fun w => funext fun x => funext fun y => ch_eq w x y)

theorem r1_eq : r1 = round blk ch 0x5A827999 :=
  congrArg (round blk · _) (funext fun w => funext fun x => funext fun y => ch_eq w x y)

theorem r3_eq : r3 = round blk maj 0x8F1BBCDC :=
  congrArg (round blk · _) (funext fun w => funext fun x => funext fun y => maj_eq w x y)

theorem rounds_eq : rounds = (List.range 80).map line := by
  rw [rounds, r0_eq, r1_eq, r3_eq]
  rfl

/-! ## All rounds -/

variable {block raw : ℕ → UInt32} {v : Words} {t : ℕ} {work : Work}

/-- The first 16 words are the block's, turned around. -/
def Turned (raw block : ℕ → UInt32) : Prop :=
  ∀ i < 16, (rol (raw i) 24 &&& 0xFF00FF00) ||| (rol (raw i) 8 &&& 0x00FF00FF) = block i

/-- After `t` rounds the block has the latest 16 words of the schedule, or the first ones and behind
them the words it had. -/
structure After (raw block : ℕ → UInt32) (v : Words) (t : ℕ) (work : Work) : Prop where
  var : ∀ i, work.var (place t i) = steps block t v i
  recent : ∀ s < t, t ≤ s + 16 → work.l (Fin.ofNat 16 s) = schedule block s
  unread : ∀ s < 16, t ≤ s → work.l (Fin.ofNat 16 s) = raw s

theorem ofNat_sub_eq {t k : ℕ} (ht : 16 ≤ t) (hk : k ≤ 16) :
    Fin.ofNat 16 (t + (16 - k)) = Fin.ofNat 16 (t - k) := by
  ext
  simp only [Fin.ofNat]
  omega

theorem After.word (h : After raw block v t work) (hturned : Turned raw block) :
    (if t < 16 then blk0 else blk) t work.l = schedule block t := by
  by_cases ht : t < 16
  · rw [if_pos ht, schedule_of_lt ht, blk0, h.unread t ht le_rfl]
    exact hturned t ht
  · have hge := not_lt.mp ht
    have hrecent {k : ℕ} (hpos : 0 < k) (hk : k ≤ 16) :
        work.l (Fin.ofNat 16 (t + (16 - k))) = schedule block (t - k) := by
      rw [ofNat_sub_eq hge hk]
      exact h.recent (t - k) (by omega) (by omega)
    have hthree := hrecent (k := 3) (by norm_num) (by norm_num)
    have height := hrecent (k := 8) (by norm_num) (by norm_num)
    have hfourteen := hrecent (k := 14) (by norm_num) (by norm_num)
    have hsixteen : work.l (Fin.ofNat 16 t) = schedule block (t - 16) :=
      hrecent (k := 16) (by norm_num) (by norm_num)
    rw [if_neg ht, schedule_of_ge hge, blk, hthree, height, hfourteen, hsixteen]
    exact rol_ofNat _ (by norm_num) (by norm_num)

theorem After.step (h : After raw block v t work) (hturned : Turned raw block) :
    After raw block v (t + 1) (line t work) where
  var i := by
    rw [line, round_var h.var, h.word hturned]
    rfl
  recent s hs hle := by
    rw [line, round_l, h.word hturned]
    rcases Nat.lt_succ_iff_lt_or_eq.mp hs with hlt | rfl
    · rw [Function.update_of_ne, h.recent s hlt (by omega)]
      simp only [ne_eq, Fin.ext_iff, Fin.ofNat]
      omega
    · exact Function.update_self _ _ _
  unread s hs hle := by
    rw [line, round_l, Function.update_of_ne, h.unread s hs (by omega)]
    simp only [ne_eq, Fin.ext_iff, Fin.ofNat]
    omega

theorem After.rounds (h : After raw block v 0 work) (hturned : Turned raw block) (t : ℕ) :
    After raw block v t (((List.range t).map line).foldl (fun work step => step work) work) := by
  induction t with
  | zero => exact h
  | succ t ih =>
    rw [List.range_succ, List.map_append, List.foldl_append]
    exact ih.step hturned

end Sha1

/-- The transformation of a block is the standard's compression of its bytes. -/
theorem sha1Transform_eq_compress (state : Fin 5 → UInt32) (buffer : Mem) (p : ℤ) :
    sha1Transform state buffer p = compress state (slice buffer p 64) := by
  let raw (i : ℕ) : UInt32 := UInt32.ofNat (leNat (slice buffer (p + 4 * i) 4))
  have hturned : Turned raw (blockWord (slice buffer p 64)) := by
    intro i hi
    have hword : ((slice buffer p 64).drop (4 * i)).take 4 = slice buffer (p + 4 * i) 4 := by
      rw [drop_slice buffer p (by omega), take_slice buffer _ (by omega)]
      push_cast
      rfl
    rw [blockWord, hword]
    exact swap_eq _ _ _ _ (raw i) rfl
  have hstart : After raw (blockWord (slice buffer p 64)) state 0
      ⟨state, fun i => UInt32.ofNat (leNat (slice buffer (p + 4 * i.val) 4))⟩ := by
    refine ⟨fun i => ?_, fun s hs => absurd hs (Nat.not_lt_zero s), fun s hs _ => ?_⟩
    · rw [place, show (⟨0 % 5, _⟩ : Fin 5) = 0 from rfl, sub_zero]
      rfl
    · simp only [Fin.ofNat, Nat.mod_eq_of_lt hs]
      rfl
  funext i
  have hend := (hstart.rounds hturned 80).var i
  rw [place, show (⟨80 % 5, _⟩ : Fin 5) = 0 from rfl, sub_zero] at hend
  rw [sha1Transform, rounds_eq]
  exact congrArg (state i + ·) hend

end LibBinlog

import LibBinlog.Decimal
import Mathlib.Tactic.IntervalCases

/-!
# The stored form of decimals

A decimal of `precision` digits, `scale` of them behind the point, is stored as base-`10 ^ 9` groups
of four bytes with shorter groups at both ends. All bytes of a negative number are complemented, and
the top bit of the first byte is flipped. `bin2decimal` accepts every such string and recovers the
groups.
-/

namespace LibBinlog

open Machine Memory

variable {neg : Bool} {k v : ℕ} {rest : List UInt8}

def storedGroup (neg : Bool) (k v : ℕ) : List UInt8 :=
  if neg then (beBytes k v).map (~~~·) else beBytes k v

@[simp] theorem length_storedGroup (neg : Bool) (k v : ℕ) : (storedGroup neg k v).length = k := by
  cases neg <;> simp [storedGroup]

@[simp] theorem storedGroup_zero (neg : Bool) (v : ℕ) : storedGroup neg 0 v = [] :=
  List.eq_nil_of_length_eq_zero (length_storedGroup neg 0 v)

theorem miSintKorr_storedGroup (hk : 0 < k) (hv : 2 * v < 256 ^ k) :
    miSintKorr (storedGroup neg k v) = if neg then -(v : ℤ) - 1 else v := by
  have hpow : 2 ^ (8 * k) = 256 ^ k := by
    rw [pow_mul]
    norm_num
  have hbe : beNat (beBytes k v) = v := beNat_beBytes_of_lt (by omega)
  rw [miSintKorr, length_storedGroup, signed, hpow]
  cases neg with
  | false =>
    simp only [storedGroup, Bool.false_eq_true, if_false, hbe]
    apply Int.bmod_eq_of_le <;> omega
  | true =>
    have hcompl := leNat_map_complement (beBytes k v).reverse
    rw [List.length_reverse, length_beBytes, ← beNat, hbe] at hcompl
    have hnot : beNat ((beBytes k v).map (~~~·)) = 256 ^ k - 1 - v := by
      rw [beNat, ← List.map_reverse]
      omega
    simp only [storedGroup, if_true, hnot]
    have hval : ((256 ^ k - 1 - v : ℕ) : ℤ) = (-(v : ℤ) - 1) + (256 ^ k : ℕ) := by omega
    have heven : 2 ∣ 256 ^ k := dvd_pow (by norm_num) hk.ne'
    rw [hval, Int.add_bmod_right]
    apply Int.bmod_eq_of_le <;> omega

theorem maskedGroup_storedGroup (neg : Bool) (rest : List UInt8) (hk : 0 < k)
    (hv : 2 * v < 256 ^ k) :
    maskedGroup neg (storedGroup neg k v ++ rest) k = v := by
  have htake : (storedGroup neg k v ++ rest).take k = storedGroup neg k v :=
    List.take_left' (length_storedGroup neg k v)
  rw [maskedGroup, htake, miSintKorr_storedGroup hk hv]
  cases neg <;> simp

/-- The sign shows in the top bit of the first byte, if there is one. -/
def SignHead (neg : Bool) (bs : List UInt8) : Prop :=
  ∀ b ∈ bs.head?, (b.toNat < 128 ↔ neg = false)

theorem SignHead.append {bs cs : List UInt8} (hb : SignHead neg bs) (hc : SignHead neg cs) :
    SignHead neg (bs ++ cs) := by
  cases bs with
  | nil => exact hc
  | cons b bs => exact hb

theorem signHead_storedGroup (hv : 2 * v < 256 ^ k) : SignHead neg (storedGroup neg k v) := by
  cases k with
  | zero =>
    rw [storedGroup_zero]
    exact fun b hb => nomatch hb
  | succ k =>
    have hq : v / 256 ^ k < 128 := by
      rw [Nat.div_lt_iff_lt_mul (by positivity)]
      rw [pow_succ] at hv
      omega
    have hb : (UInt8.ofNat (v / 256 ^ k)).toNat = v / 256 ^ k := by
      rw [UInt8.toNat_ofNat', Nat.mod_eq_of_lt (hq.trans (by norm_num))]
    rw [storedGroup, beBytes_succ]
    cases neg with
    | false =>
      rintro b ⟨⟩
      simpa only [hb, iff_true] using hq
    | true =>
      have hnot : (~~~UInt8.ofNat (v / 256 ^ k)).toNat = 255 - v / 256 ^ k := by
        rw [UInt8.toNat_not, hb]
        rfl
      rintro b ⟨⟩
      simp only [hnot, Bool.true_eq_false, iff_false]
      omega

theorem signHead_flatMap {vs : List ℕ} (hvs : ∀ v ∈ vs, 2 * v < 256 ^ k) :
    SignHead neg (vs.flatMap (storedGroup neg k)) := by
  induction vs with
  | nil => exact fun b hb => nomatch hb
  | cons v vs ih =>
    rw [List.flatMap_cons]
    exact (signHead_storedGroup (hvs v List.mem_cons_self)).append
      (ih fun w hw => hvs w (List.mem_cons_of_mem v hw))

@[simp] theorem flipTopBit_flipTopBit (bs : List UInt8) : flipTopBit (flipTopBit bs) = bs := by
  cases bs with
  | nil => rfl
  | cons b bs => rw [flipTopBit, flipTopBit, UInt8.xor_assoc, UInt8.xor_self, UInt8.xor_zero]

@[simp] theorem length_flipTopBit (bs : List UInt8) : (flipTopBit bs).length = bs.length := by
  cases bs <;> rfl

theorem flipped_lt (b : UInt8) : (b ^^^ 0x80).toNat < 128 ↔ ¬b.toNat < 128 := by
  have hall : ∀ n < 256, (n ^^^ 128 < 128 ↔ ¬n < 128) := by decide +kernel
  rw [UInt8.toNat_xor]
  exact hall b.toNat b.toNat_lt

theorem dig2bytes_eq (hk : k < 9) : dig2bytes k = (k + 1) / 2 := by
  interval_cases k <;> rfl

theorem two_mul_lt_of_lt (hk : k < 9) (hv : v < 10 ^ k) : 2 * v < 256 ^ dig2bytes k := by
  rw [dig2bytes_eq hk]
  interval_cases k <;> omega

/-! ## Reading the groups -/

variable {vs buf : List ℕ} {intg : ℕ}

/-- An integer group is kept unless everything before it and itself is zero. -/
def keepGroup (digits : ℕ) (acc : List ℕ × ℕ) (v : ℕ) : List ℕ × ℕ :=
  if acc.1 ≠ [] ∨ v ≠ 0 then (acc.1 ++ [v], acc.2) else (acc.1, acc.2 - digits)

theorem pushIntg_storedGroup (digits : ℕ) :
    GroupState.pushIntg ⟨storedGroup neg k v ++ rest, buf, intg⟩ k digits v =
      ⟨rest, (keepGroup digits (buf, intg) v).1, (keepGroup digits (buf, intg) v).2⟩ := by
  have hdrop : (storedGroup neg k v ++ rest).drop k = rest :=
    List.drop_left' (length_storedGroup neg k v)
  by_cases hkeep : buf ≠ [] ∨ v ≠ 0
  · have hkeep' : buf ≠ [] ∨ (v : ℤ) ≠ 0 := by simpa using hkeep
    rw [GroupState.pushIntg, if_pos hkeep', keepGroup, if_pos hkeep, hdrop, Int.toNat_natCast]
  · have hkeep' : ¬(buf ≠ [] ∨ (v : ℤ) ≠ 0) := by simpa using hkeep
    rw [GroupState.pushIntg, if_neg hkeep', keepGroup, if_neg hkeep, hdrop]

theorem leadingGroup_storedGroup (hk : k < 9) (hv : v < 10 ^ k) :
    leadingGroup neg k ⟨storedGroup neg (dig2bytes k) v ++ rest, [], intg⟩ =
      some ⟨rest, (keepGroup k ([], intg) v).1, (keepGroup k ([], intg) v).2⟩ := by
  by_cases hk0 : k = 0
  · have hv0 : v = 0 := by
      subst hk0
      omega
    subst hk0 hv0
    have hd : dig2bytes 0 = 0 := rfl
    rw [leadingGroup, if_pos rfl, hd, storedGroup_zero]
    rfl
  · have hpos : 0 < dig2bytes k := by
      rw [dig2bytes_eq hk]
      omega
    have hx := maskedGroup_storedGroup neg rest hpos (two_mul_lt_of_lt hk hv)
    have hin : ¬((v : ℤ) < 0 ∨ (powers10 (k + 1) : ℤ) ≤ v) := by
      rw [powers10, pow_succ]
      omega
    rw [leadingGroup, if_neg hk0]
    simp only [hx]
    rw [if_neg hin, pushIntg_storedGroup]

theorem intgGroups_storedGroups (hvs : ∀ v ∈ vs, v < 10 ^ 9) :
    intgGroups neg vs.length ⟨vs.flatMap (storedGroup neg 4) ++ rest, buf, intg⟩ =
      some ⟨rest, (vs.foldl (keepGroup 9) (buf, intg)).1,
        (vs.foldl (keepGroup 9) (buf, intg)).2⟩ := by
  induction vs generalizing buf intg with
  | nil => rfl
  | cons v vs ih =>
    have hv := hvs v List.mem_cons_self
    have hx := maskedGroup_storedGroup neg (vs.flatMap (storedGroup neg 4) ++ rest)
      (k := 4) (v := v) (by norm_num) (by omega)
    have hin : ¬((v : ℤ) < 0 ∨ (digMax : ℤ) < v) := by
      rw [digMax]
      omega
    rw [List.flatMap_cons, List.append_assoc, List.length_cons, intgGroups]
    simp only [hx]
    rw [if_neg hin, pushIntg_storedGroup, ih fun w hw => hvs w (List.mem_cons_of_mem v hw)]
    rfl

theorem fracGroups_storedGroups (hvs : ∀ v ∈ vs, v < 10 ^ 9) :
    fracGroups neg vs.length ⟨vs.flatMap (storedGroup neg 4) ++ rest, buf, intg⟩ =
      some ⟨rest, buf ++ vs, intg⟩ := by
  induction vs generalizing buf with
  | nil => simp [fracGroups]
  | cons v vs ih =>
    have hv := hvs v List.mem_cons_self
    have hx := maskedGroup_storedGroup neg (vs.flatMap (storedGroup neg 4) ++ rest)
      (k := 4) (v := v) (by norm_num) (by omega)
    have hin : ¬((v : ℤ) < 0 ∨ (digMax : ℤ) < v) := by
      rw [digMax]
      omega
    rw [List.flatMap_cons, List.append_assoc, List.length_cons, fracGroups]
    simp only [hx]
    rw [if_neg hin, GroupState.pushFrac, Int.toNat_natCast,
      List.drop_left' (length_storedGroup neg 4 v),
      ih fun w hw => hvs w (List.mem_cons_of_mem v hw), List.append_assoc, List.singleton_append]

theorem trailingGroup_storedGroup (hk : k < 9) (hv : v < 10 ^ k) :
    trailingGroup neg k ⟨storedGroup neg (dig2bytes k) v ++ rest, buf, intg⟩ =
      some ⟨rest, buf ++ (if k = 0 then [] else [v * 10 ^ (9 - k)]), intg⟩ := by
  by_cases hk0 : k = 0
  · subst hk0
    have hd : dig2bytes 0 = 0 := rfl
    rw [trailingGroup, if_pos rfl, if_pos rfl, hd, storedGroup_zero]
    simp
  · have hpos : 0 < dig2bytes k := by
      rw [dig2bytes_eq hk]
      omega
    have hx := maskedGroup_storedGroup neg rest hpos (two_mul_lt_of_lt hk hv)
    have hlt : v * 10 ^ (9 - k) < 10 ^ 9 := by
      calc v * 10 ^ (9 - k) < 10 ^ k * 10 ^ (9 - k) := by gcongr
        _ = 10 ^ 9 := by rw [← pow_add, Nat.add_sub_cancel' hk.le]
    have h32 : toInt32 ((v : ℤ) * powers10 (digPerDec1 - k)) = (v * 10 ^ (9 - k) : ℕ) := by
      rw [powers10, digPerDec1, ← Int.natCast_mul]
      exact toInt32_of_range (by omega) (by omega)
    have hin : ¬(((v * 10 ^ (9 - k) : ℕ) : ℤ) < 0 ∨ (digMax : ℤ) < (v * 10 ^ (9 - k) : ℕ)) := by
      rw [digMax]
      omega
    rw [trailingGroup, if_neg hk0, if_neg hk0]
    simp only [hx, h32]
    rw [if_neg hin, GroupState.pushFrac, Int.toNat_natCast,
      List.drop_left' (length_storedGroup neg _ v)]

/-! ## The groups of a number -/

/-- A value of `DECIMAL(precision, scale)`: a sign and at most `precision` digits. -/
structure DecimalValue (precision scale : ℕ) where
  neg : Bool
  digits : ℕ
  digits_lt : digits < 10 ^ precision
  neg_pos : neg = true → 0 < digits

namespace DecimalValue

variable {precision scale : ℕ} (d : DecimalValue precision scale)

def intgPart : ℕ := d.digits / 10 ^ scale

def fracPart : ℕ := d.digits % 10 ^ scale

def leading : ℕ := d.intgPart / 10 ^ (9 * ((precision - scale) / 9))

/-- The full groups before the point, most significant first. -/
def intgs : List ℕ :=
  (List.range ((precision - scale) / 9)).reverse.map fun i => d.intgPart / 10 ^ (9 * i) % 10 ^ 9

/-- The full groups behind the point. -/
def fracs : List ℕ :=
  (List.range (scale / 9)).map fun i => d.fracPart / 10 ^ (scale - 9 * (i + 1)) % 10 ^ 9

def trailing : ℕ := d.fracPart % 10 ^ (scale % 9)

/-- The groups in order, before the top bit is flipped. -/
def groupBytes : List UInt8 :=
  storedGroup d.neg (((precision - scale) % 9 + 1) / 2) d.leading ++
    (d.intgs.flatMap (storedGroup d.neg 4) ++
      (d.fracs.flatMap (storedGroup d.neg 4) ++
        storedGroup d.neg ((scale % 9 + 1) / 2) d.trailing))

def stored : List UInt8 := flipTopBit d.groupBytes

/-- What `bin2decimal` makes of the stored form. -/
def decoded : Decimal :=
  let ints := d.intgs.foldl (keepGroup 9)
    (keepGroup ((precision - scale) % 9) ([], precision - scale) d.leading)
  ⟨ints.2, scale, d.neg,
    ints.1 ++ d.fracs ++ (if scale % 9 = 0 then [] else [d.trailing * 10 ^ (9 - scale % 9)])⟩

theorem leading_lt (h : scale ≤ precision) : d.leading < 10 ^ ((precision - scale) % 9) := by
  rw [leading, intgPart, Nat.div_div_eq_div_mul, Nat.div_lt_iff_lt_mul (by positivity),
    ← pow_add, ← pow_add]
  have he : (precision - scale) % 9 + (scale + 9 * ((precision - scale) / 9)) = precision := by
    omega
  rw [he]
  exact d.digits_lt

theorem trailing_lt : d.trailing < 10 ^ (scale % 9) := Nat.mod_lt _ (by positivity)

theorem intgs_lt : ∀ v ∈ d.intgs, v < 10 ^ 9 := by
  intro v hv
  obtain ⟨i, -, rfl⟩ := List.mem_map.mp hv
  exact Nat.mod_lt _ (by norm_num)

theorem fracs_lt : ∀ v ∈ d.fracs, v < 10 ^ 9 := by
  intro v hv
  obtain ⟨i, -, rfl⟩ := List.mem_map.mp hv
  exact Nat.mod_lt _ (by norm_num)

@[simp] theorem length_intgs : d.intgs.length = (precision - scale) / 9 := by simp [intgs]

@[simp] theorem length_fracs : d.fracs.length = scale / 9 := by simp [fracs]

theorem length_groupBytes (hscale : scale ≤ precision) :
    d.groupBytes.length = decimalBinSize precision scale := by
  have hfour : ∀ vs : List ℕ, (vs.flatMap (storedGroup d.neg 4)).length = 4 * vs.length := by
    intro vs
    simp [List.length_flatMap, mul_comm]
  have hl : precision - scale - (precision - scale) / 9 * 9 = (precision - scale) % 9 := by omega
  have ht : scale - scale / 9 * 9 = scale % 9 := by omega
  have hmod : ∀ n, n % 9 < 9 := fun n => Nat.mod_lt n (by norm_num)
  simp only [groupBytes, List.length_append, length_storedGroup, hfour, length_intgs, length_fracs,
    decimalBinSize, digPerDec1, hl, ht, dig2bytes_eq (hmod _)]
  ring

theorem length_stored (hscale : scale ≤ precision) :
    d.stored.length = decimalBinSize precision scale := by
  rw [stored, length_flipTopBit, d.length_groupBytes hscale]

theorem signHead_groupBytes (hscale : scale ≤ precision) : SignHead d.neg d.groupBytes := by
  have hmod : ∀ n, n % 9 < 9 := fun n => Nat.mod_lt n (by norm_num)
  have hleading := two_mul_lt_of_lt (hmod _) (d.leading_lt hscale)
  have htrailing := two_mul_lt_of_lt (hmod _) d.trailing_lt
  rw [dig2bytes_eq (hmod _)] at hleading htrailing
  refine (signHead_storedGroup hleading).append ((signHead_flatMap fun v hv => ?_).append
    ((signHead_flatMap fun v hv => ?_).append (signHead_storedGroup htrailing)))
  · have := d.intgs_lt v hv
    omega
  · have := d.fracs_lt v hv
    omega

/-- The mask `bin2decimal` takes from the first byte is the sign. -/
theorem head_stored (hp : 0 < precision) (hscale : scale ≤ precision) :
    ∃ b bs, d.stored = b :: bs ∧ (b.toNat < 128 ↔ d.neg = true) := by
  have hlen := d.length_groupBytes hscale
  have hhead := d.signHead_groupBytes hscale
  have hpos : 0 < decimalBinSize precision scale := by
    have hmod : ∀ n, n % 9 < 9 := fun n => Nat.mod_lt n (by norm_num)
    have hl : precision - scale - (precision - scale) / 9 * 9 = (precision - scale) % 9 := by omega
    have ht : scale - scale / 9 * 9 = scale % 9 := by omega
    simp only [decimalBinSize, digPerDec1, hl, ht, dig2bytes_eq (hmod _)]
    omega
  rw [stored]
  cases hg : d.groupBytes with
  | nil =>
    rw [hg, List.length_nil] at hlen
    omega
  | cons b bs =>
    rw [hg] at hhead
    refine ⟨_, _, rfl, ?_⟩
    rw [flipped_lt, hhead b rfl, Bool.not_eq_false]

theorem readGroups_groupBytes (hscale : scale ≤ precision) :
    (((leadingGroup d.neg ((precision - scale) % 9) ⟨d.groupBytes, [], precision - scale⟩).bind
      (intgGroups d.neg ((precision - scale) / 9))).bind (fracGroups d.neg (scale / 9))).bind
        (trailingGroup d.neg (scale % 9)) = some ⟨[], d.decoded.buf, d.decoded.intg⟩ := by
  have hmod : ∀ n, n % 9 < 9 := fun n => Nat.mod_lt n (by norm_num)
  have hbytes : d.groupBytes = storedGroup d.neg (dig2bytes ((precision - scale) % 9)) d.leading ++
      (d.intgs.flatMap (storedGroup d.neg 4) ++ (d.fracs.flatMap (storedGroup d.neg 4) ++
        (storedGroup d.neg (dig2bytes (scale % 9)) d.trailing ++ []))) := by
    rw [groupBytes, dig2bytes_eq (hmod _), dig2bytes_eq (hmod _), List.append_nil]
  rw [hbytes, leadingGroup_storedGroup (hmod _) (d.leading_lt hscale), Option.bind_some,
    ← d.length_intgs, intgGroups_storedGroups d.intgs_lt, Option.bind_some,
    ← d.length_fracs, fracGroups_storedGroups d.fracs_lt, Option.bind_some,
    trailingGroup_storedGroup (hmod _) d.trailing_lt]
  rfl

theorem bin2decimal_stored {m : Mem} {p : ℤ} (hp : 0 < precision) (hp' : precision ≤ 65)
    (hscale : scale ≤ precision) (h : Holds m p d.stored) :
    bin2decimal m p 128 precision scale = (.ok, d.decoded) := by
  have hl : precision - scale - (precision - scale) / 9 * 9 = (precision - scale) % 9 := by omega
  have ht : scale - scale / 9 * 9 = scale % 9 := by omega
  have hcopy : flipTopBit (slice m p (decimalBinSize precision scale)) = d.groupBytes := by
    rw [h.slice_eq (d.length_stored hscale).symm, stored, flipTopBit_flipTopBit]
  have hmask : decide ((m p).toNat < 128) = d.neg := by
    obtain ⟨b, bs, hb, hneg⟩ := d.head_stored hp hscale
    rw [hb] at h
    rw [(holds_cons.mp h).1]
    simp [hneg]
  have hfix : ∀ a b, a ≤ 1 → b ≤ 1 →
      fixIntgFrac 128 ((precision - scale) / 9 + a) (scale / 9 + b) =
        ((precision - scale) / 9 + a, scale / 9 + b, .ok) :=
    fun a b ha hb => if_neg (by omega)
  have hle : ∀ n : ℕ, (if n > 0 then 1 else 0) ≤ 1 := by
    intro n
    split_ifs <;> omega
  have hintg : (precision - scale) / 9 * 9 + (precision - scale) % 9 = precision - scale := by omega
  have hfrac : scale / 9 * 9 + scale % 9 = scale := by omega
  simp only [bin2decimal, digPerDec1, hl, ht, hcopy, hmask, hfix _ _ (hle _) (hle _), if_true,
    hintg, hfrac, d.readGroups_groupBytes hscale]
  rfl

end DecimalValue

end LibBinlog

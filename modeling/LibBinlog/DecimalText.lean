import LibBinlog.ColumnFormat
import LibBinlog.Lib.Digits

/-!
# The text of a decimal

`decimal2string` prints the groups of a decimal, integer groups from the last digit backwards and
fraction groups from the first digit on. What it prints of a stored decimal is the number in plain
notation.
-/

namespace LibBinlog

open Machine Memory

variable {x intg frac : ℕ} {groups : List ℕ} {text : List UInt8}

/-! ## One group -/

theorem intgGroupText_eq (n x : ℕ) (text : List UInt8) :
    intgGroupText n x text = lastDigits n x ++ text := by
  induction n generalizing x text with
  | zero => rfl
  | succ n ih =>
    rw [intgGroupText, ih, lastDigits, List.append_assoc]
    rfl

/-- The first `n` of the nine digits of a group. -/
theorem fracGroupText_eq {n : ℕ} (hn : n ≤ 9) (hx : x < 10 ^ 9) :
    fracGroupText n x = lastDigits n (x / 10 ^ (9 - n)) := by
  induction n generalizing x with
  | zero => rfl
  | succ n ih =>
    have hmask : digMask = 10 ^ 8 := by norm_num [digMask]
    have hrest : x - x / 10 ^ 8 * 10 ^ 8 = x % 10 ^ 8 := by omega
    have hlt : x % 10 ^ 8 * 10 < 10 ^ 9 := by omega
    have hfirst : x / 10 ^ 8 < 10 := by omega
    -- the group without its first digit, moved up by one place
    have hshift : x % 10 ^ 8 * 10 / 10 ^ (9 - n) = x / 10 ^ (8 - n) % 10 ^ n := by
      have hpow : 10 ^ (9 - n) = 10 ^ (8 - n) * 10 := by
        rw [← pow_succ]
        congr 1
        omega
      have height : 10 ^ 8 = 10 ^ (8 - n) * 10 ^ n := by
        rw [← pow_add]
        congr 1
        omega
      rw [hpow, Nat.mul_div_mul_right _ _ (by norm_num), height, Nat.mod_mul_right_div_self]
    have hone : lastDigits 1 (x / 10 ^ 8) = [digitChar (x / 10 ^ 8)] := by
      rw [lastDigits, lastDigits, Nat.mod_eq_of_lt hfirst]
      rfl
    have hsplit : lastDigits (n + 1) (x / 10 ^ (8 - n)) =
        digitChar (x / 10 ^ 8) :: lastDigits n (x / 10 ^ (8 - n)) := by
      rw [Nat.add_comm, lastDigits_add, Nat.div_div_eq_div_mul, ← pow_add,
        show 8 - n + n = 8 by omega, hone]
      rfl
    rw [fracGroupText, hmask, hrest, ih (by omega) hlt, hshift, lastDigits_mod,
      show 9 - (n + 1) = 8 - n by omega, hsplit]

/-! ## Lists of groups -/

/-- The number whose groups of nine digits these are. -/
def groupsValue : List ℕ → ℕ
  | [] => 0
  | x :: groups => x * 10 ^ (9 * groups.length) + groupsValue groups

theorem groupsValue_lt (h : ∀ x ∈ groups, x < 10 ^ 9) :
    groupsValue groups < 10 ^ (9 * groups.length) := by
  induction groups with
  | nil => norm_num [groupsValue]
  | cons x groups ih =>
    have hx := h x List.mem_cons_self
    have hrest := ih fun y hy => h y (List.mem_cons_of_mem x hy)
    rw [groupsValue, List.length_cons, Nat.mul_succ, pow_add]
    nlinarith

theorem lastDigits_groupsValue (h : ∀ x ∈ groups, x < 10 ^ 9) :
    lastDigits (9 * groups.length) (groupsValue groups) = groups.flatMap (lastDigits 9) := by
  induction groups with
  | nil => rfl
  | cons x groups ih =>
    have hrest : ∀ y ∈ groups, y < 10 ^ 9 := fun y hy => h y (List.mem_cons_of_mem x hy)
    have hlt := groupsValue_lt hrest
    have hdiv : (x * 10 ^ (9 * groups.length) + groupsValue groups) / 10 ^ (9 * groups.length) =
        x := by
      rw [Nat.add_comm, Nat.add_mul_div_right _ _ (by positivity), Nat.div_eq_of_lt hlt, zero_add]
    have hmod : (x * 10 ^ (9 * groups.length) + groupsValue groups) % 10 ^ (9 * groups.length) =
        groupsValue groups := by
      rw [Nat.add_comm, Nat.add_mul_mod_self_right, Nat.mod_eq_of_lt hlt]
    rw [groupsValue, List.length_cons, Nat.mul_succ, Nat.add_comm, lastDigits_add, hdiv,
      ← lastDigits_mod (9 * groups.length), hmod, ih hrest, List.flatMap_cons]

theorem groupsValue_dropWhile (groups : List ℕ) :
    groupsValue (groups.dropWhile (· = 0)) = groupsValue groups := by
  induction groups with
  | nil => rfl
  | cons x groups ih =>
    by_cases hx : x = 0
    · rw [List.dropWhile_cons_of_pos (by simpa using hx), ih, groupsValue, hx, zero_mul, zero_add]
    · rw [List.dropWhile_cons_of_neg (by simpa using hx)]

/-- The last `q` groups of a number. -/
def groupsOf (q v : ℕ) : List ℕ :=
  (List.range q).reverse.map fun i => v / 10 ^ (9 * i) % 10 ^ 9

@[simp] theorem length_groupsOf (q v : ℕ) : (groupsOf q v).length = q := by simp [groupsOf]

theorem groupsValue_groupsOf (q v : ℕ) : groupsValue (groupsOf q v) = v % 10 ^ (9 * q) := by
  induction q with
  | zero => simp [groupsOf, groupsValue, Nat.mod_one]
  | succ q ih =>
    have hcons : groupsOf (q + 1) v = (v / 10 ^ (9 * q) % 10 ^ 9) :: groupsOf q v := by
      rw [groupsOf, List.range_succ, List.reverse_append]
      rfl
    rw [hcons, groupsValue, length_groupsOf, ih, Nat.mul_succ, pow_add, Nat.mod_mul]
    ring

/-- The first group may be a short one, of `r` digits. -/
theorem intgText_append (r x : ℕ) (hr : r ≤ 9) (groups : List ℕ) (text : List UInt8) :
    intgText (groups ++ [x]) (r + 9 * groups.length) text =
      lastDigits r x ++ (groups.reverse.flatMap (lastDigits 9) ++ text) := by
  induction groups generalizing text with
  | nil =>
    rw [List.nil_append, intgText, intgText, List.length_nil, mul_zero, add_zero, digPerDec1,
      Nat.min_eq_left hr, intgGroupText_eq]
    rfl
  | cons y groups ih =>
    have hmin : min (r + 9 * (groups.length + 1)) 9 = 9 := Nat.min_eq_right (by omega)
    have hrest : r + 9 * (groups.length + 1) - 9 = r + 9 * groups.length := by omega
    rw [List.cons_append, intgText, List.length_cons, digPerDec1, hmin, hrest, intgGroupText_eq, ih,
      List.reverse_cons, List.flatMap_append, List.append_assoc]
    simp

/-- The last group may be a short one, of `r` digits. -/
theorem fracText_append {r t : ℕ} (hr : r < 9) (ht : t < 10 ^ r)
    (h : ∀ x ∈ groups, x < 10 ^ 9) :
    fracText (groups ++ if r = 0 then [] else [t * 10 ^ (9 - r)]) (9 * groups.length + r) =
      groups.flatMap (lastDigits 9) ++ lastDigits r t := by
  induction groups with
  | nil =>
    by_cases hr0 : r = 0
    · subst hr0
      rfl
    · have hlt : t * 10 ^ (9 - r) < 10 ^ 9 := by
        calc t * 10 ^ (9 - r) < 10 ^ r * 10 ^ (9 - r) := by gcongr
          _ = 10 ^ 9 := by rw [← pow_add, Nat.add_sub_cancel' hr.le]
      rw [if_neg hr0, List.nil_append, List.length_nil, mul_zero, zero_add, fracText, if_neg hr0,
        digPerDec1, Nat.min_eq_left hr.le, fracGroupText_eq hr.le hlt,
        Nat.mul_div_cancel _ (by positivity), Nat.sub_eq_zero_of_le hr.le]
      simp [fracText]
  | cons x groups ih =>
    have hx := h x List.mem_cons_self
    have hmin : min (9 * (groups.length + 1) + r) 9 = 9 := Nat.min_eq_right (by omega)
    have hrest : 9 * (groups.length + 1) + r - 9 = 9 * groups.length + r := by omega
    rw [List.cons_append, fracText, List.length_cons, if_neg (by omega), digPerDec1, hmin, hrest,
      fracGroupText_eq le_rfl hx, ih fun y hy => h y (List.mem_cons_of_mem x hy), List.flatMap_cons,
      List.append_assoc]
    simp

/-! ## The groups that are kept -/

theorem foldl_keepGroup_of_ne_nil {acc : List ℕ} (h : acc ≠ []) (n : ℕ) (groups : List ℕ) :
    groups.foldl (keepGroup 9) (acc, n) = (acc ++ groups, n) := by
  induction groups generalizing acc with
  | nil => simp
  | cons x groups ih =>
    rw [List.foldl_cons, keepGroup, if_pos (.inl h), ih (by simp), List.append_assoc]
    rfl

theorem foldl_keepGroup_nil (groups : List ℕ) :
    groups.foldl (keepGroup 9) ([], 9 * groups.length) =
      (groups.dropWhile (· = 0), 9 * (groups.dropWhile (· = 0)).length) := by
  induction groups with
  | nil => rfl
  | cons x groups ih =>
    by_cases hx : x = 0
    · have hcount : 9 * (groups.length + 1) - 9 = 9 * groups.length := by omega
      rw [List.dropWhile_cons_of_pos (by simpa using hx), List.foldl_cons, keepGroup,
        if_neg (by simpa using hx), List.length_cons, hcount, ih]
    · rw [List.dropWhile_cons_of_neg (by simpa using hx), List.foldl_cons, keepGroup,
        if_pos (.inr hx), foldl_keepGroup_of_ne_nil (by simp)]
      rfl

/-- The integer groups that `bin2decimal` keeps: none for zero, else the first is positive and has
`w` places. -/
inductive KeptGroups (v : ℕ) : List ℕ × ℕ → Prop
  | zero (h : v = 0) : KeptGroups v ([], 0)
  | cons (x w : ℕ) (groups : List ℕ) (hx : 0 < x) (hlt : x < 10 ^ w) (hw : 1 ≤ w) (hw' : w ≤ 9)
    (hgroups : ∀ y ∈ groups, y < 10 ^ 9) (h : v = groupsValue (x :: groups)) :
    KeptGroups v (x :: groups, w + 9 * groups.length)

theorem keptGroups_dropWhile (h : ∀ y ∈ groups, y < 10 ^ 9) :
    KeptGroups (groupsValue groups)
      (groups.dropWhile (· = 0), 9 * (groups.dropWhile (· = 0)).length) := by
  have hvalue := groupsValue_dropWhile groups
  have hmem := fun y (hy : y ∈ groups.dropWhile (· = 0)) =>
    h y ((List.dropWhile_sublist _).subset hy)
  cases hdrop : groups.dropWhile (· = 0) with
  | nil =>
    rw [hdrop] at hvalue
    exact .zero hvalue.symm
  | cons x rest =>
    have hx : x ≠ 0 := by
      have hhead := List.head?_dropWhile_not (fun y : ℕ => decide (y = 0)) groups
      simpa [hdrop] using hhead
    rw [hdrop] at hvalue hmem
    rw [List.length_cons, Nat.mul_succ, Nat.add_comm]
    exact .cons x 9 rest (Nat.pos_of_ne_zero hx) (hmem x List.mem_cons_self) (by norm_num) le_rfl
      (fun y hy => hmem y (List.mem_cons_of_mem x hy)) hvalue.symm

namespace DecimalValue

variable {precision scale : ℕ} (d : DecimalValue precision scale)

theorem keptGroups (hscale : scale ≤ precision) :
    KeptGroups d.intgPart (d.intgs.foldl (keepGroup 9)
      (keepGroup ((precision - scale) % 9) ([], precision - scale) d.leading)) := by
  have hintgs : d.intgs = groupsOf ((precision - scale) / 9) d.intgPart := rfl
  have hdiv : d.intgPart = groupsValue (d.leading :: d.intgs) := by
    rw [groupsValue, hintgs, groupsValue_groupsOf, length_groupsOf, leading, Nat.div_add_mod']
  have hcount : precision - scale - (precision - scale) % 9 = 9 * d.intgs.length := by
    rw [length_intgs]
    omega
  by_cases hzero : d.leading = 0
  · have hvalue : d.intgPart = groupsValue d.intgs := by
      rw [hdiv, groupsValue, hzero, zero_mul, zero_add]
    rw [keepGroup, if_neg (by simpa using hzero), hcount, foldl_keepGroup_nil, hvalue]
    exact keptGroups_dropWhile d.intgs_lt
  · have hlt := d.leading_lt hscale
    have hwidth : 1 ≤ (precision - scale) % 9 := by
      by_contra hnone
      rw [show (precision - scale) % 9 = 0 by omega] at hlt
      omega
    have htotal : precision - scale = (precision - scale) % 9 + 9 * d.intgs.length := by omega
    rw [keepGroup, if_pos (.inr hzero), foldl_keepGroup_of_ne_nil (by simp)]
    conv in (_, precision - scale) => rw [htotal]
    exact .cons d.leading _ d.intgs (Nat.pos_of_ne_zero hzero) hlt hwidth
      (Nat.mod_lt _ (by norm_num)).le d.intgs_lt hdiv

/-- The groups behind the point, as `bin2decimal` stores them. -/
def fracGroups : List ℕ :=
  d.fracs ++ if scale % 9 = 0 then [] else [d.trailing * 10 ^ (9 - scale % 9)]

theorem fracs_eq : d.fracs = groupsOf (scale / 9) (d.fracPart / 10 ^ (scale % 9)) := by
  apply List.ext_getElem (by simp)
  intro i hi hi'
  rw [length_fracs] at hi
  have hexp : scale - 9 * (i + 1) = scale % 9 + 9 * (scale / 9 - 1 - i) := by omega
  simp only [fracs, groupsOf, List.getElem_map, List.getElem_reverse, List.getElem_range,
    List.length_range, Nat.div_div_eq_div_mul, ← pow_add, hexp]

theorem fracText_fracGroups : fracText d.fracGroups scale = lastDigits scale d.fracPart := by
  have hr : scale % 9 < 9 := Nat.mod_lt _ (by norm_num)
  have htext := fracText_append hr d.trailing_lt d.fracs_lt
  have hlt : d.fracPart / 10 ^ (scale % 9) < 10 ^ (9 * (scale / 9)) := by
    have hfrac : d.fracPart < 10 ^ scale := Nat.mod_lt _ (by positivity)
    rw [Nat.div_lt_iff_lt_mul (by positivity), ← pow_add, Nat.div_add_mod]
    exact hfrac
  have hvalue : groupsValue d.fracs = d.fracPart / 10 ^ (scale % 9) := by
    rw [fracs_eq, groupsValue_groupsOf, Nat.mod_eq_of_lt hlt]
  have hdigits := lastDigits_groupsValue d.fracs_lt
  rw [hvalue, length_fracs] at hdigits
  rw [length_fracs, Nat.div_add_mod, ← hdigits] at htext
  rw [fracGroups, htext, trailing, lastDigits_mod, ← lastDigits_add, Nat.div_add_mod]

end DecimalValue

/-! ## Leading zeros -/

theorem digits_length_of {n k : ℕ} (hlow : 10 ^ k ≤ n) (hhigh : n < 10 ^ (k + 1)) :
    (Nat.digits 10 n).length = k + 1 := by
  have hle := (Nat.digits_length_le_iff (by norm_num) n).mpr hhigh
  have hlt := (Nat.lt_digits_length_iff (by norm_num) n).mpr hlow
  omega

/-- Of `i + 1` places the digits of `x` remain. -/
theorem skipZeroDigits_eq {i : ℕ} (hx : 0 < x) (hlt : x < 10 ^ (i + 1)) (hi : i + 1 ≤ intg) :
    skipZeroDigits x i intg = intg - (i + 1) + (Nat.digits 10 x).length := by
  induction i generalizing intg with
  | zero =>
    rw [skipZeroDigits, digits_length_of (k := 0) hx hlt]
    omega
  | succ i ih =>
    rw [skipZeroDigits, powers10]
    by_cases hsmall : x < 10 ^ (i + 1)
    · rw [if_pos hsmall, ih hsmall (by omega)]
      omega
    · rw [if_neg hsmall, digits_length_of (not_lt.mp hsmall) hlt]
      omega

theorem removeLeadingZeroes_zero (frac : ℕ) (sign : Bool) (buf : List ℕ) :
    removeLeadingZeroes ⟨0, frac, sign, buf⟩ = (0, buf) := by
  cases buf with
  | nil => rfl
  | cons b buf => simp [removeLeadingZeroes, skipZeroGroups]

theorem removeLeadingZeroes_cons {w : ℕ} (hx : 0 < x) (hlt : x < 10 ^ w) (hw : 1 ≤ w) (hw' : w ≤ 9)
    (k frac : ℕ) (sign : Bool) (buf : List ℕ) :
    removeLeadingZeroes ⟨w + 9 * k, frac, sign, x :: buf⟩ =
      ((Nat.digits 10 x).length + 9 * k, x :: buf) := by
  have hplaces : (w + 9 * k - 1) % digPerDec1 = w - 1 := by
    rw [digPerDec1]
    omega
  have hskip : skipZeroGroups (w - 1 + 1) (w + 9 * k) (x :: buf) = (w + 9 * k, x :: buf) := by
    rw [skipZeroGroups, if_neg fun h => hx.ne' h.2]
  have hdigits : skipZeroDigits x (w - 1) (w + 9 * k) =
      w + 9 * k - (w - 1 + 1) + (Nat.digits 10 x).length :=
    skipZeroDigits_eq hx (by rwa [Nat.sub_add_cancel hw]) (by omega)
  simp only [removeLeadingZeroes, hplaces, hskip, if_pos (by omega : w + 9 * k > 0),
    List.headD_cons, hdigits]
  congr 1
  omega

/-! ## Plain notation -/

/-- The digits of the first group and all of the others. -/
theorem decimalText_groupsValue (hx : 0 < x) (h : ∀ y ∈ groups, y < 10 ^ 9) :
    decimalText (groupsValue (x :: groups)) =
      lastDigits (Nat.digits 10 x).length x ++ groups.flatMap (lastDigits 9) := by
  have hlt := groupsValue_lt h
  have hpos : 0 < 10 ^ (9 * groups.length) := by positivity
  have hone : 1 ≤ (Nat.digits 10 x).length :=
    (Nat.lt_digits_length_iff (by norm_num) x).mpr (by rwa [pow_zero])
  have hlow : 10 ^ ((Nat.digits 10 x).length - 1) ≤ x :=
    (Nat.lt_digits_length_iff (by norm_num) x).mp (by omega)
  have hhigh : x < 10 ^ (Nat.digits 10 x).length := Nat.lt_base_pow_length_digits (by norm_num)
  have hdiv : groupsValue (x :: groups) / 10 ^ (9 * groups.length) = x := by
    rw [groupsValue, Nat.add_comm, Nat.add_mul_div_right _ _ hpos, Nat.div_eq_of_lt hlt, zero_add]
  have hmod : groupsValue (x :: groups) % 10 ^ (9 * groups.length) = groupsValue groups := by
    rw [groupsValue, Nat.add_comm, Nat.add_mul_mod_self_right, Nat.mod_eq_of_lt hlt]
  have hlength : (Nat.digits 10 (groupsValue (x :: groups))).length =
      (Nat.digits 10 x).length + 9 * groups.length := by
    have hsplit : (Nat.digits 10 x).length + 9 * groups.length =
        ((Nat.digits 10 x).length - 1 + 9 * groups.length) + 1 := by omega
    rw [hsplit]
    apply digits_length_of
    · rw [pow_add, ← Nat.le_div_iff_mul_le hpos, hdiv]
      exact hlow
    · rw [← hsplit, pow_add, ← Nat.div_lt_iff_lt_mul hpos, hdiv]
      exact hhigh
  have hvalue : 0 < groupsValue (x :: groups) := by
    rw [groupsValue]
    positivity
  rw [decimalText_of_pos hvalue, hlength, lastDigits_add, hdiv,
    ← lastDigits_mod (9 * groups.length), hmod, lastDigits_groupsValue h]

namespace DecimalValue

variable {precision scale : ℕ} (d : DecimalValue precision scale)

/-- An optional minus sign, the integer part and, behind a point, `scale` digits. -/
def plainText : List UInt8 :=
  (if d.neg then ascii "-" else []) ++ decimalText d.intgPart ++
    if scale = 0 then [] else ascii "." ++ zeroPadded scale d.fracPart

theorem fracPart_text (h : scale ≠ 0) :
    fracText d.fracGroups scale = zeroPadded scale d.fracPart := by
  have hlt : d.fracPart < 10 ^ scale := Nat.mod_lt _ (by positivity)
  rw [d.fracText_fracGroups, zeroPadded_of_lt (Nat.pos_of_ne_zero h) hlt]

/-- What `decimal2string` prints of a decoded number, and the length it reports. -/
theorem decimal2string_decoded (hscale : scale ≤ precision) :
    decimal2string d.decoded = (d.plainText, d.plainText.length) := by
  have hdecoded : d.decoded = ⟨(d.intgs.foldl (keepGroup 9)
      (keepGroup ((precision - scale) % 9) ([], precision - scale) d.leading)).2, scale, d.neg,
      (d.intgs.foldl (keepGroup 9)
        (keepGroup ((precision - scale) % 9) ([], precision - scale) d.leading)).1 ++
          d.fracGroups⟩ := by
    simp only [decoded, fracGroups, List.append_assoc]
  have hkept := d.keptGroups hscale
  rw [hdecoded]
  generalize d.intgs.foldl (keepGroup 9)
    (keepGroup ((precision - scale) % 9) ([], precision - scale) d.leading) = kept at hkept ⊢
  generalize hv : d.intgPart = v at hkept
  have hsign : (if d.neg then ascii "-" else []).length = d.neg.toNat := by
    cases d.neg <;> rfl
  have hfrac : (if scale = 0 then [] else ascii "." ++ zeroPadded scale (d.fracPart : ℤ)).length =
      (if scale = 0 then 0 else 1) + scale := by
    by_cases h0 : scale = 0
    · simp [h0]
    · rw [if_neg h0, if_neg h0, ← d.fracPart_text h0, d.fracText_fracGroups, List.length_append,
        length_lastDigits]
      rfl
  cases hkept with
  | zero h =>
    have htext : decimalText d.intgPart = ascii "0" := by
      rw [hv, h]
      rfl
    simp only [decimal2string, removeLeadingZeroes_zero, plainText, htext, List.nil_append]
    by_cases h0 : scale = 0
    · subst h0
      cases d.neg <;> simp [roundUp, digPerDec1, intgText, intgGroupText, digitChar, ascii]
    · have hsum : ¬(0 + scale = 0) := by omega
      simp only [if_neg hsum, if_neg h0, if_true, Prod.mk.injEq]
      refine ⟨?_, ?_⟩
      · rw [← d.fracPart_text h0]
        rfl
      · rw [if_neg h0, if_neg h0] at hfrac
        have hdigit : (ascii "0").length = 1 := rfl
        rw [List.length_append, List.length_append, hsign, hfrac, hdigit]
        omega
  | cons x w groups hx hlt hw hw' hgroups h =>
    have hone : 1 ≤ (Nat.digits 10 x).length :=
      (Nat.lt_digits_length_iff (by norm_num) x).mpr (by rwa [pow_zero])
    have hnine : (Nat.digits 10 x).length ≤ 9 :=
      ((Nat.digits_length_le_iff (by norm_num) x).mpr hlt).trans hw'
    have hround : roundUp ((Nat.digits 10 x).length + 9 * groups.length) =
        (x :: groups).length := by
      rw [roundUp, digPerDec1, List.length_cons]
      omega
    have hintg : intgText (x :: groups).reverse
        ((Nat.digits 10 x).length + 9 * groups.length) [] = decimalText d.intgPart := by
      have htext := intgText_append (Nat.digits 10 x).length x hnine groups.reverse []
      rw [List.length_reverse, List.reverse_reverse, List.append_nil] at htext
      rw [List.reverse_cons, htext, hv, h, decimalText_groupsValue hx hgroups]
    have hlength : (decimalText d.intgPart).length =
        (Nat.digits 10 x).length + 9 * groups.length := by
      have hflat : (groups.flatMap (lastDigits 9)).length = 9 * groups.length := by
        simp [List.length_flatMap, mul_comm]
      rw [hv, h, decimalText_groupsValue hx hgroups, List.length_append, length_lastDigits, hflat]
    have hsum : ¬((Nat.digits 10 x).length + 9 * groups.length + scale = 0) := by omega
    have hne : ¬((Nat.digits 10 x).length + 9 * groups.length = 0) := by omega
    simp only [decimal2string, List.cons_append, removeLeadingZeroes_cons hx hlt hw hw',
      if_neg hsum, if_neg hne, hround, Prod.mk.injEq]
    rw [← List.cons_append, List.take_left, List.drop_left, hintg]
    refine ⟨?_, ?_⟩
    · by_cases h0 : scale = 0
      · rw [plainText, if_pos h0, if_pos h0]
      · rw [plainText, if_neg h0, if_neg h0, d.fracPart_text h0]
    · rw [plainText, List.length_append, List.length_append, hsign, hfrac, hlength]
      omega

end DecimalValue

/-! ## The cell -/

/-- The stored form of a decimal number gives its text in plain notation. -/
theorem value2Cell_newdecimal {ev : Mem} {p : ℤ} {precision scale : ℕ}
    (d : DecimalValue precision scale) (hp : 1 ≤ precision) (hp' : precision ≤ 65)
    (hs : scale ≤ 30) (hsp : scale ≤ precision) (hev : Holds ev p d.stored) :
    value2Cell ⟨ev, p⟩ FieldType.newdecimal.toByte (precision * 256 + scale) =
      .ok (⟨.string, .newdecimal, d.plainText.length, some (d.plainText ++ [0])⟩,
        .advance ⟨ev, p⟩ (decimalBinSize precision scale)) := by
  obtain ⟨hprec, hscale⟩ := newdecimal_word hp' hs
  rw [value2Cell_decimal]
  simp only [newdecimalCell, hprec, hscale]
  rw [if_pos ⟨by omega, hsp⟩, d.bin2decimal_stored (by omega) hp' hsp hev]
  simp only [decimalCell, d.decimal2string_decoded hsp]

/-- -0.0507, whose integer part is no group at all. -/
def sampleDecimal : DecimalValue 4 4 := ⟨true, 507, by norm_num, fun _ => by norm_num⟩

theorem value2Cell_newdecimal_sample : sampleDecimal.plainText = ascii "-0.0507" ∧
    value2Cell ⟨ofBytes sampleDecimal.stored, 0⟩ FieldType.newdecimal.toByte (4 * 256 + 4) =
      .ok (⟨.string, .newdecimal, sampleDecimal.plainText.length,
        some (sampleDecimal.plainText ++ [0])⟩,
        .advance ⟨ofBytes sampleDecimal.stored, 0⟩ (decimalBinSize 4 4)) :=
  ⟨by decide +kernel, value2Cell_newdecimal sampleDecimal (by norm_num) (by norm_num)
    (by norm_num) le_rfl (holds_ofBytes _)⟩

end LibBinlog

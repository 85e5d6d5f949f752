import LibBinlog.PacketWrites

/-!
# The loops of `anet.c`

`anetRead` and `anetWrite` call the system until all bytes are through. A call may move any part of
what it could, so the runs over one line are many; whatever their parts are, the loops come to what
`Conn` says of a read or a write of all the bytes at once.
-/

namespace LibBinlog

open Machine Memory Arrivals

/-- The system's calls: the bytes that `read` brings and the number of bytes that `write` takes,
`none` for the result -1. -/
structure Kernel (κ : Type*) where
  read : κ → ℕ → Option (List UInt8) × κ
  write : κ → List UInt8 → Option ℕ × κ

variable {κ : Type*}

/-- `totlen` bytes have come before, and `left` are missing. -/
def readLoop (kernel : Kernel κ) (left : ℕ) (buf : Mem) (totlen : ℕ) (k : κ) : ℤ × Mem × κ :=
  if left = 0 then (totlen, buf, k)
  else
    match kernel.read k left with
    | (none, k) => (-1, buf, k)
    | (some bs, k) =>
      if bs = [] then (totlen, buf, k)
      else readLoop kernel (left - bs.length) (store buf totlen bs) (totlen + bs.length) k
termination_by left
decreasing_by
  have hpos := List.length_pos_of_ne_nil ‹bs ≠ []›
  omega

/-- `read` refuses the size that a negative count comes to. -/
def anetReadCalls (kernel : Kernel κ) (k : κ) (buf : Mem) (count : ℤ) : ℤ × Mem × κ :=
  if count < 0 then (-1, buf, k) else readLoop kernel count.toNat buf 0 k

def writeLoop (kernel : Kernel κ) (left : ℕ) (buf : Mem) (totlen : ℕ) (k : κ) : ℤ × κ :=
  if left = 0 then (totlen, k)
  else
    match kernel.write k (slice buf totlen left) with
    | (none, k) => (-1, k)
    | (some n, k) =>
      if n = 0 then (totlen, k) else writeLoop kernel (left - n) buf (totlen + n) k
termination_by left
decreasing_by
  omega

def anetWriteCalls (kernel : Kernel κ) (k : κ) (buf : Mem) (count : ℤ) : ℤ × κ :=
  if count < 0 then (-1, k) else writeLoop kernel count.toNat buf 0 k

/-! ## Calls on a connection -/

/-- `At k c`: the system in state `k` has this connection. Each read takes some of the bytes that
arrive, each write some of those that the line has room for, but at least one if there is one. -/
structure Kernel.Works (kernel : Kernel κ) (At : κ → Conn → Prop) : Prop where
  read : ∀ {k c n}, At k c → 0 < n → ∃ rest,
    Takes c.broken n c.incoming (kernel.read k n).1 rest ∧
      At (kernel.read k n).2 { c with incoming := rest }
  write : ∀ {k c bs}, At k c → bs ≠ [] →
    (c.room = 0 ∧ (kernel.write k bs).1 = none ∧ At (kernel.write k bs).2 c) ∨
    ∃ n, 0 < n ∧ n ≤ bs.length ∧ n ≤ c.room ∧ (kernel.write k bs).1 = some n ∧
      At (kernel.write k bs).2 (c.sent (bs.take n))

section

variable {kernel : Kernel κ} {At : κ → Conn → Prop} {k : κ} {c : Conn}

theorem after_of_takes {bs : List UInt8} {rest : List (Option UInt8)} {n : ℕ} (hne : bs ≠ [])
    (h : Takes c.broken n c.incoming (some bs) rest) :
    c.after n = { c with incoming := rest }.after (n - bs.length) := by
  have hreceive := receive_of_takes hne h
  rw [Conn.after, Conn.after, Conn.reception, Conn.reception, hreceive]

/-- The loop stores, from where it stands, what the connection brings of the missing bytes. -/
theorem readLoop_eq (hworks : kernel.Works At) (left : ℕ) (buf : Mem) (totlen : ℕ) (hat : At k c) :
    ∃ k', readLoop kernel left buf totlen k =
      (if (c.reception left).failed then -1
          else ((totlen + (c.reception left).items.length : ℕ) : ℤ),
        store buf totlen (c.reception left).items, k') ∧ At k' (c.after left) := by
  induction left using Nat.strong_induction_on generalizing buf totlen k c with
  | h left ih =>
    by_cases hzero : left = 0
    · subst hzero
      have hnone : c.reception 0 = ⟨[], false, c.incoming⟩ := receive_zero c.incoming
      rw [readLoop.eq_def, if_pos rfl, Conn.after, hnone, (holds_nil buf totlen).store_eq]
      exact ⟨k, rfl, hat⟩
    have hpos : 0 < left := Nat.pos_of_ne_zero hzero
    obtain ⟨rest, htakes, hat'⟩ := hworks.read hat hpos
    rw [readLoop.eq_def, if_neg hzero]
    rcases hread : kernel.read k left with ⟨_ | bs, k₁⟩
    · rw [hread] at htakes hat'
      have hreceive : c.reception left = ⟨[], true, rest⟩ := receive_of_takes_none hpos htakes
      rw [Conn.after, hreceive, (holds_nil buf totlen).store_eq]
      exact ⟨k₁, rfl, hat'⟩
    · rw [hread] at htakes hat'
      dsimp only
      by_cases hnil : bs = []
      · subst hnil
        have hreceive : c.reception left = ⟨[], false, rest⟩ := receive_of_takes_nil hpos htakes
        rw [if_pos rfl, Conn.after, hreceive, (holds_nil buf totlen).store_eq]
        exact ⟨k₁, rfl, hat'⟩
      · have hlength : 0 < bs.length := List.length_pos_of_ne_nil hnil
        have hreceive : c.reception left = _ := receive_of_takes hnil htakes
        obtain ⟨k', hloop, hat''⟩ := ih (left - bs.length) (by omega) (store buf totlen bs)
          (totlen + bs.length) hat'
        refine ⟨k', ?_, after_of_takes hnil htakes ▸ hat''⟩
        rw [if_neg hnil, hloop, hreceive]
        have hstore := store_store_append buf totlen bs
          (({ c with incoming := rest } : Conn).reception (left - bs.length)).items
        rw [← Nat.cast_add] at hstore
        dsimp only [Conn.reception] at hstore ⊢
        rw [hstore, List.length_append, Nat.add_assoc]
        rfl

/-- However the system cuts the line into reads, the call brings the bytes of a single read of the
connection, stores them at the start of the block and returns its result. -/
theorem anetReadCalls_eq (hworks : kernel.Works At) (hat : At k c) (buf : Mem) (count : ℤ) :
    ∃ k', anetReadCalls kernel k buf count =
      ((anetRead c count).1, store buf 0 (anetRead c count).2.1, k') ∧
        At k' (anetRead c count).2.2 := by
  unfold anetReadCalls
  by_cases hneg : count < 0
  · rw [if_pos hneg, anetRead, if_pos hneg, (holds_nil buf 0).store_eq]
    exact ⟨k, rfl, hat⟩
  · obtain ⟨n, rfl⟩ := Int.eq_ofNat_of_zero_le (not_lt.mp hneg)
    obtain ⟨k', hloop, hat'⟩ := readLoop_eq hworks n buf 0 hat
    rw [if_neg hneg, Int.toNat_natCast, hloop, anetRead_natCast, Nat.zero_add]
    exact ⟨k', rfl, hat'⟩

/-! ## Writes -/

/-- The connection after a write of these bytes, as far as it has room. -/
def Conn.takes (c : Conn) (bs : List UInt8) : Conn := c.sent (bs.take c.room)

theorem takes_sent {bs : List UInt8} {n : ℕ} (hn : n ≤ bs.length) (hroom : n ≤ c.room) :
    (c.sent (bs.take n)).takes (bs.drop n) = c.takes bs := by
  have hlength : (bs.take n).length = n := List.length_take_of_le hn
  have hleft : (c.sent (bs.take n)).room = c.room - n := by rw [Conn.sent, hlength]
  rw [Conn.takes, hleft, Conn.sent_sent, Conn.takes]
  congr 1
  rw [← List.take_add, Nat.add_sub_cancel' hroom]

theorem Conn.sent_nil (c : Conn) : c.sent [] = c := by
  rw [Conn.sent, List.append_nil]
  rfl

theorem takes_nil (c : Conn) : c.takes [] = c := by
  rw [Conn.takes, List.take_nil, Conn.sent_nil]

theorem takes_full {bs : List UInt8} (hfull : c.room = 0) : c.takes bs = c := by
  rw [Conn.takes, hfull, List.take_zero, Conn.sent_nil]

/-- The loop writes, from where it stands, what is left. -/
theorem writeLoop_eq (hworks : kernel.Works At) (left : ℕ) (buf : Mem) (totlen : ℕ) (hat : At k c) :
    ∃ k', writeLoop kernel left buf totlen k =
      (if c.room < left then -1 else ((totlen + left : ℕ) : ℤ), k') ∧
        At k' (c.takes (slice buf totlen left)) := by
  induction left using Nat.strong_induction_on generalizing totlen k c with
  | h left ih =>
    by_cases hzero : left = 0
    · subst hzero
      have hnone : slice buf totlen 0 = [] := rfl
      rw [writeLoop.eq_def, if_pos rfl, if_neg (Nat.not_lt_zero _), hnone, takes_nil]
      exact ⟨k, rfl, hat⟩
    have hlength : (slice buf totlen left).length = left := length_slice _ _ _
    have hne : slice buf totlen left ≠ [] := List.ne_nil_of_length_pos (by omega)
    rw [writeLoop.eq_def, if_neg hzero]
    rcases hcall : kernel.write k (slice buf totlen left) with ⟨result, k₁⟩
    have hwrite := hworks.write hat hne
    rw [hcall, hlength] at hwrite
    obtain ⟨hfull, hresult, hat'⟩ | ⟨n, hpos, hn, hroom, hresult, hat'⟩ := hwrite
    · cases hresult
      rw [if_pos (by omega), takes_full hfull]
      exact ⟨k₁, rfl, hat'⟩
    · cases hresult
      have hleft : (c.sent ((slice buf totlen left).take n)).room = c.room - n := by
        rw [Conn.sent, List.length_take_of_le (hn.trans hlength.ge)]
      obtain ⟨k', hloop, hat''⟩ := ih (left - n) (by omega) (totlen + n) hat'
      have hdrop : slice buf ((totlen + n : ℕ) : ℤ) (left - n) =
          (slice buf totlen left).drop n := by
        rw [drop_slice buf totlen hn, Nat.cast_add]
      rw [hdrop, takes_sent (hn.trans hlength.ge) hroom] at hat''
      rw [hleft] at hloop
      refine ⟨k', ?_, hat''⟩
      dsimp only
      rw [if_neg hpos.ne', hloop]
      congr 1
      split_ifs <;> omega

/-- However the system cuts the bytes into writes, the call comes to a single write of the
connection. -/
theorem anetWriteCalls_eq (hworks : kernel.Works At) (hat : At k c) (buf : Mem) (count : ℤ) :
    ∃ k', anetWriteCalls kernel k buf count = ((anetWrite c buf count).1, k') ∧
      At k' (anetWrite c buf count).2 := by
  unfold anetWriteCalls
  by_cases hneg : count < 0
  · rw [if_pos hneg, anetWrite, if_pos hneg]
    exact ⟨k, rfl, hat⟩
  · obtain ⟨n, rfl⟩ := Int.eq_ofNat_of_zero_le (not_lt.mp hneg)
    obtain ⟨k', hloop, hat'⟩ := writeLoop_eq hworks n buf 0 hat
    have hwritten : (slice buf 0 n).take c.room = slice buf 0 (min n c.room) := by
      rw [← take_slice buf 0 (Nat.min_le_left n c.room), List.take_eq_take_iff, length_slice]
      omega
    have hleft : c.room - min n c.room = c.room - n := by omega
    have htakes : c.takes (slice buf 0 n) = (anetWrite c buf n).2 := by
      rw [Conn.takes, Conn.sent, hwritten, length_slice, hleft, anetWrite, if_neg hneg,
        Int.toNat_natCast]
    rw [if_neg hneg, Int.toNat_natCast, hloop, Nat.zero_add]
    refine ⟨k', ?_, htakes ▸ hat'⟩
    rw [anetWrite, if_neg hneg, Int.toNat_natCast]

end

/-! ## One byte at a time -/

/-- A system that moves one byte with each call. -/
def bytewise : Kernel Conn where
  read c _ := match c.incoming with
    | [] => (if c.broken then none else some [], c)
    | none :: later => (none, { c with incoming := later })
    | some b :: later => (some [b], { c with incoming := later })
  write c bs := if c.room = 0 then (none, c) else (some 1, c.sent (bs.take 1))

theorem bytewise_works : bytewise.Works fun k c => k = c where
  read := by
    rintro k c n rfl hn
    unfold bytewise
    dsimp only
    cases hincoming : k.incoming with
    | nil =>
      have hsame : k = { k with incoming := [] } := by rw [← hincoming]
      refine ⟨[], ?_, hsame⟩
      cases hb : k.broken with
      | true => exact .broken rfl
      | false => exact .ended rfl
    | cons item later =>
      cases item with
      | none => exact ⟨later, .failed later, rfl⟩
      | some b => exact ⟨later, .some [b] later (List.cons_ne_nil _ _) hn, rfl⟩
  write := by
    rintro k c bs rfl hne
    have hpos := List.length_pos_of_ne_nil hne
    unfold bytewise
    dsimp only
    by_cases hfull : k.room = 0
    · rw [if_pos hfull]
      exact .inl ⟨hfull, rfl, rfl⟩
    · rw [if_neg hfull]
      exact .inr ⟨1, Nat.one_pos, hpos, Nat.pos_of_ne_zero hfull, rfl, rfl⟩

/-- Three bytes, and room for two. -/
def shortLine : Conn :=
  ⟨[some 7, some 8, some 9], true, 2, [], ascii "Success", success_ne_nil, length_success_lt⟩

theorem anetReadCalls_bytewise : ∃ k', anetReadCalls bytewise shortLine (fun _ => 0) 3 =
    ((anetRead shortLine 3).1, store (fun _ => 0) 0 (anetRead shortLine 3).2.1, k') ∧
      k' = (anetRead shortLine 3).2.2 :=
  anetReadCalls_eq bytewise_works rfl (fun _ => 0) 3

theorem anetWriteCalls_bytewise : ∃ k', anetWriteCalls bytewise shortLine (fun _ => 0) 3 =
    ((anetWrite shortLine (fun _ => 0) 3).1, k') ∧ k' = (anetWrite shortLine (fun _ => 0) 3).2 :=
  anetWriteCalls_eq bytewise_works rfl (fun _ => 0) 3

end LibBinlog

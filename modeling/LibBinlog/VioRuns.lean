import LibBinlog.Vio

/-!
# Runs on a buffer vio

Reads, writes and `readStr` follow each other in any order. A read that is too long is refused, and
a write enlarges the block, but `readStr` goes on behind the block until it finds a zero byte.
-/

namespace LibBinlog

open Machine Memory

variable {m : Mem} {io io' : Vio} {bs cs : List UInt8} {n : ℕ}

/-! ## Steps -/

/-- `vioBufferWrite`, with what stands in the new part of a block that is enlarged. -/
def vioWrite (fresh : Mem) (io : Vio) (bs : List UInt8) : Vio :=
  if unsigned 64 (io.len - io.pos) < bs.length then
    let newlen := signed 64 (2 * (io.len + bs.length))
    ⟨store (realloc fresh io.buf io.len newlen) io.pos bs, newlen, io.pos + bs.length⟩
  else ⟨store io.buf io.pos bs, io.len, io.pos + bs.length⟩

theorem vioBufferWrite_eq (io : Vio) (bs : List UInt8) :
    vioBufferWrite io bs = vioWrite io.buf io bs := by
  rw [vioBufferWrite, vioWrite]
  split_ifs
  · dsimp only
    rw [realloc_self]
  · rfl

inductive VioOp
  | read (n : ℕ)
  | write (fresh : Mem) (bs : List UInt8)
  | readStr

namespace VioOp

/-- What is returned, the bytes handed out, and the vio behind the operation. -/
def run : VioOp → Vio → Except Fault (Bool × List UInt8 × Vio)
  | .read n, io =>
    match vioBufferRead io n with
    | none => .ok (false, [], io)
    | some (bs, io) => .ok (true, bs, io)
  | .write fresh bs, io => .ok (true, [], vioWrite fresh io bs)
  | .readStr, io => do
    let (bs, io) ← LibBinlog.readStr io
    .ok (true, bs, io)

/-- `readStr` needs a zero byte in the rest of the block, and a write that enlarges the block a size
that an `off_t` can have. -/
def Meets : VioOp → Vio → Prop
  | .read _, _ => True
  | .write _ bs, io => io.len - io.pos < bs.length → 2 * (io.len + bs.length) < 2 ^ 63
  | .readStr, io => 0 ∈ slice io.buf io.pos (io.len - io.pos).toNat

end VioOp

/-- A vio that comes about from `start` by operations that meet the condition. -/
inductive Reached (start : Vio) : Vio → Prop
  | start : Reached start start
  | step {io io' : Vio} {op : VioOp} {status : Bool} {bs : List UInt8} (hio : Reached start io)
      (hop : op.Meets io) (hrun : op.run io = .ok (status, bs, io')) : Reached start io'

def Vio.InBounds (io : Vio) : Prop := 0 ≤ io.pos ∧ io.pos ≤ io.len

/-- The operation stays in bounds, does not depend on what stands behind the block, and hands out
nothing if it is a read of more bytes than are left. -/
def KeepsBounds (op : VioOp) (io : Vio) : Prop :=
  ∃ status bs io', op.run io = .ok (status, bs, io') ∧ io'.InBounds ∧
    (∀ m, (∀ i < io.len, m i = io.buf i) →
      ∃ buf, op.run { io with buf := m } = .ok (status, bs, { io' with buf := buf })) ∧
    ∀ n : ℕ, op = .read n → io.len - io.pos < n → status = false ∧ bs = [] ∧ io' = io

/-- A block of memory. -/
structure Block where
  bytes : Mem
  size : ℕ
  size_lt : size < 2 ^ 63

theorem unsigned_of_nonneg {x : ℤ} (h : 0 ≤ x) (hlt : x < 2 ^ 64) : (unsigned 64 x : ℤ) = x := by
  rw [unsigned, Int.emod_eq_of_lt h hlt, Int.toNat_of_nonneg h]

theorem keepsBounds_read (h : io.InBounds) (hlen : io.len < 2 ^ 63) (n : ℕ) :
    KeepsBounds (.read n) io := by
  obtain ⟨hpos, hle⟩ := h
  have hrest := unsigned_of_nonneg (x := io.len - io.pos) (by omega) (by omega)
  by_cases hn : unsigned 64 (io.len - io.pos) < n
  · have hrefused (m : Mem) : (VioOp.read n).run { io with buf := m } =
        .ok (false, [], { io with buf := m }) := by
      rw [VioOp.run, vioBufferRead, if_pos hn]
    exact ⟨false, [], io, hrefused io.buf, ⟨hpos, hle⟩, fun m _ => ⟨m, hrefused m⟩,
      fun _ _ _ => ⟨rfl, rfl, rfl⟩⟩
  · have htaken (m : Mem) : (VioOp.read n).run { io with buf := m } =
        .ok (true, slice m io.pos n, { io with buf := m, pos := io.pos + n }) := by
      rw [VioOp.run, vioBufferRead, if_neg hn]
    refine ⟨true, slice io.buf io.pos n, { io with pos := io.pos + n }, htaken io.buf, ?_, ?_, ?_⟩
    · exact ⟨by dsimp only; omega, by dsimp only; omega⟩
    · intro m hm
      have hsame : slice m io.pos n = slice io.buf io.pos n :=
        slice_congr fun i _ hi => hm i (by omega)
      exact ⟨m, by rw [htaken, hsame]⟩
    · rintro _ ⟨⟩ hshort
      omega

theorem vioWrite_bounds {fresh : Mem} (h : io.InBounds) (hlen : io.len < 2 ^ 63)
    (hmeets : (VioOp.write fresh bs).Meets io) :
    ∃ len, (∀ m, ∃ buf, vioWrite fresh { io with buf := m } bs = ⟨buf, len, io.pos + bs.length⟩) ∧
      io.pos + bs.length ≤ len ∧ len < 2 ^ 63 := by
  obtain ⟨hpos, hle⟩ := h
  have hrest := unsigned_of_nonneg (x := io.len - io.pos) (by omega) (by omega)
  unfold vioWrite
  by_cases hgrows : unsigned 64 (io.len - io.pos) < bs.length
  · have hlt := hmeets (by omega)
    have hsigned : signed 64 (2 * (io.len + bs.length)) = 2 * (io.len + bs.length) :=
      Int.bmod_eq_of_le (by omega) (by omega)
    refine ⟨2 * (io.len + bs.length), fun m => ?_, by omega, hlt⟩
    rw [if_pos hgrows, hsigned]
    exact ⟨_, rfl⟩
  · refine ⟨io.len, fun m => ?_, by omega, hlen⟩
    rw [if_neg hgrows]
    exact ⟨_, rfl⟩

theorem keepsBounds_write {fresh : Mem} (h : io.InBounds) (hlen : io.len < 2 ^ 63)
    (hmeets : (VioOp.write fresh bs).Meets io) : KeepsBounds (.write fresh bs) io := by
  obtain ⟨len, hwrite, hle, -⟩ := vioWrite_bounds h hlen hmeets
  have hrun (m : Mem) : ∃ buf, (VioOp.write fresh bs).run { io with buf := m } =
      .ok (true, [], ⟨buf, len, io.pos + bs.length⟩) := by
    obtain ⟨buf, hbuf⟩ := hwrite m
    exact ⟨buf, by rw [VioOp.run, hbuf]⟩
  obtain ⟨buf, hbuf⟩ := hrun io.buf
  refine ⟨true, [], ⟨buf, len, io.pos + bs.length⟩, hbuf, ⟨?_, hle⟩, fun m _ => hrun m, nofun⟩
  have hpos := h.1
  dsimp only
  omega

theorem readStr_run (m : Mem) (h : 0 ∈ slice m io.pos (io.len - io.pos).toNat) :
    VioOp.readStr.run { io with buf := m } =
      .ok (true, cstring (slice m io.pos (io.len - io.pos).toNat), { io with
        buf := m
        pos := io.pos + ((cstring (slice m io.pos (io.len - io.pos).toNat)).length + 1) }) := by
  rw [VioOp.run, readStr]
  dsimp only
  rw [if_pos h]
  rfl

theorem keepsBounds_readStr (h : io.InBounds) (hmeets : VioOp.readStr.Meets io) :
    KeepsBounds .readStr io := by
  obtain ⟨hpos, hle⟩ := h
  have hlength := length_cstring_lt hmeets
  rw [length_slice] at hlength
  refine ⟨true, _, _, readStr_run io.buf hmeets, ⟨?_, ?_⟩, fun m hm => ⟨m, ?_⟩, nofun⟩
  · dsimp only
    omega
  · dsimp only
    omega
  · have hsame : slice m io.pos (io.len - io.pos).toNat =
        slice io.buf io.pos (io.len - io.pos).toNat :=
      slice_congr fun i _ hi => hm i (by omega)
    rw [readStr_run m (hsame ▸ hmeets), hsame]

/-- Without a zero byte in the rest of the block, `readStr` leaves it. -/
theorem not_keepsBounds_readStr (h : ¬VioOp.readStr.Meets io) : ¬KeepsBounds .readStr io := by
  rintro ⟨status, bs, io', hrun, -⟩
  change 0 ∉ slice io.buf io.pos (io.len - io.pos).toNat at h
  rw [VioOp.run, readStr] at hrun
  dsimp only at hrun
  rw [if_neg h] at hrun
  cases hrun

/-! ## Whole runs -/

theorem len_lt_of_run {op : VioOp} {status : Bool} (h : io.InBounds) (hlen : io.len < 2 ^ 63)
    (hop : op.Meets io) (hrun : op.run io = .ok (status, bs, io')) : io'.len < 2 ^ 63 := by
  cases op with
  | read n =>
    rw [VioOp.run, vioBufferRead] at hrun
    split_ifs at hrun <;> cases hrun <;> exact hlen
  | write fresh cs =>
    obtain ⟨len, hwrite, -, hlt⟩ := vioWrite_bounds h hlen hop
    obtain ⟨buf, hbuf⟩ := hwrite io.buf
    have hio' : vioWrite fresh io cs = ⟨buf, len, io.pos + cs.length⟩ := hbuf
    rw [VioOp.run, hio'] at hrun
    cases hrun
    exact hlt
  | readStr =>
    have hstr := readStr_run io.buf hop
    cases hrun.symm.trans hstr
    exact hlen

theorem keepsBounds_of_meets {op : VioOp} (h : io.InBounds) (hlen : io.len < 2 ^ 63)
    (hop : op.Meets io) : KeepsBounds op io := by
  cases op with
  | read n => exact keepsBounds_read h hlen n
  | write fresh bs => exact keepsBounds_write h hlen hop
  | readStr => exact keepsBounds_readStr h hop

theorem Reached.inBounds {start : Vio} (hstart : start.InBounds) (hlen : start.len < 2 ^ 63)
    (h : Reached start io) : io.InBounds ∧ io.len < 2 ^ 63 := by
  induction h with
  | start => exact ⟨hstart, hlen⟩
  | step hio hop hrun ih =>
    obtain ⟨status, bs, io', hok, hbounds, -⟩ := keepsBounds_of_meets ih.1 ih.2 hop
    cases hrun.symm.trans hok
    exact ⟨hbounds, len_lt_of_run ih.1 ih.2 hop hrun⟩

theorem vio_bounded (b : Block) (io : Vio) (h : Reached (vioInitWithBuffer b.bytes b.size) io) :
    io.InBounds ∧ (∀ op : VioOp, op.Meets io → KeepsBounds op io) ∧
      (KeepsBounds .readStr io → VioOp.readStr.Meets io) := by
  have hsize : (Vio.view b.bytes b.size 0).len < 2 ^ 63 := by
    rw [Vio.view]
    dsimp only
    exact_mod_cast b.size_lt
  rw [vioInitWithBuffer_of_lt b.size_lt] at h
  obtain ⟨hbounds, hlen⟩ := h.inBounds ⟨le_rfl, Int.natCast_nonneg _⟩ hsize
  refine ⟨hbounds, fun op hop => keepsBounds_of_meets hbounds hlen hop, fun hkeeps => ?_⟩
  by_contra hnot
  exact not_keepsBounds_readStr hnot hkeeps

/-- A block of one byte that is not zero. -/
def oneLetter : Block := ⟨fun _ => 97, 1, by decide⟩

theorem oneLetter_bounded : (vioInitWithBuffer oneLetter.bytes 1).InBounds ∧
    (∀ op : VioOp, op.Meets (vioInitWithBuffer oneLetter.bytes 1) →
      KeepsBounds op (vioInitWithBuffer oneLetter.bytes 1)) ∧
    (KeepsBounds .readStr (vioInitWithBuffer oneLetter.bytes 1) →
      VioOp.readStr.Meets (vioInitWithBuffer oneLetter.bytes 1)) :=
  vio_bounded oneLetter _ .start

theorem oneLetter_overrun : ¬KeepsBounds .readStr (vioInitWithBuffer oneLetter.bytes 1) := by
  apply not_keepsBounds_readStr
  rw [vioInitWithBuffer_of_lt (by decide)]
  change ¬(0 : UInt8) ∈ [97]
  decide

/-! ## What is written is read back -/

/-- Writes one behind the other, each with what stands in the new part of a block that it enlarges.
-/
def vioWriteAll (writes : List (Mem × List UInt8)) (io : Vio) : Vio :=
  writes.foldl (fun io w => vioWrite w.1 io w.2) io

/-- `none` if a read gives 0. -/
def vioReadAll : List ℕ → Vio → Option (List (List UInt8))
  | [], _ => some []
  | n :: ns, io =>
    match vioBufferRead io n with
    | none => none
    | some (bs, io) => (vioReadAll ns io).map (bs :: ·)

def written (writes : List (Mem × List UInt8)) : List UInt8 := (writes.map Prod.snd).flatten

/-- These bytes have been written to a block of `cap` bytes from its start on. -/
def Vio.Filled (io : Vio) (cap : ℕ) (bs : List UInt8) : Prop :=
  io.len = signed 64 cap ∧ io.pos = bs.length ∧ cap < 2 ^ 64 ∧ bs.length ≤ cap ∧ Holds io.buf 0 bs

/-- What is left of a block, also of one whose size an `off_t` cannot have. -/
theorem unsigned_signed_sub {cap pos : ℕ} (hcap : cap < 2 ^ 64) (hpos : pos ≤ cap) :
    unsigned 64 (signed 64 cap - pos) = cap - pos := by
  have hpow : (2 ^ 64 : ℤ) = ((2 ^ 64 : ℕ) : ℤ) := by norm_num
  have hmod : (signed 64 cap - pos) % 2 ^ 64 = ((cap - pos : ℕ) : ℤ) := by
    rw [signed, hpow, Int.sub_emod, Int.bmod_emod, ← Int.sub_emod, ← Nat.cast_sub hpos,
      Int.emod_eq_of_lt (by omega) (by omega)]
  rw [unsigned, hmod, Int.toNat_natCast]

theorem filled_init (m : Mem) (cap : ℕ) :
    (vioInitWithBuffer m cap).Filled (cap % 2 ^ 64) [] := by
  refine ⟨?_, rfl, Nat.mod_lt _ (by decide), Nat.zero_le _, holds_nil m 0⟩
  rw [vioInitWithBuffer, signed, signed]
  push_cast
  exact (Int.emod_bmod _ _).symm

theorem Vio.Filled.write {cap : ℕ} (h : io.Filled cap bs) (hlt : (bs ++ cs).length < 2 ^ 31)
    (fresh : Mem) : ∃ cap', (vioWrite fresh io cs).Filled cap' (bs ++ cs) := by
  obtain ⟨hlen, hpos, hcap, hle, hholds⟩ := h
  have hrest : unsigned 64 (io.len - io.pos) = cap - bs.length := by
    rw [hlen, hpos, unsigned_signed_sub hcap hle]
  rw [List.length_append] at hlt
  rw [vioWrite, hrest]
  split_ifs with hgrows
  · have hsmall : signed 64 (cap : ℤ) = cap := Int.bmod_eq_of_le (by omega) (by omega)
    have hdouble : (2 * (io.len + cs.length) : ℤ) = ((2 * (cap + cs.length) : ℕ) : ℤ) := by
      rw [hlen, hsmall]
      push_cast
      rfl
    have hsigned : signed 64 (2 * (io.len + cs.length)) = ((2 * (cap + cs.length) : ℕ) : ℤ) := by
      rw [hdouble, signed, Int.bmod_eq_of_le (by omega) (by omega)]
    have hold : (0 : ℤ) + bs.length ≤ io.len := by
      rw [hlen, hsmall]
      omega
    have hnew : (0 : ℤ) + bs.length ≤ ((2 * (cap + cs.length) : ℕ) : ℤ) := by omega
    have hkept := hholds.realloc fresh hold hnew
    have hstore := hkept.store_append cs
    rw [zero_add] at hstore
    refine ⟨2 * (cap + cs.length), ?_, ?_, by omega, ?_, ?_⟩
    · dsimp only
      rw [hdouble]
    · dsimp only
      rw [hpos, List.length_append, Nat.cast_add]
    · rw [List.length_append]
      omega
    · dsimp only
      rw [hpos, hsigned]
      exact hstore
  · have hstore := hholds.store_append cs
    rw [zero_add] at hstore
    refine ⟨cap, hlen, ?_, hcap, ?_, ?_⟩
    · dsimp only
      rw [hpos, List.length_append, Nat.cast_add]
    · rw [List.length_append]
      omega
    · dsimp only
      rw [hpos]
      exact hstore

theorem Vio.Filled.writeAll {cap : ℕ} (writes : List (Mem × List UInt8)) (h : io.Filled cap bs)
    (hlt : (bs ++ written writes).length < 2 ^ 31) :
    ∃ cap', (vioWriteAll writes io).Filled cap' (bs ++ written writes) := by
  induction writes generalizing io cap bs with
  | nil => exact ⟨cap, by rw [written, List.map_nil, List.flatten_nil, List.append_nil]; exact h⟩
  | cons w writes ih =>
    have hsplit : bs ++ written (w :: writes) = bs ++ w.2 ++ written writes := by
      rw [written, List.map_cons, List.flatten_cons, List.append_assoc, written]
    rw [hsplit] at hlt ⊢
    have hfirst : (bs ++ w.2).length < 2 ^ 31 := by
      rw [List.length_append] at hlt
      omega
    obtain ⟨cap', hwrite⟩ := h.write hfirst w.1
    exact ih hwrite hlt

/-- Reads from `k` on hand out the bytes from there on, in pieces of these sizes. -/
theorem readAll_of_filled {cap : ℕ} (h : io.Filled cap bs) (sizes : List ℕ) {k : ℕ}
    (hk : k + sizes.sum ≤ bs.length) :
    ∃ pieces, vioReadAll sizes { io with pos := k } = some pieces ∧
      pieces.map List.length = sizes ∧ pieces.flatten = (bs.drop k).take sizes.sum := by
  induction sizes generalizing k with
  | nil => exact ⟨[], rfl, rfl, rfl⟩
  | cons n sizes ih =>
    obtain ⟨hlen, -, hcap, hle, hholds⟩ := h
    rw [List.sum_cons] at hk ⊢
    have hroom : ¬unsigned 64 (io.len - k) < n := by
      rw [hlen, unsigned_signed_sub hcap (by omega)]
      omega
    have hslice : slice io.buf k n = (bs.drop k).take n := hholds.slice_drop (by omega)
    obtain ⟨pieces, hread, hsizes, hflat⟩ := ih (k := k + n) (by omega)
    refine ⟨slice io.buf k n :: pieces, ?_, ?_, ?_⟩
    · rw [vioReadAll, vioBufferRead, if_neg hroom]
      dsimp only
      rw [Nat.cast_add] at hread
      rw [hread]
      rfl
    · rw [List.map_cons, hsizes, length_slice]
    · rw [List.flatten_cons, hflat, hslice, List.take_add, List.drop_drop]

theorem writes_read_back (m : Mem) (cap : ℕ) (writes : List (Mem × List UInt8)) (sizes : List ℕ)
    (htotal : (written writes).length < 2 ^ 31) (hsizes : sizes.sum = (written writes).length) :
    (∀ before after, writes = before ++ after →
      Holds (vioWriteAll before (vioInitWithBuffer m cap)).buf 0 (written before)) ∧
    ∃ pieces, vioReadAll sizes { vioWriteAll writes (vioInitWithBuffer m cap) with pos := 0 } =
        some pieces ∧
      pieces.map List.length = sizes ∧ pieces.flatten = written writes := by
  constructor
  · rintro before after rfl
    have hbefore : ([] ++ written before).length < 2 ^ 31 := by
      rw [written, List.map_append, List.flatten_append, List.length_append] at htotal
      rw [List.nil_append, written]
      omega
    obtain ⟨cap', -, -, -, -, hholds⟩ := (filled_init m cap).writeAll before hbefore
    exact hholds
  · obtain ⟨cap', hfilled⟩ := (filled_init m cap).writeAll writes htotal
    rw [List.nil_append] at hfilled
    obtain ⟨pieces, hread, hlengths, hflat⟩ := readAll_of_filled hfilled sizes (k := 0) (by omega)
    refine ⟨pieces, hread, hlengths, ?_⟩
    rw [hflat, hsizes, List.drop_zero, List.take_length]

/-- Two writes to a block of one byte, and three reads. -/
theorem three_letters_read_back :
    (∀ before after, [((fun _ => 0), [97]), ((fun _ => 0), [98, 99])] = before ++ after →
      Holds (vioWriteAll before (vioInitWithBuffer (fun _ => 0) 1)).buf 0 (written before)) ∧
    ∃ pieces, vioReadAll [2, 0, 1] { vioWriteAll [((fun _ => 0), [97]), ((fun _ => 0), [98, 99])]
        (vioInitWithBuffer (fun _ => 0) 1) with pos := 0 } = some pieces ∧
      pieces.map List.length = [2, 0, 1] ∧ pieces.flatten = [97, 98, 99] :=
  writes_read_back (fun _ => 0) 1 [((fun _ => 0), [97]), ((fun _ => 0), [98, 99])] [2, 0, 1]
    (by decide) (by decide)

end LibBinlog

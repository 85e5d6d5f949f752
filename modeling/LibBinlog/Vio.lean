import LibBinlog.Lib.Machine
import LibBinlog.Lib.Memory

/-!
# Buffered input and output of `vio.c` and `binary.c`

A buffer vio is a block, its length and a position in it. Reads behind the length fail, which
`readBinary` asserts not to happen; `readStr` looks for the end of a string without regard to the
length. Writes behind the length enlarge the block.
-/

namespace LibBinlog

open Machine Memory

structure Vio where
  buf : Mem
  len : ℤ
  pos : ℤ

def vioInitWithBuffer (buf : Mem) (len : ℕ) : Vio := ⟨buf, signed 64 len, 0⟩

/-- `none` where the C function gives 0. -/
def vioBufferRead (io : Vio) (len : ℕ) : Option (List UInt8 × Vio) :=
  if unsigned 64 (io.len - io.pos) < len then none
  else some (slice io.buf io.pos len, { io with pos := io.pos + len })

/-- `realloc` keeps the bytes of the block. -/
def vioBufferWrite (io : Vio) (bs : List UInt8) : Vio :=
  let len := if unsigned 64 (io.len - io.pos) < bs.length then
    signed 64 (2 * (io.len + bs.length)) else io.len
  ⟨store io.buf io.pos bs, len, io.pos + bs.length⟩

def vioBufferTell (io : Vio) : ℤ := io.pos

def readBinary (io : Vio) (len : ℕ) : Except Fault (List UInt8 × Vio) :=
  match vioBufferRead io len with
  | none => .error .assertion
  | some r => .ok r

def writeBinary (io : Vio) (bs : List UInt8) : Vio := vioBufferWrite io bs

/-- The bytes up to the zero byte, which must stand inside the block. -/
def readStr (io : Vio) : Except Fault (List UInt8 × Vio) :=
  let room := slice io.buf io.pos (io.len - io.pos).toNat
  if 0 ∈ room then .ok (cstring room, { io with pos := io.pos + ((cstring room).length + 1) })
  else .error .memory

namespace Vio

def readUint (width : ℕ) (io : Vio) : Except Fault (ℕ × Vio) := do
  let (buf, io) ← readBinary io width
  .ok (leNat buf, io)

def readUint8 (io : Vio) : Except Fault (ℕ × Vio) := io.readUint 1

def readUint16 (io : Vio) : Except Fault (ℕ × Vio) := io.readUint 2

def readUint24 (io : Vio) : Except Fault (ℕ × Vio) := io.readUint 3

def readUint32 (io : Vio) : Except Fault (ℕ × Vio) := io.readUint 4

def readUint64 (io : Vio) : Except Fault (ℕ × Vio) := io.readUint 8

end Vio

/-! ## Reads and writes at a known place -/

variable {m : Mem} {len pos n : ℕ} {bs : List UInt8}

/-- A block of `len` bytes, read up to `pos`. -/
def Vio.view (m : Mem) (len pos : ℕ) : Vio := ⟨m, len, pos⟩

theorem vioInitWithBuffer_of_lt (hlen : len < 2 ^ 63) :
    vioInitWithBuffer m len = .view m len 0 := by
  rw [vioInitWithBuffer, signed, Int.bmod_eq_of_le (by omega) (by omega)]
  rfl

theorem vioBufferTell_view : vioBufferTell (.view m len pos) = pos := rfl

theorem unsigned_natCast (hn : n < 2 ^ 64) : unsigned 64 (n : ℤ) = n := by
  rw [unsigned, Int.emod_eq_of_lt (by omega) (by omega), Int.toNat_natCast]

theorem unsigned_sub (hpos : pos ≤ len) (hlen : len < 2 ^ 63) :
    unsigned 64 ((len : ℤ) - pos) = len - pos := by
  rw [← Nat.cast_sub hpos, unsigned_natCast (by omega)]

theorem readBinary_view (h : pos + n ≤ len) (hlen : len < 2 ^ 63) :
    readBinary (.view m len pos) n = .ok (slice m pos n, .view m len (pos + n)) := by
  have hroom : ¬unsigned 64 ((len : ℤ) - pos) < n := by
    rw [unsigned_sub (by omega) hlen]
    omega
  rw [readBinary, vioBufferRead, Vio.view, if_neg hroom, Vio.view]
  push_cast
  rfl

theorem readBinary_view_short (hpos : pos ≤ len) (h : len < pos + n) (hlen : len < 2 ^ 63) :
    readBinary (.view m len pos) n = .error .assertion := by
  have hroom : unsigned 64 ((len : ℤ) - pos) < n := by
    rw [unsigned_sub hpos hlen]
    omega
  rw [readBinary, vioBufferRead, Vio.view, if_pos hroom]

theorem readUint_view (h : pos + n ≤ len) (hlen : len < 2 ^ 63) :
    (Vio.view m len pos).readUint n =
      .ok (leNat (slice m pos n), .view m len (pos + n)) := by
  rw [Vio.readUint, readBinary_view h hlen]
  rfl

theorem readUint_view_short (hpos : pos ≤ len) (h : len < pos + n) (hlen : len < 2 ^ 63) :
    (Vio.view m len pos).readUint n = .error .assertion := by
  rw [Vio.readUint, readBinary_view_short hpos h hlen]
  rfl

theorem writeBinary_view (h : pos + bs.length ≤ len) (hlen : len < 2 ^ 63) :
    writeBinary (.view m len pos) bs = .view (store m pos bs) len (pos + bs.length) := by
  have hroom : ¬unsigned 64 ((len : ℤ) - pos) < bs.length := by
    rw [unsigned_sub (by omega) hlen]
    omega
  rw [writeBinary, vioBufferWrite, Vio.view]
  dsimp only
  rw [if_neg hroom, Vio.view]
  push_cast
  rfl

theorem leNat_slice_one (m : Mem) (p : ℤ) : leNat (slice m p 1) = (m p).toNat := by
  simp [slice_succ, leNat]

end LibBinlog

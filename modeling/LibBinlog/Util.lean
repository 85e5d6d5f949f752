import LibBinlog.Lib.Machine
import LibBinlog.Lib.Memory

/-!
# The typed reads of `util.h` and the event cursor

Multi-byte reads are little-endian, as on the hosts the casts are written for. The cursor is an
`int`, so every advance is taken back into 32 bits.
-/

namespace LibBinlog

open Machine Memory

def getUint8 (m : Mem) (p : ℤ) : ℕ := (m p).toNat

def getUint16 (m : Mem) (p : ℤ) : ℕ := leNat (slice m p 2)

def getUint32 (m : Mem) (p : ℤ) : ℕ := leNat (slice m p 4)

def getUint64 (m : Mem) (p : ℤ) : ℕ := leNat (slice m p 8)

theorem getUint32_lt (m : Mem) (p : ℤ) : getUint32 m p < 2 ^ 32 :=
  (leNat_lt _).trans_eq (by rw [length_slice]; norm_num)

/-- One byte moved to its place in a wider number. -/
def byteShl (m : Mem) (p : ℤ) (k : ℕ) : ℕ := (m p).toNat <<< k

def getUint24 (m : Mem) (p : ℤ) : ℕ := byteShl m p 0 + byteShl m (p + 1) 8 + byteShl m (p + 2) 16

def getUint48 (m : Mem) (p : ℤ) : ℕ :=
  (byteShl m p 0 + byteShl m (p + 1) 8 + byteShl m (p + 2) 16 + byteShl m (p + 3) 24) +
    byteShl m (p + 4) 32 + byteShl m (p + 5) 40

def getInt8 (m : Mem) (p : ℤ) : ℤ := signed 8 (getUint8 m p)

def getInt16 (m : Mem) (p : ℤ) : ℤ := signed 16 (getUint16 m p)

def getInt32 (m : Mem) (p : ℤ) : ℤ := signed 32 (getUint32 m p)

def getInt64 (m : Mem) (p : ℤ) : ℤ := signed 64 (getUint64 m p)

/-- The top byte carries the sign. -/
def getInt24 (m : Mem) (p : ℤ) : ℤ :=
  toInt32 (byteShl m p 0 + byteShl m (p + 1) 8 + getInt8 m (p + 2) * 2 ^ 16)

theorem getUint24_eq (m : Mem) (p : ℤ) : getUint24 m p = leNat (slice m p 3) := by
  have hs : slice m p 3 = [m p, m (p + 1), m (p + 2)] := by
    simp only [slice, add_assoc, Int.reduceAdd]
  rw [hs, getUint24]
  simp only [leNat, byteShl, Nat.shiftLeft_eq, Nat.reducePow]
  omega

theorem getUint48_eq (m : Mem) (p : ℤ) : getUint48 m p = leNat (slice m p 6) := by
  have hs : slice m p 6 = [m p, m (p + 1), m (p + 2), m (p + 3), m (p + 4), m (p + 5)] := by
    simp only [slice, add_assoc, Int.reduceAdd]
  rw [hs, getUint48]
  simp only [leNat, byteShl, Nat.shiftLeft_eq, Nat.reducePow]
  omega

/-! ## The event cursor -/

structure EventCursor where
  ev : Mem
  cur : ℤ

namespace EventCursor

def advance (evcur : EventCursor) (n : ℕ) : EventCursor :=
  { evcur with cur := toInt32 (evcur.cur + n) }

@[simp] theorem advance_ev (evcur : EventCursor) (n : ℕ) : (evcur.advance n).ev = evcur.ev := rfl

theorem advance_cur (evcur : EventCursor) (n : ℕ) :
    (evcur.advance n).cur = toInt32 (evcur.cur + n) := rfl

/-- As long as it stays below `2 ^ 31`, the cursor moves by the bytes consumed. -/
theorem advance_mk {ev : Mem} {c : ℤ} {n : ℕ} (h0 : 0 ≤ c) (h1 : c + n < 2 ^ 31) :
    advance ⟨ev, c⟩ n = ⟨ev, c + n⟩ := by
  rw [advance, toInt32_of_range (by omega) h1]

theorem advance_advance (evcur : EventCursor) (a b : ℕ) :
    (evcur.advance a).advance b = evcur.advance (a + b) := by
  simp only [advance, toInt32, signed, mk.injEq, true_and, Nat.cast_add]
  rw [Int.bmod_add_bmod, add_assoc]

/-- The offset, read without its sign, has moved by `n`; every read and every step over bytes has
this form. -/
def Moved (evcur : EventCursor) (n : ℕ) (evcur' : EventCursor) : Prop :=
  evcur'.ev = evcur.ev ∧ toUInt32 evcur'.cur = (toUInt32 evcur.cur + n) % 2 ^ 32

theorem Moved.refl (evcur : EventCursor) : evcur.Moved 0 evcur :=
  ⟨rfl, (Nat.mod_eq_of_lt (unsigned_lt 32 _)).symm⟩

theorem Moved.trans {a b c : EventCursor} {m n : ℕ} (hab : a.Moved m b) (hbc : b.Moved n c) :
    a.Moved (m + n) c := by
  refine ⟨hbc.1.trans hab.1, ?_⟩
  rw [hbc.2, hab.2, Nat.mod_add_mod, add_assoc]

theorem Moved.step (ev : Mem) (cur : ℤ) (n : ℕ) :
    Moved ⟨ev, cur⟩ n ⟨ev, toInt32 (cur + n)⟩ := by
  refine ⟨rfl, ?_⟩
  have hwrap : (cur + n).bmod (2 ^ 32) % 2 ^ 32 = (cur + n) % 2 ^ 32 := Int.bmod_emod
  simp only [toUInt32, unsigned, toInt32, signed, hwrap]
  omega

theorem Moved.advance (evcur : EventCursor) (n : ℕ) : evcur.Moved n (evcur.advance n) :=
  .step evcur.ev evcur.cur n

end EventCursor

def readUint8 (evcur : EventCursor) : ℕ × EventCursor :=
  (getUint8 evcur.ev evcur.cur, evcur.advance 1)

def readUint16 (evcur : EventCursor) : ℕ × EventCursor :=
  (getUint16 evcur.ev evcur.cur, evcur.advance 2)

def readUint24 (evcur : EventCursor) : ℕ × EventCursor :=
  (getUint24 evcur.ev evcur.cur, evcur.advance 3)

def readUint32 (evcur : EventCursor) : ℕ × EventCursor :=
  (getUint32 evcur.ev evcur.cur, evcur.advance 4)

def readUint64 (evcur : EventCursor) : ℕ × EventCursor :=
  (getUint64 evcur.ev evcur.cur, evcur.advance 8)

def readInt8 (evcur : EventCursor) : ℤ × EventCursor :=
  (getInt8 evcur.ev evcur.cur, evcur.advance 1)

def readInt16 (evcur : EventCursor) : ℤ × EventCursor :=
  (getInt16 evcur.ev evcur.cur, evcur.advance 2)

def readInt24 (evcur : EventCursor) : ℤ × EventCursor :=
  (getInt24 evcur.ev evcur.cur, evcur.advance 3)

def readInt32 (evcur : EventCursor) : ℤ × EventCursor :=
  (getInt32 evcur.ev evcur.cur, evcur.advance 4)

def readInt64 (evcur : EventCursor) : ℤ × EventCursor :=
  (getInt64 evcur.ev evcur.cur, evcur.advance 8)

/-- `memcpy` of `n` bytes at the cursor, then `cur += n`. -/
def readBytes (evcur : EventCursor) (n : ℕ) : List UInt8 × EventCursor :=
  (slice evcur.ev evcur.cur n, evcur.advance n)

end LibBinlog

import LibBinlog.Lib.Blocks
import LibBinlog.Lib.Memory
import Mathlib.Data.Fin.VecNotation

/-!
# The secure hash SHA-1

The standard's own description, for messages of bytes: a schedule of 80 words for every block of 64
bytes, 80 steps on five words, and a padding that ends with the length.
-/

namespace SecureHash

open Memory Blocks

def rotl (k : ℕ) (x : UInt32) : UInt32 := ⟨x.toBitVec.rotateLeft k⟩

def ch (x y z : UInt32) : UInt32 := (x &&& y) ^^^ (~~~x &&& z)

def parity (x y z : UInt32) : UInt32 := x ^^^ y ^^^ z

def maj (x y z : UInt32) : UInt32 := (x &&& y) ^^^ (x &&& z) ^^^ (y &&& z)

def mix (t : ℕ) : UInt32 → UInt32 → UInt32 → UInt32 :=
  if t < 20 then ch else if t < 40 then parity else if t < 60 then maj else parity

def constant (t : ℕ) : UInt32 :=
  if t < 20 then 0x5a827999 else if t < 40 then 0x6ed9eba1
  else if t < 60 then 0x8f1bbcdc else 0xca62c1d6

/-- The words of the message schedule, from the 16 words of a block on. -/
def schedule (block : ℕ → UInt32) (t : ℕ) : UInt32 :=
  if _h : t < 16 then block t
  else rotl 1 (schedule block (t - 3) ^^^ schedule block (t - 8) ^^^ schedule block (t - 14) ^^^
    schedule block (t - 16))

abbrev Words := Fin 5 → UInt32

def step (word : UInt32) (t : ℕ) (v : Words) : Words :=
  ![rotl 5 (v 0) + mix t (v 1) (v 2) (v 3) + v 4 + constant t + word, v 0, rotl 30 (v 1), v 2, v 3]

def steps (block : ℕ → UInt32) : ℕ → Words → Words
  | 0, v => v
  | t + 1, v => step (schedule block t) t (steps block t v)

/-- Word `t` of a block of bytes. -/
def blockWord (block : List UInt8) (t : ℕ) : UInt32 :=
  UInt32.ofNat (beNat ((block.drop (4 * t)).take 4))

def compress (v : Words) (block : List UInt8) : Words := v + steps (blockWord block) 80 v

def initial : Words := ![0x67452301, 0xefcdab89, 0x98badcfe, 0x10325476, 0xc3d2e1f0]

/-- A one bit, zeros, and the length in bits in the last eight bytes of the last block. -/
def padding (length : ℕ) : List UInt8 :=
  0x80 :: (List.replicate ((119 - length % 64) % 64) 0 ++ beBytes 8 (8 * length))

def hashWords (message : List UInt8) : Words :=
  (absorb compress 64 initial (message ++ padding message.length)).1

def digest (message : List UInt8) : List UInt8 :=
  (List.finRange 5).flatMap fun i => beBytes 4 (hashWords message i).toNat

theorem schedule_of_lt {block : ℕ → UInt32} {t : ℕ} (h : t < 16) : schedule block t = block t := by
  rw [schedule, dif_pos h]

theorem schedule_of_ge {block : ℕ → UInt32} {t : ℕ} (h : 16 ≤ t) : schedule block t =
    rotl 1 (schedule block (t - 3) ^^^ schedule block (t - 8) ^^^ schedule block (t - 14) ^^^
      schedule block (t - 16)) := by
  rw [schedule, dif_neg (Nat.not_lt.mpr h)]

theorem length_digest (message : List UInt8) : (digest message).length = 20 := by
  rw [digest, List.length_flatMap]
  simp only [length_beBytes]
  rfl

end SecureHash

import LibBinlog.Lib.Machine
import LibBinlog.Lib.Memory
import Mathlib.Data.Fin.VecNotation

/-!
# The digest of `sha1.c`

The rounds are macros over the names of the working variables, which change their parts from line to
line instead of their values, and over a block of 16 words that is expanded in place. A context is
fed with any number of pieces; the last incomplete block waits in its buffer.
-/

namespace LibBinlog

open Machine Memory

namespace Sha1

def rol (value bits : UInt32) : UInt32 := (value <<< bits) ||| (value >>> (32 - bits))

/-- The working variables and the words of the block. -/
structure Work where
  var : Fin 5 → UInt32
  l : Fin 16 → UInt32

def a : Fin 5 := ⟨0, by decide⟩
def b : Fin 5 := ⟨1, by decide⟩
def c : Fin 5 := ⟨2, by decide⟩
def d : Fin 5 := ⟨3, by decide⟩
def e : Fin 5 := ⟨4, by decide⟩

/-- On a little-endian machine. -/
def blk0 (i : ℕ) (l : Fin 16 → UInt32) : UInt32 :=
  (rol (l (Fin.ofNat 16 i)) 24 &&& 0xFF00FF00) ||| (rol (l (Fin.ofNat 16 i)) 8 &&& 0x00FF00FF)

/-- Indices are taken modulo 16. -/
def blk (i : ℕ) (l : Fin 16 → UInt32) : UInt32 :=
  rol (l (Fin.ofNat 16 (i + 13)) ^^^ l (Fin.ofNat 16 (i + 8)) ^^^ l (Fin.ofNat 16 (i + 2)) ^^^
    l (Fin.ofNat 16 i)) 1

/-- One macro: the word of the block is replaced and `z` and `w` are, with the mixing function and
the constant of the round. -/
def round (word : ℕ → (Fin 16 → UInt32) → UInt32) (mix : UInt32 → UInt32 → UInt32 → UInt32)
    (k : UInt32) (v w x y z : Fin 5) (i : ℕ) (work : Work) : Work :=
  let l := Function.update work.l (Fin.ofNat 16 i) (word i work.l)
  let var := Function.update work.var z (work.var z + (mix (work.var w) (work.var x) (work.var y) +
    l (Fin.ofNat 16 i) + k + rol (work.var v) 5))
  ⟨Function.update var w (rol (var w) 30), l⟩

def r0 : Fin 5 → Fin 5 → Fin 5 → Fin 5 → Fin 5 → ℕ → Work → Work :=
  round blk0 (fun w x y => (w &&& (x ^^^ y)) ^^^ y) 0x5A827999

def r1 : Fin 5 → Fin 5 → Fin 5 → Fin 5 → Fin 5 → ℕ → Work → Work :=
  round blk (fun w x y => (w &&& (x ^^^ y)) ^^^ y) 0x5A827999

def r2 : Fin 5 → Fin 5 → Fin 5 → Fin 5 → Fin 5 → ℕ → Work → Work :=
  round blk (fun w x y => w ^^^ x ^^^ y) 0x6ED9EBA1

def r3 : Fin 5 → Fin 5 → Fin 5 → Fin 5 → Fin 5 → ℕ → Work → Work :=
  round blk (fun w x y => ((w ||| x) &&& y) ||| (w &&& x)) 0x8F1BBCDC

def r4 : Fin 5 → Fin 5 → Fin 5 → Fin 5 → Fin 5 → ℕ → Work → Work :=
  round blk (fun w x y => w ^^^ x ^^^ y) 0xCA62C1D6

/-- The 80 lines of `SHA1Transform`. -/
def rounds : List (Work → Work) := [
  r0 a b c d e 0, r0 e a b c d 1, r0 d e a b c 2, r0 c d e a b 3,
  r0 b c d e a 4, r0 a b c d e 5, r0 e a b c d 6, r0 d e a b c 7,
  r0 c d e a b 8, r0 b c d e a 9, r0 a b c d e 10, r0 e a b c d 11,
  r0 d e a b c 12, r0 c d e a b 13, r0 b c d e a 14, r0 a b c d e 15,
  r1 e a b c d 16, r1 d e a b c 17, r1 c d e a b 18, r1 b c d e a 19,
  r2 a b c d e 20, r2 e a b c d 21, r2 d e a b c 22, r2 c d e a b 23,
  r2 b c d e a 24, r2 a b c d e 25, r2 e a b c d 26, r2 d e a b c 27,
  r2 c d e a b 28, r2 b c d e a 29, r2 a b c d e 30, r2 e a b c d 31,
  r2 d e a b c 32, r2 c d e a b 33, r2 b c d e a 34, r2 a b c d e 35,
  r2 e a b c d 36, r2 d e a b c 37, r2 c d e a b 38, r2 b c d e a 39,
  r3 a b c d e 40, r3 e a b c d 41, r3 d e a b c 42, r3 c d e a b 43,
  r3 b c d e a 44, r3 a b c d e 45, r3 e a b c d 46, r3 d e a b c 47,
  r3 c d e a b 48, r3 b c d e a 49, r3 a b c d e 50, r3 e a b c d 51,
  r3 d e a b c 52, r3 c d e a b 53, r3 b c d e a 54, r3 a b c d e 55,
  r3 e a b c d 56, r3 d e a b c 57, r3 c d e a b 58, r3 b c d e a 59,
  r4 a b c d e 60, r4 e a b c d 61, r4 d e a b c 62, r4 c d e a b 63,
  r4 b c d e a 64, r4 a b c d e 65, r4 e a b c d 66, r4 d e a b c 67,
  r4 c d e a b 68, r4 b c d e a 69, r4 a b c d e 70, r4 e a b c d 71,
  r4 d e a b c 72, r4 c d e a b 73, r4 b c d e a 74, r4 a b c d e 75,
  r4 e a b c d 76, r4 d e a b c 77, r4 c d e a b 78, r4 b c d e a 79]

end Sha1

open Sha1

/-- The block is the 64 bytes at `p`. -/
def sha1Transform (state : Fin 5 → UInt32) (buffer : Mem) (p : ℤ) : Fin 5 → UInt32 :=
  let block (i : Fin 16) := UInt32.ofNat (leNat (slice buffer (p + 4 * i.val) 4))
  let work := rounds.foldl (fun work step => step work) ⟨state, block⟩
  fun i => state i + work.var i

/-- The two words of `count` are the low and the high half of a number of bits. -/
structure Sha1Ctx where
  state : Fin 5 → UInt32
  countLow : UInt32
  countHigh : UInt32
  buffer : Mem

def sha1Init (context : Sha1Ctx) : Sha1Ctx :=
  { context with
    state := ![0x67452301, 0xEFCDAB89, 0x98BADCFE, 0x10325476, 0xC3D2E1F0]
    countLow := 0
    countHigh := 0 }

/-- The loop over the blocks that lie complete in the data, from `i` on. -/
def transformBlocks (data : Mem) (len : UInt32) :
    ℕ → (Fin 5 → UInt32) → UInt32 → Except Fault ((Fin 5 → UInt32) × UInt32)
  | 0, _, _ => .error .divergence
  | fuel + 1, state, i =>
    if i + 63 < len then transformBlocks data len fuel (sha1Transform state data i.toNat) (i + 64)
    else .ok (state, i)

/-- `memcpy` to the buffer of 64 bytes. -/
def copyToBuffer (buffer : Mem) (j : UInt32) (data : Mem) (i n : UInt32) : Except Fault Mem :=
  if j.toNat + n.toNat ≤ 64 then .ok (store buffer j.toNat (slice data i.toNat n.toNat))
  else .error .memory

def sha1Update (context : Sha1Ctx) (data : Mem) (len : UInt32) : Except Fault Sha1Ctx := do
  let j := context.countLow
  let countLow := context.countLow + (len <<< 3)
  let countHigh := if countLow < j then context.countHigh + 1 else context.countHigh
  let countHigh := countHigh + (len >>> 29)
  let j := (j >>> 3) &&& 63
  if 63 < j + len then
    let buffer ← copyToBuffer context.buffer j data 0 (64 - j)
    let state := sha1Transform context.state buffer 0
    let (state, i) ← transformBlocks data len len.toNat state (64 - j)
    let buffer ← copyToBuffer buffer 0 data i (len - i)
    .ok ⟨state, countLow, countHigh, buffer⟩
  else
    let buffer ← copyToBuffer context.buffer j data 0 len
    .ok ⟨context.state, countLow, countHigh, buffer⟩

/-- The loop that pads with zeros. -/
def padZeros : ℕ → Sha1Ctx → Except Fault Sha1Ctx
  | 0, _ => .error .divergence
  | fuel + 1, context =>
    if context.countLow &&& 504 ≠ 448 then do
      let context ← sha1Update context (ofBytes [0]) 1
      padZeros fuel context
    else .ok context

/-- The most significant byte first. -/
def wordBytes (word : UInt32) : List UInt8 :=
  (List.range 4).map fun i => (word >>> (UInt32.ofNat ((3 - i) * 8)) &&& 255).toUInt8

/-- The digest, and the context with all its bytes wiped. -/
def sha1Final (context : Sha1Ctx) : Except Fault (List UInt8 × Sha1Ctx) := do
  let finalcount := wordBytes context.countHigh ++ wordBytes context.countLow
  let context ← sha1Update context (ofBytes [0o200]) 1
  let context ← padZeros 64 context
  let context ← sha1Update context (ofBytes finalcount) 8
  let digest := (List.finRange 5).flatMap fun i => wordBytes (context.state i)
  .ok (digest, ⟨fun _ => 0, 0, 0, fun _ => 0⟩)

end LibBinlog

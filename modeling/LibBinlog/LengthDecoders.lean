import LibBinlog.EventFormat
import LibBinlog.PacketReads

/-!
# The two decoders of length-encoded integers

`decodeint` takes them from an event and counts an unsigned cursor up, `readEncodeLength` takes them
from a buffer vio, byte by byte and within its bounds. Both come to the same number and the same
number of bytes.
-/

namespace LibBinlog

open Machine Memory

variable {io : Vio} {bs : List UInt8}

/-- The bytes come next in the buffer, which is an object. -/
structure Vio.Supplies (io : Vio) (bs : List UInt8) : Prop where
  pos_nonneg : 0 ≤ io.pos
  room : io.pos + bs.length ≤ io.len
  len_lt : io.len < 2 ^ 63
  holds : Holds io.buf io.pos bs

theorem readEncodeLength_supplied (b : LengthBytes) (h : io.Supplies b.bytes) :
    readEncodeLength io = .ok (b.value, { io with pos := io.pos + b.width }) := by
  obtain ⟨m, len, pos⟩ := io
  obtain ⟨hpos, hroom, hlen, hholds⟩ := h
  dsimp only at hpos hroom hlen hholds
  obtain ⟨p, rfl⟩ := Int.eq_ofNat_of_zero_le hpos
  obtain ⟨l, rfl⟩ := Int.eq_ofNat_of_zero_le (by omega : 0 ≤ len)
  have hwidth := b.width_le
  exact readEncodeLength_bytes b hholds (by omega) (by exact_mod_cast hlen)

/-- Wherever the bytes stand, both decoders come to `n` and step over `k` bytes. -/
def BothDecode (bs : List UInt8) (n k : ℕ) : Prop :=
  (∀ (ev : Mem) (cur : ℕ), Holds ev cur bs → decodeint ev cur = (n, toUInt32 (cur + k))) ∧
    ∀ io : Vio, io.Supplies bs → readEncodeLength io = .ok (n, { io with pos := io.pos + k })

theorem bothDecode (b : LengthBytes) : BothDecode b.bytes b.value b.width :=
  ⟨fun _ _ => decodeint_bytes b, fun _ => readEncodeLength_supplied b⟩

/-- The decoders agree on all bytes that are enough, and an encoding of `n` is decoded to `n`. -/
theorem lengthDecoders_agree :
    (∀ b : LengthBytes, BothDecode b.bytes b.value b.width) ∧
      ∀ n bs, LengthEncodes n bs → BothDecode bs n bs.length := by
  refine ⟨bothDecode, fun n bs hencodes => ?_⟩
  obtain ⟨b, rfl, rfl, hwidth⟩ := hencodes.exists_bytes
  rw [← hwidth]
  exact bothDecode b

/-- 251 in three bytes. -/
theorem lengthDecoders_agree_251 : BothDecode [252, 251, 0] 251 3 :=
  lengthDecoders_agree.2 251 _ (.two 251 (by decide))

end LibBinlog

import LibBinlog.ParseEvent
import LibBinlog.LengthEncoded

/-!
# The layout of events

What the master writes: a header of 19 fixed bytes and any extra ones, then a body. The parsers'
common reads are proved against this layout: the header fields and zero-terminated names.
-/

namespace LibBinlog

open Machine Memory

variable {ev : Mem} {p : ℤ} {cur n : ℕ} {bs rest : List UInt8}

structure EventHeader where
  ts : ℕ
  type : UInt8
  serverid : ℕ
  nextpos : ℕ
  flags : ℕ
  extra : List UInt8
  ts_lt : ts < 2 ^ 32
  serverid_lt : serverid < 2 ^ 32
  nextpos_lt : nextpos < 2 ^ 32
  flags_lt : flags < 2 ^ 16
  extra_le : extra.length ≤ 236

namespace EventHeader

variable (h : EventHeader)

def hdrlen : ℕ := 19 + h.extra.length

theorem hdrlen_ge : 19 ≤ h.hdrlen := Nat.le_add_right _ _

theorem hdrlen_lt : h.hdrlen < 256 := by
  have := h.extra_le
  rw [hdrlen]
  omega

def bytes (evlen : ℕ) : List UInt8 :=
  leBytes 4 h.ts ++ ([h.type] ++ (leBytes 4 h.serverid ++ (leBytes 4 evlen ++
    (leBytes 4 h.nextpos ++ (leBytes 2 h.flags ++ h.extra)))))

@[simp] theorem length_bytes (evlen : ℕ) : (h.bytes evlen).length = h.hdrlen := by
  simp only [bytes, List.length_append, length_leBytes, List.length_cons, List.length_nil, hdrlen]
  omega

end EventHeader

def eventBytes (h : EventHeader) (body : List UInt8) : List UInt8 :=
  h.bytes (h.hdrlen + body.length) ++ body

theorem length_eventBytes (h : EventHeader) (body : List UInt8) :
    (eventBytes h body).length = h.hdrlen + body.length := by
  rw [eventBytes, List.length_append, h.length_bytes]

/-- What every parser reads from an event's header. -/
structure HeaderRead (ev : Mem) (h : EventHeader) (evlen : ℕ) : Prop where
  ts : getUint32 ev 0 = h.ts
  type : ev 4 = h.type
  serverid : getUint32 ev 5 = h.serverid
  evlen : getUint32 ev 9 = evlen
  nextpos : getUint32 ev 13 = h.nextpos
  flags : getUint16 ev 17 = h.flags

theorem headerRead_of_holds {h : EventHeader} {body : List UInt8}
    (hev : Holds ev 0 (eventBytes h body)) (hlen : (eventBytes h body).length < 2 ^ 32) :
    HeaderRead ev h (eventBytes h body).length ∧ Holds ev h.hdrlen body := by
  have hbody := hev.right
  rw [h.length_bytes, Int.zero_add] at hbody
  rw [length_eventBytes] at hlen ⊢
  have hhead := hev.left
  simp only [EventHeader.bytes, holds_append, length_leBytes, List.length_cons, List.length_nil,
    Nat.cast_ofNat, zero_add, Nat.cast_one, Int.reduceAdd] at hhead
  obtain ⟨hts, hty, hsv, hel, hnp, hfl, -⟩ := hhead
  refine ⟨⟨?_, (holds_cons.mp hty).1, ?_, ?_, ?_, ?_⟩, hbody⟩
  · exact hts.leNat_slice (by simpa using h.ts_lt)
  · exact hsv.leNat_slice (by simpa using h.serverid_lt)
  · exact hel.leNat_slice (by simpa using hlen)
  · exact hnp.leNat_slice (by simpa using h.nextpos_lt)
  · exact hfl.leNat_slice (by simpa using h.flags_lt)

/-- A name of at most 255 bytes without zeros is copied as it stands. -/
theorem strcpy256_of_holds (hev : Holds ev p (bs ++ [0])) (hbs : 0 ∉ bs) (hlen : bs.length ≤ 255) :
    strcpy256 ev p = .ok bs := by
  have hsplit : 256 = bs.length + 1 + (255 - bs.length) := by omega
  have hfirst : slice ev p (bs.length + 1) = bs ++ [0] := hev.slice_eq (by simp)
  have hstr : cstring (slice ev p 256) = bs := by
    rw [hsplit, slice_add, hfirst, List.append_assoc]
    exact cstring_append_zero hbs _
  rw [strcpy256, hstr]
  exact if_pos (by omega)

end LibBinlog

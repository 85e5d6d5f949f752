import LibBinlog.Lib.Arrivals
import LibBinlog.Lib.Machine
import LibBinlog.Lib.Memory

/-!
# Reads and writes on a connection

`anetRead` and `anetWrite` call `read` and `write` until all bytes are through, the stream has ended
or a call fails. The bytes read before a failure stay in the buffer.
-/

namespace LibBinlog

open Machine Memory Arrivals

/-- What the peer sends, `none` for a read that fails, and whether all reads fail behind it; the
bytes that can still be written before a write fails, and those that have been; and the text that
`strerror` has for a failure. -/
structure Conn where
  incoming : List (Option UInt8)
  broken : Bool
  room : ℕ
  outgoing : List UInt8
  reason : List UInt8
  reason_ne : reason ≠ []
  reason_lt : reason.length < 256

/-- The descriptor -1. -/
def Conn.closed : Conn :=
  ⟨[], true, 0, [], ascii "Bad file descriptor", by decide, by decide⟩

theorem success_ne_nil : ascii "Success" ≠ [] := by decide

theorem length_success_lt : (ascii "Success").length < 256 := by decide

/-- The result, the bytes stored and the connection behind them. `read` refuses the size that a
negative count comes to. -/
def anetRead (c : Conn) (count : ℤ) : ℤ × List UInt8 × Conn :=
  if count < 0 then (-1, [], c)
  else
    let r := receive c.broken count.toNat c.incoming
    (if r.failed then -1 else r.items.length, r.items, { c with incoming := r.rest })

def anetWrite (c : Conn) (buf : Mem) (count : ℤ) : ℤ × Conn :=
  if count < 0 then (-1, c)
  else
    (if c.room < count.toNat then -1 else count, { c with
      room := c.room - count.toNat
      outgoing := c.outgoing ++ slice buf 0 (min count.toNat c.room) })

/-! ## What a read of some bytes brings -/

namespace Conn

variable {c : Conn} {n : ℕ} {bs : List UInt8} {later : List (Option UInt8)}

def reception (c : Conn) (n : ℕ) : Reception UInt8 := receive c.broken n c.incoming

def after (c : Conn) (n : ℕ) : Conn := { c with incoming := (c.reception n).rest }

theorem reception_whole (hc : c.incoming = bs.map some ++ later) (hn : n = bs.length) :
    c.reception n = ⟨bs, false, later⟩ := by
  rw [reception, hc, receive_whole hn]

theorem reception_ended (hc : c.incoming = bs.map some) (hn : bs.length < n) :
    c.reception n = ⟨bs, c.broken, []⟩ := by
  rw [reception, hc, receive_ended hn]

theorem reception_failed (hc : c.incoming = bs.map some ++ none :: later) (hn : bs.length < n) :
    c.reception n = ⟨bs, true, later⟩ := by
  rw [reception, hc, receive_failed hn]

/-- All bytes arrive, or the stream ends before, or a read fails before. -/
theorem reception_cases (c : Conn) (n : ℕ) :
    (Arrive n c.incoming ∧ (c.reception n).failed = false ∧ (c.reception n).items.length = n) ∨
      (¬Arrive n c.incoming ∧ (c.reception n).failed = false ∧
        (c.reception n).items.length < n ∧ (c.after n).incoming = [] ∧ c.broken = false) ∨
      (¬Arrive n c.incoming ∧ (c.reception n).failed = true ∧
        (c.reception n).items.length < n) := by
  obtain ⟨bs, later, hn, hc⟩ | ⟨bs, hlt, hc⟩ | ⟨bs, later, hlt, hc⟩ :=
    arriving_cases n c.incoming
  · rw [reception_whole hc hn, hc]
    exact .inl ⟨arrive_append hn, rfl, hn.symm⟩
  · rw [after, reception_ended hc hlt, hc]
    cases hb : c.broken with
    | false => exact .inr (.inl ⟨not_arrive_ended hlt, rfl, hlt, rfl, rfl⟩)
    | true => exact .inr (.inr ⟨not_arrive_ended hlt, rfl, hlt⟩)
  · rw [reception_failed hc hlt, hc]
    exact .inr (.inr ⟨not_arrive_failed hlt, rfl, hlt⟩)

theorem reception_end (n : ℕ) (hc : c.incoming = []) :
    (c.reception n).items = [] ∧ (c.after n).incoming = [] := by
  have hnone : c.incoming = ([] : List UInt8).map some := hc
  cases n with
  | zero => rw [after, reception, receive_zero]; exact ⟨rfl, hc⟩
  | succ n => rw [after, reception_ended hnone (Nat.succ_pos n)]; exact ⟨rfl, rfl⟩

theorem length_reception_le (c : Conn) (n : ℕ) : (c.reception n).items.length ≤ n := by
  rcases c.reception_cases n with h | h | h
  · exact h.2.2.le
  · exact h.2.2.1.le
  · exact h.2.2.le

end Conn

theorem anetRead_natCast (c : Conn) (n : ℕ) : anetRead c n =
    (if (c.reception n).failed then -1 else ((c.reception n).items.length : ℤ),
      (c.reception n).items, c.after n) := by
  rw [anetRead, if_neg (Int.not_lt.mpr (Int.natCast_nonneg n))]
  rfl

end LibBinlog

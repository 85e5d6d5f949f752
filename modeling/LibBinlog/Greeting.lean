import LibBinlog.PacketWrites
import LibBinlog.Replies
import Mathlib.Data.Nat.Bitwise

/-!
# The server's greeting

A greeting has one of three lengths behind its version text: the first part of the salt, the low
half of the capability flags and too little for more, or all fields and perhaps the name of a
plugin. Any other length ends in an assertion, and a text without its zero in a read behind the
block.
-/

namespace LibBinlog

open Machine Memory Arrivals

/-- Where the version text of a greeting of `n` bytes ends. -/
def versionEnd (m : Mem) (n : ℕ) : ℕ := 1 + ((cstring (slice m (1 : ℕ) (n - 1))).length + 1)

def FullGreeting (m : Mem) (n : ℕ) : Prop :=
  n = versionEnd m n + 44 ∨ (versionEnd m n + 44 < n ∧
    0 ∈ slice m (versionEnd m n + 44 : ℕ) (n - (versionEnd m n + 44)))

/-- The bytes divide up into the fields of a greeting. -/
def GreetingShape (m : Mem) (n : ℕ) : Prop :=
  0 ∈ slice m (1 : ℕ) (n - 1) ∧ (n = versionEnd m n + 13 ∨
    (versionEnd m n + 15 ≤ n ∧ n < versionEnd m n + 31) ∨ FullGreeting m n)

/-- The flag for the protocol of version 4.1. -/
def flagSet (m : Mem) (n : ℕ) : Bool :=
  (leNat (slice m (versionEnd m n + 13 : ℕ) 2)).testBit 9

variable {m : Mem} {n pos : ℕ}

instance (m : Mem) (n : ℕ) : Decidable (FullGreeting m n) := inferInstanceAs (Decidable (_ ∨ _))

instance (m : Mem) (n : ℕ) : Decidable (GreetingShape m n) := inferInstanceAs (Decidable (_ ∧ _))

theorem FullGreeting.le (h : FullGreeting m n) : versionEnd m n + 44 ≤ n :=
  h.elim (fun heq => heq.ge) fun hname => hname.1.le

/-- Only a greeting with all fields reaches behind the second part of the salt. -/
theorem GreetingShape.full (h : GreetingShape m n) (hlen : versionEnd m n + 44 ≤ n) :
    FullGreeting m n := by
  obtain ⟨-, hfirst | hflags | hfull⟩ := h
  · omega
  · omega
  · exact hfull

/-! ## Its fields -/

theorem readStr_view (h : 0 ∈ slice m pos (n - pos)) : readStr (.view m n pos) =
    .ok (cstring (slice m pos (n - pos)),
      .view m n (pos + ((cstring (slice m pos (n - pos))).length + 1))) := by
  have hroom : ((n : ℤ) - pos).toNat = n - pos := by omega
  rw [readStr, Vio.view, hroom, if_pos h, Vio.view]
  push_cast
  rfl

theorem readStr_view_unended (h : 0 ∉ slice m pos (n - pos)) :
    readStr (.view m n pos) = .error .memory := by
  have hroom : ((n : ℤ) - pos).toNat = n - pos := by omega
  rw [readStr, Vio.view, hroom, if_neg h]

theorem versionEnd_le (h : 0 ∈ slice m (1 : ℕ) (n - 1)) : versionEnd m n ≤ n := by
  have hlt := length_cstring_lt h
  rw [length_slice] at hlt
  rw [versionEnd]
  omega

theorem readVersion (h : 0 ∈ slice m (1 : ℕ) (n - 1)) : readStr (.view m n (0 + 1)) =
    .ok (cstring (slice m (1 : ℕ) (n - 1)), .view m n (versionEnd m n)) :=
  readStr_view h

theorem unsigned_add_sixteen (hpos : pos < 2 ^ 63) : unsigned 64 ((pos : ℤ) + 16) = pos + 16 := by
  have hcast := unsigned_natCast (n := pos + 16) (by omega)
  rwa [Nat.cast_add] at hcast

theorem and_protocol41 (capacity : ℕ) :
    capacity &&& Capability.protocol41 = 0 ↔ capacity.testBit 9 = false := by
  have hpow : Capability.protocol41 = 2 ^ 9 := rfl
  rw [hpow, Nat.and_two_pow]
  cases capacity.testBit 9 <;> simp

/-- The high half of the flags does not reach the bit. -/
theorem testBit_capacity (lower upper : ℕ) :
    (lower ||| toUInt32 ((upper <<< 16 : ℕ) : ℤ)).testBit 9 = lower.testBit 9 := by
  have hupper : (toUInt32 ((upper <<< 16 : ℕ) : ℤ)).testBit 9 = false := by
    have hmod : toUInt32 ((upper <<< 16 : ℕ) : ℤ) = upper <<< 16 % 2 ^ 32 := by
      rw [toUInt32, unsigned]
      exact_mod_cast Int.toNat_natCast _
    rw [hmod, Nat.testBit_mod_two_pow, Nat.testBit_shiftLeft]
    rfl
  rw [Nat.testBit_or, hupper, Bool.or_false]

/-- The packet after a greeting with all its fields. -/
def HandshakePkt.whole (pkt : HandshakePkt) (m : Mem) (n : ℕ) : HandshakePkt where
  protover := (m 0).toNat
  mysqlver := .text (cstring (slice m (1 : ℕ) (n - 1)))
  threadid := leNat (slice m (versionEnd m n : ℕ) 4)
  saltlen := 20
  salt := store (store pkt.salt 0 ((slice m (versionEnd m n + 4 : ℕ) 9).take 8)) 8
    (slice m (versionEnd m n + 31 : ℕ) 13)
  capacity := leNat (slice m (versionEnd m n + 13 : ℕ) 2) |||
    toUInt32 ((leNat (slice m (versionEnd m n + 18 : ℕ) 2) <<< 16 : ℕ) : ℤ)
  charset := (m (versionEnd m n + 15 : ℕ)).toNat
  status := leNat (slice m (versionEnd m n + 16 : ℕ) 2)
  pluginname := if n = versionEnd m n + 44 then .null
    else .text (cstring (slice m (versionEnd m n + 44 : ℕ) (n - (versionEnd m n + 44))))

theorem HandshakePkt.parse_whole (pkt : HandshakePkt) (hversion : 0 ∈ slice m (1 : ℕ) (n - 1))
    (hfull : FullGreeting m n) (hn : n < 2 ^ 63) :
    pkt.parse (.view m n 0) n = .ok (pkt.whole m n) := by
  have hlen : versionEnd m n + 44 ≤ n := hfull.le
  unfold HandshakePkt.parse
  rw [ok_bind (readUint8_view (by omega) hn)]
  dsimp only
  rw [ok_bind (readVersion hversion)]
  dsimp only
  rw [Vio.readUint32, ok_bind (readUint_view (by omega) hn)]
  dsimp only
  rw [ok_bind (readBinary_view (by omega) hn)]
  dsimp only
  rw [vioBufferTell_view, unsigned_natCast (by omega), if_neg (by omega), Vio.readUint16,
    ok_bind (readUint_view (by omega) hn)]
  dsimp only
  rw [vioBufferTell_view, unsigned_add_sixteen (by omega), if_neg (by omega),
    ok_bind (readUint8_view (by omega) hn)]
  dsimp only
  rw [Vio.readUint16, ok_bind (readUint_view (by omega) hn)]
  dsimp only
  rw [Vio.readUint16, ok_bind (readUint_view (by omega) hn)]
  dsimp only
  rw [ok_bind (readUint8_view (by omega) hn)]
  dsimp only
  rw [ok_bind (readBinary_view (by omega) hn)]
  dsimp only
  rw [ok_bind (readBinary_view (by omega) hn)]
  dsimp only
  rw [vioBufferTell_view, unsigned_natCast (by omega)]
  unfold HandshakePkt.whole
  by_cases hname : n = versionEnd m n + 44
  · rw [if_neg (by omega), if_pos hname]
    rfl
  · have hplugin := (hfull.resolve_left hname).2
    rw [if_pos (by omega), if_neg hname, ok_bind (readStr_view hplugin)]
    rfl

/-- What the parser leaves in the packet, and what it leaves as it was. -/
structure Parsed (m : Mem) (n : ℕ) (pkt pkt' : HandshakePkt) : Prop where
  protover_eq : pkt'.protover = (m 0).toNat
  saltlen_le : pkt'.saltlen ≤ 64
  mysqlver_ne : pkt'.mysqlver ≠ .wild
  capacity_flag : versionEnd m n + 13 < n → pkt'.capacity.testBit 9 = flagSet m n
  capacity_eq : n = versionEnd m n + 13 → pkt'.capacity = pkt.capacity
  pluginname_ne : versionEnd m n + 44 ≤ n → pkt'.pluginname ≠ .wild
  pluginname_eq : n < versionEnd m n + 44 → pkt'.pluginname = pkt.pluginname

theorem parsed_whole (pkt : HandshakePkt) (hfull : FullGreeting m n) :
    Parsed m n pkt (pkt.whole m n) := by
  have hlen : versionEnd m n + 44 ≤ n := hfull.le
  have hsaltlen : (pkt.whole m n).saltlen = 20 := rfl
  refine ⟨rfl, hsaltlen.trans_le (by norm_num), nofun, fun _ => testBit_capacity _ _,
    fun _ => by omega, fun _ => ?_, fun _ => by omega⟩
  rw [HandshakePkt.whole]
  split_ifs <;> exact nofun

theorem HandshakePkt.parse_of_shape (pkt : HandshakePkt) (h : GreetingShape m n)
    (hn : n < 2 ^ 63) : ∃ pkt', pkt.parse (.view m n 0) n = .ok pkt' ∧ Parsed m n pkt pkt' := by
  obtain ⟨hversion, hlengths⟩ := h
  have hend := versionEnd_le hversion
  by_cases hfull : FullGreeting m n
  · exact ⟨_, pkt.parse_whole hversion hfull hn, parsed_whole pkt hfull⟩
  have hcases : n = versionEnd m n + 13 ∨ (versionEnd m n + 15 ≤ n ∧ n < versionEnd m n + 31) :=
    hlengths.imp_right fun h => h.resolve_right hfull
  unfold HandshakePkt.parse
  rw [ok_bind (readUint8_view (by omega) hn)]
  dsimp only
  rw [ok_bind (readVersion hversion)]
  dsimp only
  rw [Vio.readUint32, ok_bind (readUint_view (by omega) hn)]
  dsimp only
  rw [ok_bind (readBinary_view (by omega) hn)]
  dsimp only
  rw [vioBufferTell_view, unsigned_natCast (by omega)]
  rcases hcases with hfirst | hflags
  · rw [if_pos (by omega)]
    exact ⟨_, rfl, rfl, by norm_num, (fun hwild => by cases hwild), fun _ => by omega, fun _ => rfl,
      fun _ => by omega, fun _ => rfl⟩
  · rw [if_neg (by omega), Vio.readUint16, ok_bind (readUint_view (by omega) hn)]
    dsimp only
    rw [vioBufferTell_view, unsigned_add_sixteen (by omega), if_pos (by omega)]
    exact ⟨_, rfl, rfl, by norm_num, (fun hwild => by cases hwild), fun _ => rfl, fun _ => by omega,
      fun _ => by omega, fun _ => rfl⟩

theorem HandshakePkt.parse_of_not_shape (pkt : HandshakePkt) (h : ¬GreetingShape m n)
    (hn : n < 2 ^ 63) : ∃ fault, pkt.parse (.view m n 0) n = .error fault := by
  unfold HandshakePkt.parse
  by_cases hone : 1 ≤ n
  swap
  · exact ⟨_, error_bind (readUint_view_short (Nat.zero_le _) (by omega) hn)⟩
  rw [ok_bind (readUint8_view (by omega) hn)]
  dsimp only
  by_cases hversion : 0 ∈ slice m (1 : ℕ) (n - 1)
  swap
  · exact ⟨_, error_bind (readStr_view_unended hversion)⟩
  have hend := versionEnd_le hversion
  obtain ⟨hfirst, hlengths⟩ := not_or.mp (not_and.mp h hversion)
  obtain ⟨hflags, hfull⟩ := not_or.mp hlengths
  obtain ⟨hfour, hname⟩ := not_or.mp hfull
  rw [ok_bind (readVersion hversion)]
  dsimp only
  by_cases hthread : versionEnd m n + 4 ≤ n
  swap
  · exact ⟨_, error_bind (readUint_view_short hend (by omega) hn)⟩
  rw [Vio.readUint32, ok_bind (readUint_view (by omega) hn)]
  dsimp only
  by_cases hsalt : versionEnd m n + 13 ≤ n
  swap
  · exact ⟨_, error_bind (readBinary_view_short hthread (by omega) hn)⟩
  rw [ok_bind (readBinary_view (by omega) hn)]
  dsimp only
  rw [vioBufferTell_view, unsigned_natCast (by omega), if_neg (by omega)]
  by_cases hlow : versionEnd m n + 15 ≤ n
  swap
  · exact ⟨_, error_bind (readUint_view_short hsalt (by omega) hn)⟩
  rw [Vio.readUint16, ok_bind (readUint_view (by omega) hn)]
  dsimp only
  rw [vioBufferTell_view, unsigned_add_sixteen (by omega), if_neg (by omega),
    ok_bind (readUint8_view (by omega) hn)]
  dsimp only
  rw [Vio.readUint16, ok_bind (readUint_view (by omega) hn)]
  dsimp only
  rw [Vio.readUint16, ok_bind (readUint_view (by omega) hn)]
  dsimp only
  rw [ok_bind (readUint8_view (by omega) hn)]
  dsimp only
  rw [ok_bind (readBinary_view (by omega) hn)]
  dsimp only
  by_cases hsecond : versionEnd m n + 44 ≤ n
  swap
  · exact ⟨_, error_bind (readBinary_view_short (by omega) (by omega) hn)⟩
  rw [ok_bind (readBinary_view (by omega) hn)]
  dsimp only
  have hplugin : 0 ∉ slice m (versionEnd m n + 44 : ℕ) (n - (versionEnd m n + 44)) :=
    fun hmem => hname ⟨by omega, hmem⟩
  rw [vioBufferTell_view, unsigned_natCast (by omega), if_pos (by omega)]
  exact ⟨_, error_bind (readStr_view_unended hplugin)⟩

/-! ## The answer to it -/

section

variable {c c' : Conn} {s : Stream} {u : Unset} {mysql : MySQL} {scramble : Scramble}
  {user passwd db : Option (List UInt8)} {auth : AuthPkt} {text : List UInt8} {plen : ℕ}
  {block : Mem} {pkt handshake : HandshakePkt} {status : Status}

theorem readHandshakePkt_of_read {nread : ℤ} {bytes : List UInt8} (block : Mem)
    (pkt : HandshakePkt) (hread : anetRead c (toInt32 n) = (nread, bytes, c')) :
    readHandshakePkt block pkt n c = if nread = -1 then .ok (.protoErr, pkt, c')
      else pkt.parse (vioInitWithBuffer (store block 0 bytes) n) n >>= fun pkt' =>
        .ok (.protoOk, pkt', c') := by
  -- unfolded as a function: applied to a length, it sets the kernel to compute its conversion
  conv_lhs =>
    fun
    fun
    fun
    fun
    delta readHandshakePkt
  rw [hread]

theorem readHandshakePkt_filled (block : Mem) (pkt : HandshakePkt) (hc : c.Carries s)
    (h : n ≤ s.bytes.length ∨ s.broken = false) (hn : n < 2 ^ 31) :
    readHandshakePkt block pkt n c =
      pkt.parse (.view (store block 0 (s.bytes.take n)) n 0) n >>= fun pkt' =>
        .ok (.protoOk, pkt', c.after n) := by
  have hfailed : (decide (s.bytes.length < n) && s.broken) = false := by
    rcases h with hle | hb
    · rw [decide_eq_false (Nat.not_lt_of_le hle), Bool.false_and]
    · rw [hb, Bool.and_false]
  have hread : anetRead c (toInt32 n) =
      (((s.bytes.take n).length : ℤ), s.bytes.take n, c.after n) := by
    rw [toInt32_of_range (by omega) (by omega), anetRead_natCast, hc.reception_eq, hfailed]
    rfl
  rw [readHandshakePkt_of_read block pkt hread, if_neg (by omega),
    vioInitWithBuffer_of_lt (by omega)]

theorem readHandshakePkt_failed (block : Mem) (pkt : HandshakePkt) (hc : c.Carries s)
    (hlt : s.bytes.length < n) (hb : s.broken = true) (hn : n < 2 ^ 31) :
    readHandshakePkt block pkt n c = .ok (.protoErr, pkt, c.after n) := by
  have hread : anetRead c (toInt32 n) = (-1, s.bytes.take n, c.after n) := by
    rw [toInt32_of_range (by omega) (by omega), anetRead_natCast, hc.reception_eq, hb,
      decide_eq_true hlt]
    rfl
  rw [readHandshakePkt_of_read block pkt hread, if_pos rfl]

/-- What `sendAuth` makes of the handshake. -/
def Acceptable (handshake : HandshakePkt) : Prop :=
  handshake.capacity &&& Capability.protocol41 ≠ 0 ∧ handshake.protover = 10

theorem sendAuth_refused (hread : readHandshakePkt (u.block 0) u.handshake
    (unsigned 64 (headerAfter u.header c).plen.toInt) (c.after 4) = .ok (status, handshake, c'))
    (h : ¬Acceptable handshake) :
    ∃ mysql', sendAuth scramble u mysql c user passwd db = .ok (none, mysql') := by
  obtain ⟨_, hheader⟩ := readPktHeader_after u.header c
  unfold sendAuth
  rw [ok_bind hheader]
  dsimp only
  rw [ok_bind hread]
  dsimp only
  by_cases hflag : handshake.capacity &&& Capability.protocol41 = 0
  · rw [if_pos hflag]
    exact ⟨_, rfl⟩
  · have hprotover : handshake.protover ≠ 10 := fun heq => h ⟨hflag, heq⟩
    rw [if_neg hflag, if_pos hprotover]
    exact ⟨_, rfl⟩

theorem writeAuthPkt_carries (hc : c.Carries s) (huser : auth.user = some text)
    (h : (auth.content text).length ≤ plen) (hlt : plen < 2 ^ 63) :
    ∃ status c', writeAuthPkt auth plen c = .ok (status, c') ∧ c'.Carries s := by
  obtain ⟨status, hwrite⟩ := writeAuthPkt_eq huser h hlt (c := c)
  exact ⟨status, _, hwrite, hc.anetWrite _ _⟩

theorem free_of_set {p : Pointer} (h : p ≠ .wild) : free p = .ok () := by
  cases p with
  | null => rfl
  | text bs => rfl
  | wild => exact absurd rfl h

theorem set_of_free {p : Pointer} (h : free p = .ok ()) : p ≠ .wild := by
  rintro rfl
  cases h

theorem sendAuth_accepted (hread : readHandshakePkt (u.block 0) u.handshake
    (unsigned 64 (headerAfter u.header c).plen.toInt) (c.after 4) = .ok (status, handshake, c'))
    (h : Acceptable handshake) (hsalt : handshake.saltlen ≤ 64)
    (hversion : handshake.mysqlver ≠ .wild) (hplugin : handshake.pluginname ≠ .wild)
    (hc : c'.Carries s) (huser : user = some text)
    (htext : text.length < 2 ^ 56) (hdb : ∀ bs ∈ db, bs.length < 2 ^ 56) :
    ∃ header mysql' c'', sendAuth scramble u mysql c user passwd db =
      .ok (some (header, handshake, c''), mysql') ∧ c''.Carries s := by
  obtain ⟨_, hheader⟩ := readPktHeader_after u.header c
  have hauth : (authPkt scramble handshake user passwd db).user = some text := huser
  have hsaltlen := authPkt_saltlen_le scramble handshake user passwd db
  have hdatabase := authPkt_database_le scramble handshake user passwd hdb
  have hlength := length_content (authPkt scramble handshake user passwd db) text hsaltlen
  have hplen := calcAuthPktLen_content hauth hsaltlen
  obtain ⟨_, c'', hwrite, hcarries⟩ := writeAuthPkt_carries
    (hc.writeHeader _ (((headerAfter u.header c).pnum + 1) % 256)) hauth
    (Nat.le_add_right _ 22) (by omega)
  have hfree : tryFreeHandshake handshake = .ok () := by
    unfold tryFreeHandshake
    rw [ok_bind (free_of_set hversion), free_of_set hplugin]
  unfold sendAuth
  rw [ok_bind hheader]
  dsimp only
  rw [ok_bind hread]
  dsimp only
  rw [if_neg h.1, if_neg (not_not.mpr h.2), if_neg (by omega), ok_bind hplen,
    ok_bind hwrite, ok_bind hfree]
  exact ⟨_, _, _, rfl, hcarries⟩

theorem of_sendAuth_accepted (hread : readHandshakePkt (u.block 0) u.handshake
    (unsigned 64 (headerAfter u.header c).plen.toInt) (c.after 4) = .ok (status, handshake, c'))
    (h : Acceptable handshake) {r : Option (PktHeader × HandshakePkt × Conn) × MySQL}
    (hr : sendAuth scramble u mysql c user passwd db = .ok r) :
    user.isSome = true ∧ handshake.pluginname ≠ .wild := by
  obtain ⟨_, hheader⟩ := readPktHeader_after u.header c
  unfold sendAuth at hr
  rw [ok_bind hheader] at hr
  dsimp only at hr
  rw [ok_bind hread] at hr
  dsimp only at hr
  rw [if_neg h.1, if_neg (not_not.mpr h.2)] at hr
  split_ifs at hr with hsalt
  obtain ⟨plen, hplen, hr⟩ := bind_ok_iff.mp hr
  obtain ⟨_, -, hr⟩ := bind_ok_iff.mp hr
  obtain ⟨_, hfree, -⟩ := bind_ok_iff.mp hr
  obtain ⟨_, -, hplugin⟩ := bind_ok_iff.mp hfree
  refine ⟨?_, set_of_free hplugin⟩
  cases user with
  | none => cases hplen
  | some text => rfl

end

end LibBinlog

import LibBinlog.MySQL

/-!
# What the packet writers send

A write that has room puts the bytes of its buffer on the line; a vio whose length has room for what
is written keeps its block, and the block then holds the strings one behind the other.
-/

namespace LibBinlog

open Machine Memory

variable {c : Conn} {buf m : Mem} {bs cs : List UInt8} {n len plen : ℕ} {io : Vio}

/-! ## Writes on the line -/

/-- The connection after these bytes have been written. -/
def Conn.sent (c : Conn) (bs : List UInt8) : Conn :=
  { c with room := c.room - bs.length, outgoing := c.outgoing ++ bs }

theorem Conn.sent_sent (c : Conn) (bs cs : List UInt8) :
    (c.sent bs).sent cs = c.sent (bs ++ cs) := by
  rw [sent, sent, sent, List.length_append, List.append_assoc, Nat.sub_sub]

theorem anetWrite_whole (h : bs.length ≤ c.room) (hbuf : Holds buf 0 bs) :
    anetWrite c buf bs.length = ((bs.length : ℤ), c.sent bs) := by
  have hmin : min bs.length c.room = bs.length := Nat.min_eq_left h
  rw [anetWrite, if_neg (by omega), Int.toNat_natCast, if_neg (by omega), hmin,
    hbuf.slice_eq rfl]
  rfl

theorem anetWrite_short (buf : Mem) (h : c.room < n) : ∃ c', anetWrite c buf n = (-1, c') := by
  rw [anetWrite, if_neg (by omega), Int.toNat_natCast, if_pos h]
  exact ⟨_, rfl⟩

/-- The four bytes of a packet's header. -/
def headerBytes (plen pnum : ℕ) : List UInt8 := leBytes 3 plen ++ [UInt8.ofNat pnum]

theorem length_headerBytes (plen pnum : ℕ) : (headerBytes plen pnum).length = 4 := by
  rw [headerBytes, List.length_append, length_leBytes, List.length_singleton]

theorem holds_headerBytes (plen pnum : ℕ) :
    Holds (store (ofBytes (leBytes 4 plen)) 3 [UInt8.ofNat pnum]) 0 (headerBytes plen pnum) := by
  have hfour := holds_ofBytes (leBytes 4 plen)
  rw [leBytes_succ'] at hfour
  have hthree := hfour.left.store_append [UInt8.ofNat pnum]
  rw [length_leBytes] at hthree
  rwa [leBytes_succ']

theorem writeHeader_whole (plen pnum : ℕ) (h : 4 ≤ c.room) :
    writeHeader plen pnum c = (.protoOk, c.sent (headerBytes plen pnum)) := by
  have hlen := length_headerBytes plen pnum
  have hwrite := anetWrite_whole (by omega) (holds_headerBytes plen pnum) (c := c)
  rw [hlen, Nat.cast_ofNat] at hwrite
  rw [writeHeader, hwrite]
  rfl

theorem writeHeader_short (plen pnum : ℕ) (h : c.room < 4) :
    ∃ c', writeHeader plen pnum c = (.protoErr, c') := by
  obtain ⟨c', hwrite⟩ := anetWrite_short (store (ofBytes (leBytes 4 plen)) 3 [UInt8.ofNat pnum]) h
  rw [Nat.cast_ofNat] at hwrite
  rw [writeHeader, hwrite]
  exact ⟨c', rfl⟩

/-! ## Writes to a buffer -/

/-- The vio after these bytes have been written to the beginning of its block. -/
def Vio.wrote (m : Mem) (len : ℕ) (bs : List UInt8) : Vio := .view (store m 0 bs) len bs.length

theorem vioInitWithBuffer_wrote (m : Mem) (hlen : len < 2 ^ 63) :
    vioInitWithBuffer m len = .wrote m len [] := by
  rw [vioInitWithBuffer_of_lt hlen, Vio.wrote, (holds_nil m 0).store_eq]
  rfl

theorem writeBinary_wrote (h : (bs ++ cs).length ≤ len) (hlen : len < 2 ^ 63) :
    writeBinary (.wrote m len bs) cs = .wrote m len (bs ++ cs) := by
  have happend := store_store_append m 0 bs cs
  rw [zero_add] at happend
  rw [List.length_append] at h
  rw [Vio.wrote, writeBinary_view h hlen, happend, Vio.wrote, List.length_append]

theorem writeBinary_wrote_if (p : Prop) [Decidable p]
    (h : (bs ++ if p then cs else []).length ≤ len)
    (hlen : len < 2 ^ 63) : (if p then writeBinary (.wrote m len bs) cs else .wrote m len bs) =
      .wrote m len (bs ++ if p then cs else []) := by
  split_ifs at h ⊢
  · exact writeBinary_wrote h hlen
  · rw [List.append_nil]

theorem len_wrote (m : Mem) (len : ℕ) (bs : List UInt8) : (Vio.wrote m len bs).len = len := rfl

theorem buf_wrote (m : Mem) (len : ℕ) (bs : List UInt8) :
    (Vio.wrote m len bs).buf = store m 0 bs := rfl

theorem holds_wrote (m : Mem) (len : ℕ) (bs : List UInt8) :
    Holds (Vio.wrote m len bs).buf 0 bs :=
  holds_store m 0 bs

/-! ## Commands -/

section

variable {cmd : UInt8} {args : List UInt8}

theorem wrote_command (cmd : UInt8) (args : List UInt8) (hlt : args.length + 1 < 2 ^ 63) :
    writeBinary (writeBinary (vioInitWithBuffer (fun _ => 0) (args.length + 1)) [cmd]) args =
      .wrote (fun _ => 0) (args.length + 1) (cmd :: args) := by
  rw [vioInitWithBuffer_wrote _ hlt, writeBinary_wrote (by simp) hlt,
    writeBinary_wrote (by simp) hlt]
  rfl

theorem signed_natCast (hlt : n < 2 ^ 63) : signed 64 (n : ℤ) = n := by
  rw [signed, Int.bmod_eq_of_le (by omega) (by omega)]

theorem writeCmdPkt_whole (cmd : UInt8) (h : args.length + 1 ≤ c.room)
    (hlt : args.length + 1 < 2 ^ 31) :
    writeCmdPkt cmd args (args.length + 1) c = .ok (.protoOk, c.sent (cmd :: args)) := by
  have hcount : toInt32 ((args.length + 1 : ℕ) : ℤ) = (args.length + 1 : ℕ) :=
    toInt32_of_range (by omega) (by omega)
  have hroom : (cmd :: args).length ≤ c.room := by rwa [List.length_cons]
  have hwrite := anetWrite_whole hroom
    (holds_wrote (fun _ => 0) (args.length + 1) (cmd :: args))
  rw [List.length_cons] at hwrite
  rw [writeCmdPkt, signed_natCast (by omega), hcount, wrote_command cmd args (by omega),
    if_pos (len_wrote _ _ _), hwrite]
  rfl

theorem writeCmdPkt_short (cmd : UInt8) (h : c.room < args.length + 1)
    (hlt : args.length + 1 < 2 ^ 31) :
    ∃ c', writeCmdPkt cmd args (args.length + 1) c = .ok (.protoErr, c') := by
  have hcount : toInt32 ((args.length + 1 : ℕ) : ℤ) = (args.length + 1 : ℕ) :=
    toInt32_of_range (by omega) (by omega)
  obtain ⟨c', hwrite⟩ :=
    anetWrite_short (Vio.wrote (fun _ => 0) (args.length + 1) (cmd :: args)).buf h
  refine ⟨c', ?_⟩
  rw [writeCmdPkt, signed_natCast (by omega), hcount, wrote_command cmd args (by omega),
    if_pos (len_wrote _ _ _), hwrite]
  rfl

end

/-! ## The authentication packet -/

/-- The fields one behind the other, the salt behind its length, the database's name if there is
one. -/
def AuthPkt.content (pkt : AuthPkt) (user : List UInt8) : List UInt8 :=
  leBytes 4 pkt.clientflags ++ leBytes 4 pkt.maxpkt ++ leBytes 1 pkt.charset ++
    List.replicate 23 0 ++ (user ++ [0]) ++ leBytes 1 pkt.saltlen ++
    (if pkt.saltlen ≠ 0 then pkt.salt.toList.take pkt.saltlen else []) ++
    (pkt.database.elim [] fun database => database ++ [0])

section

variable {auth : AuthPkt} {user : List UInt8}

theorem length_content (auth : AuthPkt) (user : List UInt8) (hsalt : auth.saltlen ≤ 20) :
    (auth.content user).length = 34 + user.length + auth.saltlen +
      (auth.database.elim 0 fun database => database.length + 1) := by
  have htake : (if auth.saltlen ≠ 0 then auth.salt.toList.take auth.saltlen else []).length =
      auth.saltlen := by
    split_ifs with hzero
    · rw [List.length_take, Vector.length_toList]
      omega
    · rw [List.length_nil]
      omega
  unfold AuthPkt.content
  simp only [List.length_append, length_leBytes, List.length_replicate, List.length_singleton,
    htake]
  cases auth.database with
  | none =>
    rw [Option.elim, Option.elim, List.length_nil]
    omega
  | some database =>
    rw [Option.elim, Option.elim, List.length_append, List.length_singleton]
    omega

theorem authPkt_saltlen_le (scramble : Scramble) (handshake : HandshakePkt)
    (user passwd db : Option (List UInt8)) :
    (authPkt scramble handshake user passwd db).saltlen ≤ 20 := by
  unfold authPkt
  dsimp only
  split_ifs <;> omega

theorem authPkt_database_le {db : Option (List UInt8)} {k : ℕ} (scramble : Scramble)
    (handshake : HandshakePkt) (user passwd : Option (List UInt8))
    (hdb : ∀ bs ∈ db, bs.length < k) :
    ((authPkt scramble handshake user passwd db).database.elim 0
      fun database => database.length + 1) ≤ k := by
  unfold authPkt
  dsimp only
  split_ifs with hwith
  · cases db with
    | none => exact Nat.zero_le _
    | some bs => exact hdb bs rfl
  · exact Nat.zero_le _

theorem writeAuthFields_wrote (h : (auth.content user).length ≤ len) (hlen : len < 2 ^ 63) :
    writeAuthFields auth user (.wrote m len []) = .wrote m len (auth.content user) := by
  unfold AuthPkt.content at h ⊢
  simp only [List.length_append] at h
  unfold writeAuthFields
  rw [writeBinary_wrote (by simp only [List.length_append, List.length_nil]; omega) hlen,
    List.nil_append]
  dsimp only
  rw [writeBinary_wrote (by simp only [List.length_append]; omega) hlen,
    writeBinary_wrote (by simp only [List.length_append]; omega) hlen,
    writeBinary_wrote (by simp only [List.length_append]; omega) hlen,
    writeBinary_wrote (by simp only [List.length_append]; omega) hlen,
    writeBinary_wrote (by simp only [List.length_append]; omega) hlen,
    writeBinary_wrote_if _ (by simp only [List.length_append]; omega) hlen]
  cases hdatabase : auth.database with
  | none => rw [Option.elim, List.append_nil]
  | some database =>
    rw [hdatabase, Option.elim, List.length_append] at h
    rw [Option.elim]
    exact writeBinary_wrote (by simp only [List.length_append]; exact h) hlen

/-- The length holds the content, which leaves it 22 bytes short: the name of the plugin is counted
but not written. -/
theorem calcAuthPktLen_content (huser : auth.user = some user) (hsalt : auth.saltlen ≤ 20) :
    calcAuthPktLen auth = .ok ((auth.content user).length + 22) := by
  have hname : (ascii "mysql_native_password").length = 21 := by decide
  rw [calcAuthPktLen, huser, length_content auth user hsalt]
  cases hdb : auth.database with
  | none =>
    dsimp only [Option.elim]
    congr 1
    split_ifs <;> omega
  | some db =>
    dsimp only [Option.elim]
    congr 1
    split_ifs <;> omega

theorem writeAuthPkt_eq (huser : auth.user = some user) (h : (auth.content user).length ≤ plen)
    (hlt : plen < 2 ^ 63) : ∃ status, writeAuthPkt auth plen c =
      .ok (status, (anetWrite c (store (fun _ => 0) 0 (auth.content user)) (toInt32 plen)).2) := by
  have hfields := writeAuthFields_wrote (m := fun _ => 0) h hlt
  rw [← vioInitWithBuffer_wrote _ hlt] at hfields
  unfold writeAuthPkt
  split
  · next hnone => cases hnone.symm.trans huser
  · next text htext =>
    cases htext.symm.trans huser
    rw [signed_natCast hlt, hfields]
    dsimp -iota only
    rw [if_pos (len_wrote _ _ _), buf_wrote]
    cases anetWrite c (store (fun _ => 0) 0 (auth.content user)) (toInt32 plen) with
    | mk nwrite c' => exact ⟨_, rfl⟩

end

end LibBinlog

import LibBinlog.PacketWrites
import LibBinlog.ReplyCheck

/-!
# The authentication packet

The packet that the client sends decodes to the fields it was filled with, but 22 zero bytes are
left over: its length counts the name of the plugin, which is not written.
-/

namespace LibBinlog

open Machine Memory

/-! ## Its layout -/

/-- What a server finds in the packet. -/
structure AuthFields where
  clientflags : ℕ
  maxpkt : ℕ
  charset : ℕ
  user : List UInt8
  salt : List UInt8
  database : Option (List UInt8)
  deriving DecidableEq

def splitBytes (n : ℕ) (bs : List UInt8) : Option (List UInt8 × List UInt8) :=
  if n ≤ bs.length then some (bs.take n, bs.drop n) else none

def splitText (bs : List UInt8) : Option (List UInt8 × List UInt8) :=
  if 0 ∈ bs then some (cstring bs, bs.drop ((cstring bs).length + 1)) else none

/-- The name of a database is there if the flags say so. -/
def splitDatabase (clientflags : ℕ) (bs : List UInt8) :
    Option (Option (List UInt8) × List UInt8) :=
  if clientflags &&& Capability.connectWithDb = 0 then some (none, bs)
  else do
    let (database, bs) ← splitText bs
    some (some database, bs)

/-- The fields and the bytes left over. -/
def decodeAuth (bs : List UInt8) : Option (AuthFields × List UInt8) := do
  let (flags, bs) ← splitBytes 4 bs
  let (maxpkt, bs) ← splitBytes 4 bs
  let (charset, bs) ← splitBytes 1 bs
  let (zeros, bs) ← splitBytes 23 bs
  let (user, bs) ← splitText bs
  let (saltlen, bs) ← splitBytes 1 bs
  let (salt, bs) ← splitBytes (leNat saltlen) bs
  let (database, bs) ← splitDatabase (leNat flags) bs
  if zeros = List.replicate 23 0 then
    some (⟨leNat flags, leNat maxpkt, leNat charset, user, salt, database⟩, bs)
  else none

def AuthPkt.fields (pkt : AuthPkt) (user : List UInt8) : AuthFields :=
  ⟨pkt.clientflags, pkt.maxpkt, pkt.charset, user, pkt.salt.toList.take pkt.saltlen, pkt.database⟩

variable {bs cs rest user : List UInt8} {auth : AuthPkt} {n : ℕ}

theorem splitBytes_append (hn : n = bs.length) : splitBytes n (bs ++ cs) = some (bs, cs) := by
  have hle : n ≤ (bs ++ cs).length := by
    rw [List.length_append]
    omega
  rw [splitBytes, if_pos hle, List.take_left' hn.symm, List.drop_left' hn.symm]

theorem splitText_append (h : 0 ∉ bs) : splitText (bs ++ ([0] ++ cs)) = some (bs, cs) := by
  have hmem : 0 ∈ bs ++ ([0] ++ cs) := by simp
  have htext : cstring (bs ++ ([0] ++ cs)) = bs := cstring_append_zero h cs
  have hlen : (bs ++ [0]).length = bs.length + 1 := by simp
  rw [splitText, if_pos hmem, htext, ← List.append_assoc, List.drop_left' hlen]

/-- A packet whose fields have their widths. -/
structure AuthPkt.Valid (auth : AuthPkt) (user : List UInt8) : Prop where
  clientflags_lt : auth.clientflags < 2 ^ 32
  maxpkt_lt : auth.maxpkt < 2 ^ 32
  charset_lt : auth.charset < 2 ^ 8
  saltlen_le : auth.saltlen ≤ 20
  user_notMem : 0 ∉ user
  database_notMem : ∀ database ∈ auth.database, 0 ∉ database
  database_flag : auth.clientflags &&& Capability.connectWithDb = 0 ↔ auth.database = none

theorem splitDatabase_content (h : auth.Valid user) (rest : List UInt8) :
    splitDatabase auth.clientflags
      ((auth.database.elim [] fun database => database ++ [0]) ++ rest) =
        some (auth.database, rest) := by
  unfold splitDatabase
  cases hdatabase : auth.database with
  | none =>
    rw [if_pos (h.database_flag.mpr hdatabase)]
    rfl
  | some database =>
    have hset : ¬auth.clientflags &&& Capability.connectWithDb = 0 := by
      rw [h.database_flag, hdatabase]
      exact nofun
    rw [if_neg hset, Option.elim, List.append_assoc,
      splitText_append (h.database_notMem database hdatabase)]
    rfl

theorem decodeAuth_content (h : auth.Valid user) (rest : List UInt8) :
    decodeAuth (auth.content user ++ rest) = some (auth.fields user, rest) := by
  have hflags : leNat (leBytes 4 auth.clientflags) = auth.clientflags :=
    leNat_leBytes_of_lt h.clientflags_lt
  have hmaxpkt : leNat (leBytes 4 auth.maxpkt) = auth.maxpkt := leNat_leBytes_of_lt h.maxpkt_lt
  have hcharset : leNat (leBytes 1 auth.charset) = auth.charset :=
    leNat_leBytes_of_lt h.charset_lt
  have hsaltlen : leNat (leBytes 1 auth.saltlen) = auth.saltlen :=
    leNat_leBytes_of_lt (lt_of_le_of_lt h.saltlen_le (by norm_num))
  have hsalt : (if auth.saltlen ≠ 0 then auth.salt.toList.take auth.saltlen else []) =
      auth.salt.toList.take auth.saltlen := by
    split_ifs with hzero
    · rfl
    · rw [not_not.mp hzero, List.take_zero]
  have hlength : auth.saltlen = (auth.salt.toList.take auth.saltlen).length := by
    have hle := h.saltlen_le
    rw [List.length_take, Vector.length_toList]
    omega
  unfold decodeAuth AuthPkt.content
  simp only [List.append_assoc, Option.bind_eq_bind]
  rw [hsalt, splitBytes_append (length_leBytes _ _).symm, Option.bind_some,
    splitBytes_append (length_leBytes _ _).symm, Option.bind_some,
    splitBytes_append (length_leBytes _ _).symm, Option.bind_some,
    splitBytes_append List.length_replicate.symm, Option.bind_some,
    splitText_append h.user_notMem, Option.bind_some,
    splitBytes_append (length_leBytes _ _).symm, Option.bind_some, hsaltlen,
    splitBytes_append hlength, Option.bind_some, hflags, splitDatabase_content h,
    Option.bind_some, if_pos rfl, hmaxpkt, hcharset, AuthPkt.fields]

/-! ## What is sent -/

/-- The packet's length is what the writer serialises, its buffer does not grow, and what goes over
the line decodes to the fields with nothing left over. -/
def AuthExact (auth : AuthPkt) (user : List UInt8) : Prop :=
  ∃ plen, calcAuthPktLen auth = .ok plen ∧
    (writeAuthFields auth user (vioInitWithBuffer (fun _ => 0) plen)).pos = plen ∧
    (writeAuthFields auth user (vioInitWithBuffer (fun _ => 0) plen)).len = plen ∧
    ∀ c : Conn, plen ≤ c.room → ∃ status payload,
      writeAuthPkt auth plen c = .ok (status, c.sent payload) ∧
      decodeAuth payload = some (auth.fields user, [])

theorem authPkt_valid {scramble : Scramble} {handshake : HandshakePkt} (user : CString)
    (passwd db : Option CString) (hcharset : handshake.charset < 2 ^ 8) :
    (authPkt scramble handshake (some user.bytes) (passwd.map CString.bytes)
      (db.map CString.bytes)).Valid user.bytes := by
  have hmaxpkt : maxPacketSize < 2 ^ 32 := by decide
  refine ⟨?_, hmaxpkt, hcharset, authPkt_saltlen_le _ _ _ _ _, user.zero_notMem, ?_, ?_⟩
  · unfold authPkt
    dsimp only
    split_ifs <;> decide
  · unfold authPkt
    dsimp only
    split_ifs with hwith
    · intro database hdatabase
      obtain ⟨name, -, rfl⟩ := Option.mem_map.mp hdatabase
      exact name.zero_notMem
    · exact nofun
  · unfold authPkt
    dsimp only
    split_ifs with hwith
    · refine iff_of_false (by decide) fun hnone => ?_
      rw [hnone] at hwith
      exact Bool.false_ne_true hwith.1
    · exact iff_of_true (by decide) rfl

theorem slice_store_zeros (bs : List UInt8) (k : ℕ) :
    slice (store (fun _ => 0) 0 bs) 0 (bs.length + k) = bs ++ List.replicate k 0 := by
  have hzeros : Holds (store (fun _ => 0) 0 bs) (0 + bs.length) (List.replicate k 0) := by
    apply List.ext_getElem
    · rw [length_slice]
    · intro i hi _
      rw [getElem_slice, List.getElem_replicate, store_of_ge _ (by omega)]
  have hall := holds_append.mpr ⟨holds_store (fun _ => 0) 0 bs, hzeros⟩
  exact hall.slice_eq (by rw [List.length_append, List.length_replicate])

/-- With room on the line, 22 zero bytes follow the content. -/
theorem writeAuthPkt_sent {c : Conn} (huser : auth.user = some user) (hsalt : auth.saltlen ≤ 20)
    (hlt : (auth.content user).length + 22 < 2 ^ 31)
    (hroom : (auth.content user).length + 22 ≤ c.room) :
    calcAuthPktLen auth = .ok ((auth.content user).length + 22) ∧
    ∃ status, writeAuthPkt auth ((auth.content user).length + 22) c =
      .ok (status, c.sent (auth.content user ++ List.replicate 22 0)) := by
  refine ⟨calcAuthPktLen_content huser hsalt, ?_⟩
  obtain ⟨status, hwrite⟩ := writeAuthPkt_eq huser (Nat.le_add_right _ 22) (by omega) (c := c)
  have hslice := slice_store_zeros (auth.content user) 22
  have hlength : (auth.content user ++ List.replicate 22 0).length =
      (auth.content user).length + 22 := by
    rw [List.length_append, List.length_replicate]
  rw [← hlength] at hslice hroom
  have hsent := anetWrite_whole hroom hslice
  rw [hlength] at hsent
  rw [toInt32_of_range (by omega) (by omega), hsent] at hwrite
  exact ⟨status, hwrite⟩

theorem not_authExact (huser : auth.user = some user) (hsalt : auth.saltlen ≤ 20)
    (hlt : (auth.content user).length + 22 < 2 ^ 63) : ¬AuthExact auth user := by
  rintro ⟨plen, hplen, hpos, -, -⟩
  rw [calcAuthPktLen_content huser hsalt] at hplen
  cases hplen
  rw [vioInitWithBuffer_wrote _ hlt, writeAuthFields_wrote (Nat.le_add_right _ 22) hlt] at hpos
  have hserialised : (((auth.content user).length : ℕ) : ℤ) =
      ((auth.content user).length + 22 : ℕ) := hpos
  omega

section

variable (scramble : Scramble) (handshake : HandshakePkt) (user : CString)
  (passwd db : Option CString)

/-- The packet that `mconnect` builds from C strings. -/
def authOf : AuthPkt :=
  authPkt scramble handshake (some user.bytes) (passwd.map CString.bytes) (db.map CString.bytes)

theorem length_content_authOf :
    ((authOf scramble handshake user passwd db).content user.bytes).length < 2 ^ 58 := by
  have hsalt : (authOf scramble handshake user passwd db).saltlen ≤ 20 :=
    authPkt_saltlen_le _ _ _ _ _
  have huser := user.fits
  have hdatabase : ((authOf scramble handshake user passwd db).database.elim 0
      fun database => database.length + 1) ≤ 2 ^ 56 := by
    apply authPkt_database_le
    intro bs hbs
    obtain ⟨name, -, rfl⟩ := Option.mem_map.mp hbs
    exact name.fits
  rw [length_content _ _ hsalt]
  omega

/-- What a server finds: the fields, and 22 zero bytes that belong to none of them. -/
theorem authOf_leftover {c : Conn} (hcharset : handshake.charset < 2 ^ 8)
    (hlt : ((authOf scramble handshake user passwd db).content user.bytes).length + 22 < 2 ^ 31)
    (hroom : ((authOf scramble handshake user passwd db).content user.bytes).length + 22 ≤ c.room) :
    ∃ plen status payload,
      calcAuthPktLen (authOf scramble handshake user passwd db) = .ok plen ∧
      writeAuthPkt (authOf scramble handshake user passwd db) plen c =
        .ok (status, c.sent payload) ∧
      decodeAuth payload = some ((authOf scramble handshake user passwd db).fields user.bytes,
        List.replicate 22 0) := by
  obtain ⟨hplen, status, hwrite⟩ :=
    writeAuthPkt_sent rfl (authPkt_saltlen_le _ _ _ _ _) hlt hroom
  exact ⟨_, status, _, hplen, hwrite, decodeAuth_content (authPkt_valid user passwd db hcharset) _⟩

/-- No packet that `mconnect` builds is as long as its content. -/
theorem authOf_not_exact :
    ¬AuthExact (authOf scramble handshake user passwd db) user.bytes := by
  have hlength := length_content_authOf scramble handshake user passwd db
  exact not_authExact rfl (authPkt_saltlen_le _ _ _ _ _) (by omega)

end

/-- User `root`, no password and no database: 60 bytes are sent for a content of 38. -/
theorem root_not_exact : ∃ handshake,
    ¬AuthExact (authPkt plainScramble handshake (some (ascii "root")) none none)
      (ascii "root") := by
  refine ⟨⟨10, .null, 1, 20, fun _ => 0, 512, 33, 2, .null⟩, ?_⟩
  exact not_authExact rfl (authPkt_saltlen_le _ _ _ _ _) (by decide)

end LibBinlog

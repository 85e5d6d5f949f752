import LibBinlog.NetDriver
import LibBinlog.ReplyCheck

/-!
# The command for a dump

Position, server id and file name go to an array of 256 bytes, which a name of more than 246 bytes
overruns. The names below that are sent in one packet, exactly as the server expects it.
-/

namespace LibBinlog

open Machine Memory

/-- A file name that fits in `logfile`. -/
structure LogName where
  bytes : List UInt8
  zero_notMem : 0 ∉ bytes
  fits : bytes.length < 256

/-- The packet: its length, the number 0, the command, and its argument. -/
def dumpPacket (position : ℕ) (serverid : ℤ) (name : List UInt8) : List UInt8 :=
  leBytes 3 (11 + name.length) ++ [0] ++ [18] ++ leBytes 4 position ++ [0, 0] ++
    leBytes 4 (toUInt32 serverid) ++ name

/-- What is left of connecting once the command is sent. -/
def awaitDump (ds : DataSource NetSource) (mysql : MySQL) (c : Conn) :
    Except Fault (Bool × DataSource NetSource) := do
  let u := ds.driver.unset 1
  let (_, reply, c) ← readReply u.header (u.marker 0) (u.block 0) u.reply c
  if reply.isok = false ∧ reply.iseof = false then do
    let text ← reply.err.message.printed
    tryFreeReply reply
    let mysql := { mysql with fd := some c, errstr := text.take 127 }
    let text ← printedErr mysql.errstr
    .ok (false, { ds with driver := { ds.driver with mysql := mysql }, errstr := snprintfErr text })
  else do
    tryFreeReply reply
    .ok (true, { ds with driver := { ds.driver with mysql := { mysql with fd := some c } } })

def connectedTo (ds : DataSource NetSource) : Except Fault (Bool × MySQL) :=
  mconnect ds.driver.scramble (ds.driver.unset 0) ds.driver.mysql ds.driver.peer ds.driver.user
    ds.driver.passwd none

/-- With a connection that has room, connecting goes on with exactly this packet sent. -/
def SendsDump (position : ℕ) (serverid : ℤ) (name : List UInt8) : Prop :=
  ∀ (ds : DataSource NetSource) (mysql : MySQL) (c : Conn), ds.position = position →
    ds.serverid = serverid → ds.logfile = name → connectedTo ds = .ok (true, mysql) →
    mysql.fd = some c → (dumpPacket position serverid name).length ≤ c.room →
    connectMySQL ds = awaitDump ds mysql (c.sent (dumpPacket position serverid name))

section

variable {scramble : Scramble} {u : Unset} {mysql mysql' : MySQL} {header : PktHeader}
  {handshake : HandshakePkt} {user passwd db : Option (List UInt8)} {c : Conn}

theorem finishAuth_pnum
    (h : finishAuth scramble u mysql header handshake passwd c = .ok (true, mysql')) :
    mysql'.pnum = 0 := by
  unfold finishAuth at h
  obtain ⟨_, -, h⟩ := bind_ok_iff.mp h
  obtain ⟨_, -, h⟩ := bind_ok_iff.mp h
  dsimp only at h
  split_ifs at h
  · obtain ⟨_, -, h⟩ := bind_ok_iff.mp h
    cases h
    rfl
  · obtain ⟨_, -, h⟩ := bind_ok_iff.mp h
    obtain ⟨_, -, h⟩ := bind_ok_iff.mp h
    cases h

/-- The packets of the authentication do not count for the command. -/
theorem mconnect_pnum {peer : Except (List UInt8) Conn}
    (h : mconnect scramble u mysql peer user passwd db = .ok (true, mysql')) :
    mysql'.pnum = 0 := by
  unfold mconnect at h
  cases peer with
  | error text => cases h
  | ok c =>
    obtain ⟨⟨greeted, mysql₁⟩, -, h⟩ := bind_ok_iff.mp h
    cases greeted with
    | none => cases h
    | some r => exact finishAuth_pnum h

end

theorem length_dumpPacket (position : ℕ) (serverid : ℤ) (name : List UInt8) :
    (dumpPacket position serverid name).length = 15 + name.length := by
  unfold dumpPacket
  simp only [List.length_append, length_leBytes, List.length_cons, List.length_nil]

theorem commandBytes_dump (position : ℕ) (serverid : ℤ) (name : List UInt8) :
    commandBytes 0 cmdBinlogDump
      (leBytes 4 position ++ leBytes 2 0 ++ leBytes 4 (toUInt32 serverid) ++ name) =
        dumpPacket position serverid name := by
  have hlength : (leBytes 4 position ++ leBytes 2 0 ++ leBytes 4 (toUInt32 serverid) ++ name).length
      + 1 = 11 + name.length := by
    simp only [List.length_append, length_leBytes]
    omega
  rw [commandBytes, hlength, headerBytes, dumpPacket]
  simp only [List.append_assoc, List.cons_append, List.nil_append]
  rfl

theorem sendsDump_of_le {position : ℕ} {serverid : ℤ} {name : List UInt8} (h : name.length ≤ 246) :
    SendsDump position serverid name := by
  intro ds mysql c hposition hserverid hname hconnect hfd hroom
  subst hposition hserverid hname
  have hargs : (leBytes 4 ds.position ++ leBytes 2 0 ++ leBytes 4 (toUInt32 ds.serverid) ++
      ds.logfile).length = 10 + ds.logfile.length := by
    simp only [List.length_append, length_leBytes]
  rw [length_dumpPacket] at hroom
  have hsent := msendcmd_sent (u := ds.driver.unset 1) cmdBinlogDump
    (leBytes 4 ds.position ++ leBytes 2 0 ++ leBytes 4 (toUInt32 ds.serverid) ++ ds.logfile) hfd
    (by omega) (by omega)
  have hbytes : commandBytes mysql.pnum cmdBinlogDump (leBytes 4 ds.position ++ leBytes 2 0 ++
      leBytes 4 (toUInt32 ds.serverid) ++ ds.logfile) =
        dumpPacket ds.position ds.serverid ds.logfile := by
    rw [mconnect_pnum hconnect, commandBytes_dump]
  rw [hbytes] at hsent
  unfold connectedTo at hconnect
  unfold connectMySQL
  dsimp only
  rw [ok_bind hconnect]
  dsimp only
  rw [if_neg (by decide), if_neg (by omega), hsent, awaitDump]
  cases readReply (ds.driver.unset 1).header ((ds.driver.unset 1).marker 0)
    ((ds.driver.unset 1).block 0) (ds.driver.unset 1).reply
    (c.sent (dumpPacket ds.position ds.serverid ds.logfile)) with
  | error fault => rfl
  | ok r =>
    obtain ⟨header, reply, c'⟩ := r
    rw [ok_bind rfl, ok_bind rfl]
    dsimp only
    by_cases hreply : reply.isok = false ∧ reply.iseof = false
    · rw [if_pos hreply, if_pos hreply]
      cases reply.err.message.printed with
      | error fault => rfl
      | ok text =>
        rw [ok_bind rfl, ok_bind rfl]
        cases tryFreeReply reply with
        | error fault => rfl
        | ok freed => rfl
    · rw [if_neg hreply, if_neg hreply]
      cases tryFreeReply reply with
      | error fault => rfl
      | ok freed => rfl

/-- A longer name goes past the end of the array once the client is connected. -/
theorem connectMySQL_overruns {ds : DataSource NetSource} {mysql : MySQL}
    (hconnect : connectedTo ds = .ok (true, mysql)) (h : 246 < ds.logfile.length) :
    connectMySQL ds = .error .memory := by
  have hargs : 256 < (leBytes 4 ds.position ++ leBytes 2 0 ++ leBytes 4 (toUInt32 ds.serverid) ++
      ds.logfile).length := by
    simp only [List.length_append, length_leBytes]
    omega
  unfold connectedTo at hconnect
  unfold connectMySQL
  dsimp only
  rw [ok_bind hconnect]
  dsimp only
  rw [if_neg (by decide), if_pos hargs]

/-! ## A server that is lost after the connection -/

/-- The greeting and the reply to the authentication, with the connection lost behind them. -/
def greetingAndOk : Stream := ⟨greetingOnly.bytes ++ [7, 0, 0, 2, 0, 0, 0, 2, 0, 0, 0], true⟩

/-- A data source whose server answers so. -/
def lostSource (position : ℕ) (serverid : ℤ) (name : List UInt8) : DataSource NetSource :=
  let ds := sourceOn (greetingAndOk.on openLine)
  { ds with
    position := position
    serverid := serverid
    logfile := name
    driver := { ds.driver with mysql := freshClient, user := some [] } }

def lostConnection : Except Fault (Bool × MySQL) :=
  mconnect plainScramble .zero freshClient (.ok (greetingAndOk.on openLine)) (some []) none none

/-- Connected, with everything read and room for 300 bytes more. -/
def lost (result : Except Fault (Bool × MySQL)) : Bool :=
  match result with
  | .ok (connected, mysql) =>
    match mysql.fd with
    | none => false
    | some c => connected && c.incoming.isEmpty && c.broken && (300 ≤ c.room)
  | .error _ => false

theorem exists_of_lost {result : Except Fault (Bool × MySQL)} (h : lost result = true) :
    ∃ mysql c, result = .ok (true, mysql) ∧ mysql.fd = some c ∧ c.Carries ⟨[], true⟩ ∧
      300 ≤ c.room := by
  rcases result with fault | ⟨connected, mysql⟩
  · cases h
  unfold lost at h
  dsimp only at h
  cases hfd : mysql.fd with
  | none =>
    rw [hfd] at h
    cases h
  | some c =>
    rw [hfd] at h
    simp only [Bool.and_eq_true, List.isEmpty_iff, decide_eq_true_iff] at h
    obtain ⟨⟨⟨rfl, hincoming⟩, hbroken⟩, hroom⟩ := h
    exact ⟨mysql, c, rfl, hfd, ⟨hincoming, hbroken⟩, hroom⟩

theorem lostConnection_lost : lost lostConnection = true := by decide +kernel

theorem awaitDump_lost (position : ℕ) (serverid : ℤ) (name : List UInt8) (mysql : MySQL) {c : Conn}
    (hc : c.Carries ⟨[], true⟩) :
    ∃ r, awaitDump (lostSource position serverid name) mysql c = .ok r := by
  have hread := readReply_unmarked Unset.zero.header (Unset.zero.marker 0) (Unset.zero.block 0)
    Unset.zero.reply hc rfl
  rw [if_pos rfl] at hread
  unfold awaitDump
  have hunset : (lostSource position serverid name).driver.unset 1 = .zero := rfl
  rw [hunset]
  dsimp only
  rw [hread, ok_bind rfl, ok_bind rfl]
  exact ⟨_, rfl⟩

theorem not_sendsDump {position : ℕ} {serverid : ℤ} {name : LogName} (h : 246 < name.bytes.length) :
    ¬SendsDump position serverid name.bytes := by
  intro hsends
  obtain ⟨mysql, c, hlost, hfd, hc, hroom⟩ := exists_of_lost lostConnection_lost
  have hconnect : connectedTo (lostSource position serverid name.bytes) = .ok (true, mysql) := hlost
  have hfits := name.fits
  have hdump := hsends (lostSource position serverid name.bytes) mysql c rfl rfl rfl hconnect hfd
    (by rw [length_dumpPacket]; omega)
  obtain ⟨r, hawait⟩ := awaitDump_lost position serverid name.bytes mysql
    (hc.sent (dumpPacket position serverid name.bytes))
  rw [connectMySQL_overruns hconnect h, hawait] at hdump
  cases hdump

/-! ## Which names fit -/

theorem sendsDump_iff (position : ℕ) (serverid : ℤ) (name : LogName) :
    SendsDump position serverid name.bytes ↔ name.bytes.length ≤ 246 :=
  ⟨fun h => Nat.le_of_not_lt fun hlt => not_sendsDump hlt h, sendsDump_of_le⟩

def longName : LogName where
  bytes := List.replicate 247 97
  zero_notMem h := absurd (List.eq_of_mem_replicate h) (by decide)
  fits := by
    rw [List.length_replicate]
    omega

/-- A name of 247 letters is one that `parseMySQLUrl` takes over. -/
theorem longName_overruns : ¬SendsDump 4 1 longName.bytes := by
  apply not_sendsDump
  rw [longName, List.length_replicate]
  omega

end LibBinlog

import LibBinlog.Greeting

/-!
# The fields of the handshake

A greeting that has all its fields sets all of the packet, and a server's greeting is read back
field by field; from its salt the scramble passes the server's check. A greeting without them leaves
fields as they were, or is no greeting.
-/

namespace LibBinlog

open Machine Memory

variable {m : Mem} {n : ℕ}

/-! ## Payloads that set the packet -/

/-- A payload behind a header. -/
structure Payload where
  bytes : List UInt8
  fits : bytes.length < 2 ^ 24

/-- Where the version text of a payload ends. -/
def textEnd (bytes : List UInt8) : ℕ := 1 + ((cstring (bytes.drop 1)).length + 1)

/-- A version text, 44 bytes of fields, and nothing or the name of a plugin. -/
def WholeGreeting (bytes : List UInt8) : Prop :=
  0 ∈ bytes.drop 1 ∧ (bytes.length = textEnd bytes + 44 ∨
    (textEnd bytes + 44 < bytes.length ∧ 0 ∈ bytes.drop (textEnd bytes + 44)))

instance (bytes : List UInt8) : Decidable (WholeGreeting bytes) :=
  inferInstanceAs (Decidable (_ ∧ _))

section

variable {bytes : List UInt8} {block : Mem} {pkt : HandshakePkt} {c : Conn}
  {later : List (Option UInt8)}

theorem slice_from (h : Holds m 0 bytes) {k : ℕ} (hk : k ≤ bytes.length) :
    slice m k (bytes.length - k) = bytes.drop k := by
  rw [h.slice_drop (by omega), List.take_of_length_le (by rw [List.length_drop])]

theorem versionEnd_eq (h : Holds m 0 bytes) (hone : 1 ≤ bytes.length) :
    versionEnd m bytes.length = textEnd bytes := by
  rw [versionEnd, textEnd, slice_from h hone]

theorem wholeGreeting_iff (h : Holds m 0 bytes) : WholeGreeting bytes ↔
    0 ∈ slice m (1 : ℕ) (bytes.length - 1) ∧ FullGreeting m bytes.length := by
  by_cases hone : 1 ≤ bytes.length
  · rw [WholeGreeting, FullGreeting, versionEnd_eq h hone, slice_from h hone]
    refine and_congr_right fun _ => or_congr_right (and_congr_right fun hlt => ?_)
    rw [slice_from h hlt.le]
  · have hnil : bytes = [] := List.length_eq_zero_iff.mp (by omega)
    subst hnil
    exact iff_of_false (fun hw => List.not_mem_nil hw.1) fun hw => List.not_mem_nil hw.1

/-- All bytes that the header declares arrive. -/
theorem readHandshakePkt_arrived (block : Mem) (pkt : HandshakePkt) (hlen : bytes.length < 2 ^ 31)
    (hc : c.incoming = bytes.map some ++ later) :
    readHandshakePkt block pkt bytes.length c =
      pkt.parse (.view (store block 0 bytes) bytes.length 0) bytes.length >>= fun pkt' =>
        .ok (.protoOk, pkt', { c with incoming := later }) := by
  have hread : anetRead c (toInt32 bytes.length) =
      ((bytes.length : ℤ), bytes, { c with incoming := later }) := by
    rw [toInt32_of_range (by omega) (by omega), anetRead_natCast, Conn.after,
      c.reception_whole hc rfl]
    rfl
  rw [readHandshakePkt_of_read block pkt hread, if_neg (by omega),
    vioInitWithBuffer_of_lt (by omega)]

/-- The fields that are looked at later hold the same. -/
structure SameFields (pkt pkt' : HandshakePkt) : Prop where
  protover_eq : pkt.protover = pkt'.protover
  mysqlver_eq : pkt.mysqlver = pkt'.mysqlver
  saltlen_eq : pkt.saltlen = pkt'.saltlen
  salt_eq : slice pkt.salt 0 pkt.saltlen = slice pkt'.salt 0 pkt'.saltlen
  capacity_eq : pkt.capacity = pkt'.capacity
  charset_eq : pkt.charset = pkt'.charset
  status_eq : pkt.status = pkt'.status
  pluginname_eq : pkt.pluginname = pkt'.pluginname

/-- The reader faults for no block and no packet, and if it reports success, what the fields hold is
up to the payload alone. -/
def ReadSafely (len : ℕ) (c : Conn) : Prop :=
  ∀ block pkt, ∃ status pkt' c', readHandshakePkt block pkt len c = .ok (status, pkt', c') ∧
    (status = .protoErr ∨ ∀ block₁ pkt₁ status₁ pkt₁' c₁,
      readHandshakePkt block₁ pkt₁ len c = .ok (status₁, pkt₁', c₁) → SameFields pkt' pkt₁')

/-- The salt of a whole greeting is taken from the payload alone. -/
theorem holds_salt (pkt : HandshakePkt) (m : Mem) (n : ℕ) : Holds (pkt.whole m n).salt 0
    ((slice m (versionEnd m n + 4 : ℕ) 9).take 8 ++ slice m (versionEnd m n + 31 : ℕ) 13) := by
  have hlen : ((slice m (versionEnd m n + 4 : ℕ) 9).take 8).length = 8 := by
    rw [List.length_take, length_slice]
    rfl
  have hstored := holds_store_store pkt.salt 0 ((slice m (versionEnd m n + 4 : ℕ) 9).take 8)
    (slice m (versionEnd m n + 31 : ℕ) 13)
  rw [hlen] at hstored
  exact hstored

theorem salt_whole (pkt : HandshakePkt) (m : Mem) (n : ℕ) : slice (pkt.whole m n).salt 0 20 =
    ((slice m (versionEnd m n + 4 : ℕ) 9).take 8 ++
      slice m (versionEnd m n + 31 : ℕ) 13).take 20 := by
  have h := (holds_salt pkt m n).slice_drop (k := 0) (j := 20) (by
    rw [List.length_append, List.length_take, length_slice, length_slice]
    norm_num)
  rwa [List.drop_zero] at h

theorem sameFields_whole {m' : Mem} (h : Holds m 0 bytes) (h' : Holds m' 0 bytes)
    (hlen : versionEnd m bytes.length + 44 ≤ bytes.length) (pkt pkt' : HandshakePkt) :
    SameFields (pkt.whole m bytes.length) (pkt'.whole m' bytes.length) := by
  have hone : 1 ≤ bytes.length := by omega
  have hslice : ∀ k j, k + j ≤ bytes.length → slice m (k : ℕ) j = slice m' (k : ℕ) j :=
    fun k j hkj => (h.slice_drop hkj).trans (h'.slice_drop hkj).symm
  have hbyte : ∀ k : ℕ, k < bytes.length → m k = m' k := by
    intro k hk
    have hone := hslice k 1 hk
    rw [slice_succ, slice_succ] at hone
    exact (List.cons.inj hone).1
  have hend : versionEnd m' bytes.length = versionEnd m bytes.length :=
    (versionEnd_eq h' hone).trans (versionEnd_eq h hone).symm
  constructor
  · exact congrArg UInt8.toNat (hbyte 0 (by omega))
  · unfold HandshakePkt.whole
    dsimp only
    rw [hslice 1 _ (by omega)]
  · rfl
  · have hsaltlen : (pkt.whole m bytes.length).saltlen = 20 := rfl
    have hsaltlen' : (pkt'.whole m' bytes.length).saltlen = 20 := rfl
    rw [hsaltlen, hsaltlen', salt_whole, salt_whole, hend, hslice _ 9 (by omega),
      hslice _ 13 (by omega)]
  · unfold HandshakePkt.whole
    dsimp only
    rw [hend, hslice (versionEnd m bytes.length + 13) 2 (by omega),
      hslice (versionEnd m bytes.length + 18) 2 (by omega)]
  · unfold HandshakePkt.whole
    dsimp only
    rw [hend, hbyte _ (by omega)]
  · unfold HandshakePkt.whole
    dsimp only
    rw [hend, hslice _ 2 (by omega)]
  · unfold HandshakePkt.whole
    dsimp only
    rw [hend, hslice _ _ (by omega)]

theorem readSafely_of_whole (hlen : bytes.length < 2 ^ 31)
    (hc : c.incoming = bytes.map some ++ later) (h : WholeGreeting bytes) :
    ReadSafely bytes.length c := by
  have hread : ∀ block pkt, readHandshakePkt block pkt bytes.length c =
      .ok (.protoOk, pkt.whole (store block 0 bytes) bytes.length,
        { c with incoming := later }) := by
    intro block pkt
    obtain ⟨hversion, hfull⟩ := (wholeGreeting_iff (holds_store block 0 bytes)).mp h
    rw [readHandshakePkt_arrived block pkt hlen hc,
      ok_bind (pkt.parse_whole hversion hfull (by omega))]
  intro block pkt
  refine ⟨_, _, _, hread block pkt, .inr ?_⟩
  intro block₁ pkt₁ status₁ pkt₁' c₁ hread₁
  rw [hread block₁ pkt₁] at hread₁
  cases hread₁
  obtain ⟨-, hfull⟩ := (wholeGreeting_iff (holds_store block 0 bytes)).mp h
  exact sameFields_whole (holds_store _ _ _) (holds_store _ _ _) hfull.le pkt pkt₁

/-- A packet whose plugin's name is not set yet. -/
def unsetHandshake : HandshakePkt := ⟨0, .null, 0, 0, fun _ => 0, 0, 0, 0, .wild⟩

theorem whole_of_readSafely (hlen : bytes.length < 2 ^ 31)
    (hc : c.incoming = bytes.map some ++ later) (h : ReadSafely bytes.length c) :
    WholeGreeting bytes := by
  have hholds := holds_store (fun _ => 0) 0 bytes
  have hread := fun pkt => readHandshakePkt_arrived (fun _ => 0) pkt hlen hc
  obtain ⟨status, pkt', c', hresult, hsame⟩ := h (fun _ => 0) unsetHandshake
  by_cases hshape : GreetingShape (store (fun _ => 0) 0 bytes) bytes.length
  swap
  · obtain ⟨fault, hparse⟩ := unsetHandshake.parse_of_not_shape hshape (by omega)
    rw [hread, error_bind hparse] at hresult
    cases hresult
  obtain ⟨parsed, hparse, hparsed⟩ := unsetHandshake.parse_of_shape hshape (by omega)
  rw [hread, ok_bind hparse] at hresult
  cases hresult
  obtain ⟨named, hparse₁, hparsed₁⟩ :=
    { unsetHandshake with pluginname := .null }.parse_of_shape hshape (by omega)
  have hresult₁ := hread { unsetHandshake with pluginname := .null }
  rw [ok_bind hparse₁] at hresult₁
  have hfields := hsame.resolve_left nofun _ _ _ _ _ hresult₁
  refine (wholeGreeting_iff hholds).mpr ⟨hshape.1, ?_⟩
  by_cases hshort : bytes.length < versionEnd (store (fun _ => 0) 0 bytes) bytes.length + 44
  · have hwild := hparsed.pluginname_eq hshort
    have hnull := hparsed₁.pluginname_eq hshort
    rw [hfields.pluginname_eq, hnull] at hwild
    cases hwild
  · exact hshape.full (Nat.le_of_not_lt hshort)

end

/-- The reader stays inside the payload, meets its assertions and sets all fields exactly for the
payloads with all fields. -/
theorem readHandshakePkt_safe_iff (payload : Payload) (c : Conn) (later : List (Option UInt8)) :
    ReadSafely payload.bytes.length { c with incoming := payload.bytes.map some ++ later } ↔
      WholeGreeting payload.bytes := by
  have hlen : payload.bytes.length < 2 ^ 31 := payload.fits.trans (by norm_num)
  exact ⟨whole_of_readSafely hlen rfl, readSafely_of_whole hlen rfl⟩

/-- A greeting that ends behind the first part of the salt, and one that is cut in its text. -/
theorem readHandshakePkt_unsafe : ∃ c : Conn,
    ¬ReadSafely 15 { c with
        incoming := ([10, 0] ++ List.replicate 13 0 : List UInt8).map some ++ [] } ∧
      ¬ReadSafely 3 { c with incoming := ([10, 53, 46] : List UInt8).map some ++ [] } := by
  refine ⟨.closed, fun h => ?_, fun h => ?_⟩
  · exact (by decide : ¬WholeGreeting ([10, 0] ++ List.replicate 13 0))
      (whole_of_readSafely (by decide) rfl h)
  · exact (by decide : ¬WholeGreeting [10, 53, 46]) (whole_of_readSafely (by decide) rfl h)

/-! ## A server's greeting -/

/-- Texts without their zeros; a packet has less than `2 ^ 24` bytes. -/
structure ServerGreeting where
  version : List UInt8
  version_notMem : 0 ∉ version
  threadid : UInt32
  scramble : Vector UInt8 20
  capability : UInt32
  charset : UInt8
  status : UInt16
  saltlen : UInt8
  filler : Vector UInt8 10
  pluginname : Option (List UInt8)
  pluginname_notMem : ∀ name ∈ pluginname, 0 ∉ name
  fits : version.length + 46 + (pluginname.elim 0 fun name => name.length + 1) < 2 ^ 24

namespace ServerGreeting

variable (g : ServerGreeting)

/-- From the flags on. -/
def flags : List UInt8 :=
  leBytes 2 (g.capability.toNat % 2 ^ 16) ++ ([g.charset] ++ (leBytes 2 g.status.toNat ++
    (leBytes 2 (g.capability.toNat / 2 ^ 16) ++ ([g.saltlen] ++ (g.filler.toList ++
      ((g.scramble.toList.drop 8 ++ [0]) ++ g.pluginname.elim [] fun name => name ++ [0]))))))

def payload : List UInt8 :=
  [10] ++ ((g.version ++ [0]) ++ (leBytes 4 g.threadid.toNat ++
    ((g.scramble.toList.take 8 ++ [0]) ++ g.flags)))

theorem length_payload : g.payload.length =
    g.version.length + 46 + (g.pluginname.elim 0 fun name => name.length + 1) := by
  unfold payload flags
  simp only [List.length_append, List.length_singleton, length_leBytes, Vector.length_toList,
    List.length_take, List.length_drop]
  cases g.pluginname with
  | none =>
    rw [Option.elim, Option.elim, List.length_nil]
    omega
  | some name =>
    rw [Option.elim, Option.elim, List.length_append, List.length_singleton]
    omega

variable {g}

theorem textEnd_eq : textEnd g.payload = g.version.length + 2 := by
  have hdrop : g.payload.drop 1 = g.version ++ 0 :: (leBytes 4 g.threadid.toNat ++
      ((g.scramble.toList.take 8 ++ [0]) ++ g.flags)) := by
    rw [payload, List.singleton_append, List.drop_one, List.tail_cons, List.append_assoc]
    rfl
  rw [textEnd, hdrop, cstring_append_zero g.version_notMem]
  omega

/-- The places of the fields behind the version text. -/
structure Placed (g : ServerGreeting) (m : Mem) (v : ℕ) : Prop where
  protover : m 0 = 10
  version : Holds m (1 : ℕ) (g.version ++ [0])
  threadid : Holds m v (leBytes 4 g.threadid.toNat)
  scramble : Holds m (v + 4 : ℕ) (g.scramble.toList.take 8 ++ [0])
  lower : Holds m (v + 13 : ℕ) (leBytes 2 (g.capability.toNat % 2 ^ 16))
  charset : m (v + 15 : ℕ) = g.charset
  status : Holds m (v + 16 : ℕ) (leBytes 2 g.status.toNat)
  upper : Holds m (v + 18 : ℕ) (leBytes 2 (g.capability.toNat / 2 ^ 16))
  scrambled : Holds m (v + 31 : ℕ) (g.scramble.toList.drop 8 ++ [0])
  pluginname : Holds m (v + 44 : ℕ) (g.pluginname.elim [] fun name => name ++ [0])

theorem placed (h : Holds m 0 g.payload) : g.Placed m (g.version.length + 2) := by
  have h₀ : Holds m (0 : ℕ) g.payload := h
  rw [payload] at h₀
  have hversion := h₀.next (k := 1) rfl
  have hthreadid := hversion.next (k := g.version.length + 2) (by simp; omega)
  have hscramble := hthreadid.next (k := g.version.length + 2 + 4) (by simp)
  have hlower := hscramble.next (k := g.version.length + 2 + 13) (by simp)
  have hcharset := hlower.next (k := g.version.length + 2 + 15) (by simp)
  have hstatus := hcharset.next (k := g.version.length + 2 + 16) (by simp)
  have hupper := hstatus.next (k := g.version.length + 2 + 18) (by simp)
  have hsaltlen := hupper.next (k := g.version.length + 2 + 20) (by simp)
  have hfiller := hsaltlen.next (k := g.version.length + 2 + 21) (by simp)
  have hscrambled := hfiller.next (k := g.version.length + 2 + 31) (by simp)
  have hplugin := hscrambled.next (k := g.version.length + 2 + 44) (by simp)
  exact ⟨(holds_cons.mp h₀.left).1, hversion.left, hthreadid.left, hscramble.left, hlower.left,
    (holds_cons.mp hcharset.left).1, hstatus.left, hupper.left, hscrambled.left, hplugin⟩

theorem capability_eq (n : ℕ) (hn : n < 2 ^ 32) :
    n % 2 ^ 16 ||| toUInt32 (((n / 2 ^ 16) <<< 16 : ℕ) : ℤ) = n := by
  have hhigh : (n / 2 ^ 16) <<< 16 = n / 2 ^ 16 * 2 ^ 16 := Nat.shiftLeft_eq _ _
  have hlow : n % 2 ^ 16 < 2 ^ 16 := Nat.mod_lt _ (by norm_num)
  rw [toUInt32_natCast (by omega), Nat.or_comm, ← Nat.shiftLeft_add_eq_or_of_lt hlow, hhigh]
  exact Nat.div_add_mod' n (2 ^ 16)

theorem versionEnd_payload (h : Holds m 0 g.payload) :
    versionEnd m g.payload.length = g.version.length + 2 := by
  have hlength := g.length_payload
  rw [versionEnd_eq h (by omega), textEnd_eq]

theorem pluginname_slice (h : Holds m 0 g.payload) {name : List UInt8}
    (hname : g.pluginname = some name) : slice m (g.version.length + 2 + 44 : ℕ)
      (g.payload.length - (g.version.length + 2 + 44)) = name ++ [0] := by
  have hlength := g.length_payload
  have hplugin := (placed h).pluginname
  rw [hname] at hlength hplugin
  apply hplugin.slice_eq
  rw [Option.elim] at hlength ⊢
  rw [List.length_append, List.length_singleton]
  omega

theorem full_payload (h : Holds m 0 g.payload) :
    0 ∈ slice m (1 : ℕ) (g.payload.length - 1) ∧ FullGreeting m g.payload.length := by
  have hlength := g.length_payload
  constructor
  · rw [slice_from h (by omega), payload, List.singleton_append, List.drop_one, List.tail_cons]
    simp
  · rw [FullGreeting, versionEnd_payload h]
    cases hname : g.pluginname with
    | none =>
      left
      rw [hlength, hname, Option.elim]
    | some name =>
      right
      rw [pluginname_slice h hname]
      rw [hlength, hname, Option.elim]
      exact ⟨by omega, by simp⟩

/-- The packet holds what the server has sent. -/
structure Recovered (g : ServerGreeting) (pkt : HandshakePkt) : Prop where
  protover_eq : pkt.protover = 10
  mysqlver_eq : pkt.mysqlver = .text g.version
  threadid_eq : pkt.threadid = g.threadid.toNat
  saltlen_eq : pkt.saltlen = 20
  salt_eq : slice pkt.salt 0 pkt.saltlen = g.scramble.toList
  capacity_eq : pkt.capacity = g.capability.toNat
  charset_eq : pkt.charset = g.charset.toNat
  status_eq : pkt.status = g.status.toNat
  pluginname_eq : pkt.pluginname = g.pluginname.elim .null .text

theorem recovered (h : Holds m 0 g.payload) (pkt : HandshakePkt) :
    g.Recovered (pkt.whole m g.payload.length) := by
  have hlength := g.length_payload
  have hplaced := placed h
  have hend := versionEnd_payload h
  constructor
  · exact congrArg UInt8.toNat hplaced.protover
  · unfold HandshakePkt.whole
    dsimp only
    rw [slice_from h (by omega), payload, List.singleton_append, List.drop_one, List.tail_cons,
      List.append_assoc, List.singleton_append, cstring_append_zero g.version_notMem]
  · unfold HandshakePkt.whole
    dsimp only
    rw [hend, hplaced.threadid.leNat_slice g.threadid.toNat_lt]
  · rfl
  · have hfirst := hplaced.scramble.slice_eq (n := 9) (by simp)
    have hsecond := hplaced.scrambled.slice_eq (n := 13) (by simp)
    have hsaltlen : (pkt.whole m g.payload.length).saltlen = 20 := rfl
    have height : (g.scramble.toList.take 8).length = 8 := by simp
    have htwenty : g.scramble.toList.length = 20 := Vector.length_toList
    rw [hsaltlen, salt_whole, hend, hfirst, hsecond, List.take_left' height, ← List.append_assoc,
      List.take_append_drop, List.take_left' htwenty]
  · have hlower := hplaced.lower.leNat_slice (by omega)
    have hupper := hplaced.upper.leNat_slice (by
      have hlt := g.capability.toNat_lt
      omega)
    unfold HandshakePkt.whole
    dsimp only
    rw [hend, hlower, hupper, capability_eq _ g.capability.toNat_lt]
  · unfold HandshakePkt.whole
    dsimp only
    rw [hend, hplaced.charset]
  · unfold HandshakePkt.whole
    dsimp only
    rw [hend, hplaced.status.leNat_slice g.status.toNat_lt]
  · unfold HandshakePkt.whole
    dsimp only
    rw [hend]
    cases hname : g.pluginname with
    | none =>
      rw [hname, Option.elim] at hlength
      rw [if_pos (by omega)]
      rfl
    | some name =>
      have hslice := pluginname_slice h hname
      rw [hname, Option.elim] at hlength
      rw [if_neg (by omega), hslice, cstring_append_zero (g.pluginname_notMem name hname)]
      rfl

end ServerGreeting

/-! ## The server's check of the scramble -/

theorem zipWith_xor_xor {k : ℕ} (v w : Vector UInt8 k) :
    Vector.zipWith (· ^^^ ·) (Vector.zipWith (· ^^^ ·) v w) w = v := by
  ext i hi
  rw [Vector.getElem_zipWith, Vector.getElem_zipWith, UInt8.xor_assoc, UInt8.xor_self,
    UInt8.xor_zero]

/-- The server knows `stored`, the twofold digest of the password, and takes the scramble for an
answer if the digest of what it conceals is `stored` again. -/
def Passes (sha1 : List UInt8 → Vector UInt8 20) (salt : List UInt8)
    (stored answer : Vector UInt8 20) : Prop :=
  sha1 (Vector.zipWith (· ^^^ ·) answer (sha1 (salt ++ stored.toList))).toList = stored

theorem cooksalt_passes (sha1 : List UInt8 → Vector UInt8 20) (salt passwd : List UInt8) :
    Passes sha1 salt (sha1 (sha1 passwd).toList) (cooksalt sha1 salt passwd) := by
  unfold Passes cooksalt
  dsimp only
  rw [zipWith_xor_xor]

/-- The client recovers a server's greeting, and answers its salt as the server expects. -/
theorem greeting_recovered (g : ServerGreeting) (c : Conn) (later : List (Option UInt8))
    (block : Mem) (pkt : HandshakePkt) : ∃ pkt',
    readHandshakePkt block pkt g.payload.length
      { c with incoming := g.payload.map some ++ later } =
        .ok (.protoOk, pkt', { c with incoming := later }) ∧
    g.Recovered pkt' ∧
    ∀ (sha1 : List UInt8 → Vector UInt8 20) (passwd : List UInt8),
      Passes sha1 g.scramble.toList (sha1 (sha1 passwd).toList)
        (cooksalt sha1 (slice pkt'.salt 0 pkt'.saltlen) passwd) := by
  have hholds := holds_store block 0 g.payload
  have hlength := g.length_payload
  have hfits := g.fits
  obtain ⟨hversion, hfull⟩ := ServerGreeting.full_payload hholds
  have hrecovered := ServerGreeting.recovered hholds pkt
  refine ⟨pkt.whole (store block 0 g.payload) g.payload.length, ?_, hrecovered, ?_⟩
  · rw [readHandshakePkt_arrived block pkt (by omega) rfl,
      ok_bind (pkt.parse_whole hversion hfull (by omega))]
  · intro sha1 passwd
    rw [hrecovered.salt_eq]
    exact cooksalt_passes sha1 g.scramble.toList passwd

end LibBinlog

import Mathlib.Data.Bool.AllAny
import LibBinlog.Lib.Digits
import LibBinlog.Protocol

/-!
# The address of a server

`parseMySQLUrl` goes through a copy of the address once, ends the parts in it with zero bytes and
keeps pointers to their starts. The characters it stops at depend on the parts it has seen. A colon
behind the start of the password still counts, so a password with a colon is cut there.
-/

namespace LibBinlog

open Machine Memory

def colon : UInt8 := 58

def slash : UInt8 := 47

def atSign : UInt8 := 64

/-- Search match for characters. -/
def smatch (c : UInt8) (s : List UInt8) : Bool := c ∈ s

/-- The variables of the scan. A pointer is an offset, `none` before it is set. -/
structure UrlScan where
  next : List UInt8
  sUser : Bool
  sPasswd : Bool
  sHost : Bool
  sPort : Bool
  sFile : Bool
  user : Option ℕ
  passwd : Option ℕ
  host : Option ℕ
  port : Option ℕ
  logfile : Option ℕ

def UrlScan.start : UrlScan :=
  ⟨[colon], true, true, true, true, true, none, none, none, none, none⟩

/-- The character at `i`, and what is left there. -/
def scanChar (i : ℕ) (c : UInt8) (st : UrlScan) : UInt8 × UrlScan :=
  if smatch c st.next then
    if st.sUser then
      (c, { st with sUser := false, user := some (i + 3), next := [colon, atSign] })
    else if st.sPasswd ∧ c = colon then (0, { st with sPasswd := false, passwd := some (i + 1) })
    else if st.sHost ∧ c = atSign then
      (0, { st with
        sPasswd := false, sHost := false, host := some (i + 1), next := [colon, slash] })
    else if st.sPort ∧ c = colon then
      (0, { st with sPort := false, port := some (i + 1), next := [slash] })
    else if st.sFile ∧ c = slash then
      (0, { st with sPort := false, sFile := false, logfile := some (i + 1) })
    else if c = slash then (0, st)
    else (c, st)
  else (c, st)

def scanUrl : ℕ → List UInt8 → UrlScan → List UInt8 × UrlScan
  | _, [], st => ([], st)
  | i, c :: cs, st =>
    let (c, st) := scanChar i c st
    let (cs, st) := scanUrl (i + 1) cs st
    (c :: cs, st)

/-- The string at an offset, `null` for a pointer that is not set. -/
def Pointer.at (url : List UInt8) : Option ℕ → Pointer
  | none => .null
  | some i => if i ≤ url.length then .text (cstring (url.drop i)) else .wild

/-- What the data source is told. -/
structure ServerUrl where
  user : Pointer
  passwd : Pointer
  host : Pointer
  port : ℤ
  logfile : List UInt8
  deriving DecidableEq

/-- Without a slash behind the host, `logfile` is read before it is set. -/
def parseMySQLUrl (surl : List UInt8) : Except Fault ServerUrl :=
  let (url, st) := match surl with
    | [] => ([], UrlScan.start)
    | c :: cs =>
      if c = 109 then
        let (cs, st) := scanUrl 1 cs .start
        (c :: cs, st)
      else (surl, .start)
  let port := match st.port with
    | none => 0
    | some i => atoi (cstring (url.drop i))
  match st.logfile with
  | none => .error .memory
  | some i =>
    let logfile := cstring (url.drop i)
    .ok ⟨.at url st.user, .at url st.passwd, .at url st.host, port,
      if logfile.length < 256 then logfile else []⟩

/-! ## Addresses and their parts -/

/-- A part that may be missing, behind its mark. -/
def marked (mark : UInt8) : Option (List UInt8) → List UInt8
  | none => []
  | some bs => mark :: bs

/-- The parts of an address. -/
structure UrlParts where
  user : List UInt8
  passwd : Option (List UInt8)
  host : List UInt8
  port : Option (List UInt8)
  file : List UInt8
  user_ok : ∀ c ∈ user, c ≠ 0 ∧ c ≠ colon ∧ c ≠ atSign
  passwd_ok : ∀ bs ∈ passwd, ∀ c ∈ bs, c ≠ 0 ∧ c ≠ atSign
  host_ok : ∀ c ∈ host, c ≠ 0 ∧ c ≠ colon ∧ c ≠ slash
  port_digits : ∀ bs ∈ port, ∀ c ∈ bs, isDigit c = true
  port_ne : ∀ bs ∈ port, bs ≠ []
  file_ok : ∀ c ∈ file, c ≠ 0 ∧ c ≠ slash
  file_ne : file ≠ []
  file_fits : file.length < 256

namespace UrlParts

def url (p : UrlParts) : List UInt8 :=
  ascii "mysql://" ++ p.user ++ marked colon p.passwd ++ atSign :: p.host ++ marked colon p.port ++
    slash :: p.file

/-- What the address says. -/
def stated (p : UrlParts) : ServerUrl where
  user := .text p.user
  passwd := p.passwd.elim .null .text
  host := .text p.host
  port := p.port.elim 0 fun bs => readNumber bs
  logfile := p.file

/-- The password has no colon, and the port fits an `int`. -/
def Plain (p : UrlParts) : Prop :=
  (∀ bs ∈ p.passwd, colon ∉ bs) ∧ ∀ bs ∈ p.port, readNumber bs < 2 ^ 31

end UrlParts

/-! ## Runs of the scan -/

variable {i : ℕ} {c : UInt8} {cs xs ys : List UInt8} {st : UrlScan}

theorem scanChar_of_not_smatch (i : ℕ) (h : smatch c st.next = false) :
    scanChar i c st = (c, st) := by
  rw [scanChar, h]
  rfl

/-- Characters that change nothing. -/
theorem scanUrl_passed (h : ∀ c ∈ xs, ∀ i, scanChar i c st = (c, st)) (ys : List UInt8) (i : ℕ) :
    scanUrl i (xs ++ ys) st =
      (xs ++ (scanUrl (i + xs.length) ys st).1, (scanUrl (i + xs.length) ys st).2) := by
  induction xs generalizing i with
  | nil => rfl
  | cons x xs ih =>
    have htail : ∀ c ∈ xs, ∀ i, scanChar i c st = (c, st) :=
      fun c hc => h c (List.mem_cons_of_mem x hc)
    rw [List.cons_append, scanUrl, h x List.mem_cons_self]
    dsimp only
    rw [ih htail, List.length_cons, Nat.add_assoc, Nat.add_comm 1 xs.length]
    rfl

theorem scanUrl_unmatched (h : ∀ c ∈ xs, c ∉ st.next) (ys : List UInt8) (i : ℕ) :
    scanUrl i (xs ++ ys) st =
      (xs ++ (scanUrl (i + xs.length) ys st).1, (scanUrl (i + xs.length) ys st).2) :=
  scanUrl_passed (fun c hc i => scanChar_of_not_smatch i (decide_eq_false (h c hc))) ys i

theorem scanUrl_cons (i : ℕ) (c : UInt8) (cs : List UInt8) (st : UrlScan) :
    scanUrl i (c :: cs) st = ((scanChar i c st).1 :: (scanUrl (i + 1) cs (scanChar i c st).2).1,
      (scanUrl (i + 1) cs (scanChar i c st).2).2) := rfl

/-- A part between two marks that are overwritten with zeros. -/
theorem scanUrl_part {x y : UInt8} {st' st'' : UrlScan} (hfirst : scanChar i x st = (0, st'))
    (hxs : ∀ c ∈ xs, c ∉ st'.next) (hlast : scanChar (i + (xs.length + 1)) y st' = (0, st''))
    (ys : List UInt8) : scanUrl i (x :: (xs ++ y :: ys)) st =
      (0 :: (xs ++ 0 :: (scanUrl (i + (xs.length + 1) + 1) ys st'').1),
        (scanUrl (i + (xs.length + 1) + 1) ys st'').2) := by
  have hoffset : i + 1 + xs.length = i + (xs.length + 1) := by omega
  rw [scanUrl_cons, hfirst]
  dsimp only
  rw [scanUrl_unmatched hxs, hoffset, scanUrl_cons, hlast]

/-! ## The states of a scan -/

namespace UrlScan

/-- Behind the first colon, at offset 5. -/
def inUser : UrlScan :=
  ⟨[colon, atSign], false, true, true, true, true, some 8, none, none, none, none⟩

/-- Behind a colon at `i`. -/
def inPasswd (i : ℕ) : UrlScan :=
  ⟨[colon, atSign], false, false, true, true, true, some 8, some (i + 1), none, none, none⟩

/-- Behind the at sign at `i`. -/
def inHost (i : ℕ) (passwd : Option ℕ) : UrlScan :=
  ⟨[colon, slash], false, false, false, true, true, some 8, passwd, some (i + 1), none, none⟩

/-- Behind a colon at `j`. -/
def inPort (i : ℕ) (passwd : Option ℕ) (j : ℕ) : UrlScan :=
  ⟨[slash], false, false, false, false, true, some 8, passwd, some (i + 1), some (j + 1), none⟩

/-- Behind the slash at `j`. -/
def inFile (next : List UInt8) (i : ℕ) (passwd port : Option ℕ) (j : ℕ) : UrlScan :=
  ⟨next, false, false, false, false, false, some 8, passwd, some (i + 1), port, some (j + 1)⟩

end UrlScan

theorem scanUrl_user {user : List UInt8} (huser : ∀ c ∈ user, c ≠ 0 ∧ c ≠ colon ∧ c ≠ atSign)
    (ys : List UInt8) :
    scanUrl 1 (ascii "ysql" ++ (colon :: (ascii "//" ++ (user ++ ys)))) .start =
      (ascii "ysql" ++
        (colon :: (ascii "//" ++ (user ++ (scanUrl (8 + user.length) ys .inUser).1))),
        (scanUrl (8 + user.length) ys .inUser).2) := by
  have hcolon : scanChar 5 colon .start = (colon, .inUser) := rfl
  have hscheme : ∀ c ∈ ascii "ysql", c ∉ UrlScan.start.next := List.all_iff_forall_prop.mp rfl
  have hslashes : ∀ c ∈ ascii "//", c ∉ UrlScan.inUser.next := List.all_iff_forall_prop.mp rfl
  have huser' : ∀ c ∈ user, c ∉ UrlScan.inUser.next := by
    intro c hc
    obtain ⟨-, hne, hne'⟩ := huser c hc
    simpa [UrlScan.inUser] using ⟨hne, hne'⟩
  rw [scanUrl_unmatched hscheme, scanUrl_cons]
  have hfive : 1 + (ascii "ysql").length = 5 := rfl
  rw [hfive, hcolon]
  dsimp only
  rw [scanUrl_unmatched hslashes, scanUrl_unmatched huser']
  rfl

theorem scanUrl_passwd {passwd : Option (List UInt8)}
    (hpasswd : ∀ bs ∈ passwd, ∀ c ∈ bs, c ≠ 0 ∧ c ≠ atSign)
    (hcolon : ∀ bs ∈ passwd, colon ∉ bs) (ys : List UInt8) (i : ℕ) :
    ∃ k, k = i + (marked 0 passwd).length ∧
      scanUrl i (marked colon passwd ++ atSign :: ys) .inUser =
        (marked 0 passwd ++ 0 :: (scanUrl (k + 1) ys (.inHost k (passwd.map fun _ => i + 1))).1,
          (scanUrl (k + 1) ys (.inHost k (passwd.map fun _ => i + 1))).2) := by
  refine ⟨_, rfl, ?_⟩
  cases passwd with
  | none => rfl
  | some bs =>
    have hunmatched : ∀ c ∈ bs, c ∉ (UrlScan.inPasswd i).next := by
      intro c hc
      have hne : c ≠ colon := fun heq => hcolon bs rfl (heq ▸ hc)
      simpa [UrlScan.inPasswd] using ⟨hne, (hpasswd bs rfl c hc).2⟩
    have hlast : scanChar (i + (bs.length + 1)) atSign (.inPasswd i) =
        (0, .inHost (i + (bs.length + 1)) (some (i + 1))) := rfl
    have hfirst : scanChar i colon .inUser = (0, .inPasswd i) := rfl
    exact scanUrl_part hfirst hunmatched hlast ys

theorem scanUrl_port {port : Option (List UInt8)} (hport : ∀ bs ∈ port, ∀ c ∈ bs, isDigit c = true)
    (ys : List UInt8) (i k : ℕ) (passwd : Option ℕ) :
    ∃ next j, j = i + (marked 0 port).length ∧
      scanUrl i (marked colon port ++ slash :: ys) (.inHost k passwd) =
        (marked 0 port ++
          0 :: (scanUrl (j + 1) ys (.inFile next k passwd (port.map fun _ => i + 1) j)).1,
          (scanUrl (j + 1) ys (.inFile next k passwd (port.map fun _ => i + 1) j)).2) := by
  cases port with
  | none => exact ⟨[colon, slash], _, rfl, rfl⟩
  | some bs =>
    refine ⟨[slash], _, rfl, ?_⟩
    have hfirst : scanChar i colon (.inHost k passwd) = (0, .inPort k passwd i) := rfl
    have hlast : scanChar (i + (bs.length + 1)) slash (.inPort k passwd i) =
        (0, .inFile [slash] k passwd (some (i + 1)) (i + (bs.length + 1))) := rfl
    have hunmatched : ∀ c ∈ bs, c ∉ (UrlScan.inPort k passwd i).next := by
      intro c hc hmem
      rw [List.mem_singleton.mp hmem] at hc
      exact absurd (hport bs rfl slash hc) (by decide)
    exact scanUrl_part hfirst hunmatched hlast ys

/-- Behind the slash only another slash counts. -/
theorem scanUrl_file {file : List UInt8} (hfile : ∀ c ∈ file, c ≠ 0 ∧ c ≠ slash)
    (next : List UInt8) (i j k : ℕ) (passwd port : Option ℕ) :
    scanUrl i file (.inFile next k passwd port j) = (file, .inFile next k passwd port j) := by
  have hpassed : ∀ c ∈ file, ∀ i, scanChar i c (.inFile next k passwd port j) =
      (c, .inFile next k passwd port j) := by
    intro c hc i
    have hne := (hfile c hc).2
    simp [scanChar, UrlScan.inFile, hne]
  have hrun := scanUrl_passed hpassed [] i
  rw [List.append_nil] at hrun
  rw [hrun, scanUrl, List.append_nil]

/-! ## The parts that are found -/

theorem cstring_drop {pre rest : List UInt8} (hxs : 0 ∉ xs) (hi : i = pre.length) :
    cstring ((pre ++ (xs ++ 0 :: rest)).drop i) = xs := by
  rw [hi, List.drop_left, cstring_append_zero hxs]

theorem Pointer.at_text {pre rest : List UInt8} (hxs : 0 ∉ xs) (hi : i = pre.length) :
    Pointer.at (pre ++ (xs ++ 0 :: rest)) (some i) = .text xs := by
  rw [Pointer.at, if_pos (by rw [hi, List.length_append]; omega), cstring_drop hxs hi]

theorem exists_marked_zero (part : Option (List UInt8)) (ys : List UInt8) :
    ∃ rest, marked 0 part ++ 0 :: ys = 0 :: rest := by
  cases part with
  | none => exact ⟨ys, rfl⟩
  | some bs => exact ⟨bs ++ 0 :: ys, rfl⟩

theorem zero_notMem_of_digits (h : ∀ c ∈ xs, isDigit c = true) : 0 ∉ xs :=
  fun hzero => absurd (h 0 hzero) (by decide)

theorem length_scheme : (ascii "mysql://").length = 8 := rfl

namespace UrlParts

variable {p : UrlParts}

theorem zero_notMem_user (p : UrlParts) : 0 ∉ p.user := fun h => (p.user_ok 0 h).1 rfl

theorem zero_notMem_host (p : UrlParts) : 0 ∉ p.host := fun h => (p.host_ok 0 h).1 rfl

theorem zero_notMem_file (p : UrlParts) : 0 ∉ p.file := fun h => (p.file_ok 0 h).1 rfl

/-- What is left of the copy. -/
def cut (p : UrlParts) : List UInt8 :=
  ascii "mysql://" ++ (p.user ++ (marked 0 p.passwd ++ 0 ::
    (p.host ++ (marked 0 p.port ++ 0 :: p.file))))

/-- The offset of the zero byte in front of the host. -/
def hostMark (p : UrlParts) : ℕ := 8 + p.user.length + (marked 0 p.passwd).length

/-- The offset of the zero byte in front of the file. -/
def fileMark (p : UrlParts) : ℕ := p.hostMark + 1 + p.host.length + (marked 0 p.port).length

theorem scanUrl_url (hcolon : ∀ bs ∈ p.passwd, colon ∉ bs) : ∃ cs next, p.url = 109 :: cs ∧
    109 :: (scanUrl 1 cs .start).1 = p.cut ∧
    (scanUrl 1 cs .start).2 = .inFile next p.hostMark
      (p.passwd.map fun _ => 8 + p.user.length + 1)
      (p.port.map fun _ => p.hostMark + 1 + p.host.length + 1) p.fileMark := by
  obtain ⟨k, hk, hpasswd⟩ := scanUrl_passwd p.passwd_ok hcolon
    (p.host ++ (marked colon p.port ++ slash :: p.file)) (8 + p.user.length)
  have hhost : ∀ c ∈ p.host,
      c ∉ (UrlScan.inHost k (p.passwd.map fun _ => 8 + p.user.length + 1)).next := by
    intro c hc
    simpa [UrlScan.inHost] using (p.host_ok c hc).2
  obtain ⟨next, j, hj, hport⟩ := scanUrl_port p.port_digits p.file (k + 1 + p.host.length) k
    (p.passwd.map fun _ => 8 + p.user.length + 1)
  have hhostMark : k = p.hostMark := hk
  have hfileMark : j = p.fileMark := by
    rw [hj, hhostMark, fileMark]
  have hscan := scanUrl_user p.user_ok (marked colon p.passwd ++ atSign ::
    (p.host ++ (marked colon p.port ++ slash :: p.file)))
  rw [hpasswd, scanUrl_unmatched hhost, hport, scanUrl_file p.file_ok] at hscan
  rw [hhostMark, hfileMark] at hscan
  refine ⟨_, next, ?_, ?_, congrArg Prod.snd hscan⟩
  · rw [url]
    simp only [List.append_assoc, List.cons_append]
    rfl
  · rw [hscan]
    rfl

theorem parseMySQLUrl_url (hcolon : ∀ bs ∈ p.passwd, colon ∉ bs) :
    parseMySQLUrl p.url = .ok ⟨.text p.user, p.passwd.elim .null .text, .text p.host,
      p.port.elim 0 atoi, p.file⟩ := by
  obtain ⟨cs, next, hurl, hcut, hst⟩ := scanUrl_url hcolon
  have huser : Pointer.at p.cut (some 8) = .text p.user := by
    obtain ⟨rest, hrest⟩ := exists_marked_zero p.passwd
      (p.host ++ (marked 0 p.port ++ 0 :: p.file))
    rw [cut, hrest]
    exact Pointer.at_text p.zero_notMem_user rfl
  have hpasswd : Pointer.at p.cut (p.passwd.map fun _ => 8 + p.user.length + 1) =
      p.passwd.elim .null .text := by
    cases hp : p.passwd with
    | none => rfl
    | some bs =>
      have hzero : 0 ∉ bs := fun h => (p.passwd_ok bs hp 0 h).1 rfl
      have hsplit : p.cut = (ascii "mysql://" ++ p.user ++ [0]) ++ (bs ++ 0 ::
          (p.host ++ (marked 0 p.port ++ 0 :: p.file))) := by
        rw [cut, hp, marked]
        simp only [List.append_assoc, List.cons_append, List.nil_append]
      rw [hsplit]
      exact Pointer.at_text hzero (by
        simp only [List.length_append, length_scheme, List.length_singleton])
  have hhost : Pointer.at p.cut (some (p.hostMark + 1)) = .text p.host := by
    obtain ⟨rest, hrest⟩ := exists_marked_zero p.port p.file
    have hsplit : p.cut = (ascii "mysql://" ++ p.user ++ marked 0 p.passwd ++ [0]) ++
        (p.host ++ 0 :: rest) := by
      rw [cut, hrest]
      simp only [List.append_assoc, List.cons_append, List.nil_append]
    rw [hsplit]
    exact Pointer.at_text p.zero_notMem_host (by
      simp only [hostMark, List.length_append, length_scheme, List.length_singleton])
  have hport : (match p.port.map fun _ => p.hostMark + 1 + p.host.length + 1 with
      | none => 0
      | some i => atoi (cstring (p.cut.drop i))) = p.port.elim 0 atoi := by
    cases hp : p.port with
    | none => rfl
    | some bs =>
      have hsplit : p.cut = (ascii "mysql://" ++ p.user ++ marked 0 p.passwd ++ [0] ++ p.host ++
          [0]) ++ (bs ++ 0 :: p.file) := by
        rw [cut, hp, marked]
        simp only [List.append_assoc, List.cons_append, List.nil_append]
      have hdigits := zero_notMem_of_digits (p.port_digits bs hp)
      dsimp only [Option.map_some, Option.elim_some]
      rw [hsplit, cstring_drop hdigits (by
        simp only [hostMark, List.length_append, length_scheme, List.length_singleton])]
  have hfile : cstring (p.cut.drop (p.fileMark + 1)) = p.file := by
    have hsplit : p.cut = (ascii "mysql://" ++ p.user ++ marked 0 p.passwd ++ [0] ++ p.host ++
        marked 0 p.port ++ [0]) ++ p.file := by
      rw [cut]
      simp only [List.append_assoc, List.cons_append, List.nil_append]
    rw [hsplit, List.drop_left' (by
      simp only [fileMark, hostMark, List.length_append, length_scheme, List.length_singleton]),
      cstring_of_not_mem p.zero_notMem_file]
  unfold parseMySQLUrl
  rw [hurl]
  dsimp only
  rw [if_pos rfl]
  dsimp only
  rw [hst]
  dsimp only [UrlScan.inFile]
  rw [hcut, huser, hpasswd, hhost, hport, hfile, if_pos p.file_fits]

/-! ## Passwords with a colon -/

theorem scanChar_passwd (i : ℕ) (c : UInt8) (h : st.sPasswd = false) :
    (scanChar i c st).2.sPasswd = false ∧
      (scanChar i c st).2.passwd = st.passwd := by
  unfold scanChar
  split_ifs with _ _ hcolon
  · exact ⟨h, rfl⟩
  · rw [h] at hcolon
    exact absurd hcolon.1 Bool.false_ne_true
  · exact ⟨rfl, rfl⟩
  all_goals exact ⟨h, rfl⟩

/-- Once it is set, the pointer to the password stays. -/
theorem scanUrl_passwd_kept (cs : List UInt8) (i : ℕ) (h : st.sPasswd = false) :
    (scanUrl i cs st).2.passwd = st.passwd := by
  induction cs generalizing i st with
  | nil => rfl
  | cons c cs ih =>
    obtain ⟨hset, hkept⟩ := scanChar_passwd i c h
    rw [scanUrl_cons]
    exact (ih (i + 1) hset).trans hkept

/-- A colon in the password ends it. -/
theorem scanUrl_cut_passwd {first : List UInt8} (hfirst : ∀ c ∈ first, c ≠ colon ∧ c ≠ atSign)
    (ys : List UInt8) (i : ℕ) :
    ∃ rest, (scanUrl i (colon :: (first ++ colon :: ys)) .inUser).1 = 0 :: (first ++ 0 :: rest) ∧
      (scanUrl i (colon :: (first ++ colon :: ys)) .inUser).2.passwd = some (i + 1) := by
  have hunmatched : ∀ c ∈ first, c ∉ (UrlScan.inPasswd i).next := by
    intro c hc
    simpa [UrlScan.inPasswd] using hfirst c hc
  have hopen : scanChar i colon .inUser = (0, .inPasswd i) := rfl
  have hcolon : scanChar (i + (first.length + 1)) colon (.inPasswd i) =
      (0, { UrlScan.inPasswd i with
        sPort := false, port := some (i + (first.length + 1) + 1), next := [slash] }) := rfl
  rw [scanUrl_part hopen hunmatched hcolon]
  exact ⟨_, rfl, scanUrl_passwd_kept _ _ rfl⟩

theorem parseMySQLUrl_cut {bs : List UInt8} (hpasswd : p.passwd = some bs) (hcolon : colon ∈ bs) :
    parseMySQLUrl p.url ≠ .ok p.stated := by
  obtain ⟨first, later, rfl, hfirst⟩ := List.eq_append_cons_of_mem hcolon
  have hfirst' : ∀ c ∈ first, c ≠ colon ∧ c ≠ atSign := by
    intro c hc
    exact ⟨fun heq => hfirst (heq ▸ hc),
      (p.passwd_ok _ hpasswd c (List.mem_append_left _ hc)).2⟩
  have hzero : 0 ∉ first := fun h =>
    (p.passwd_ok _ hpasswd 0 (List.mem_append_left _ h)).1 rfl
  obtain ⟨rest, hcut, hkept⟩ := scanUrl_cut_passwd hfirst'
    (later ++ atSign :: (p.host ++ (marked colon p.port ++ slash :: p.file))) (8 + p.user.length)
  have hscan := scanUrl_user p.user_ok (colon :: (first ++ colon ::
    (later ++ atSign :: (p.host ++ (marked colon p.port ++ slash :: p.file)))))
  have hurl : p.url = 109 :: (ascii "ysql" ++ (colon :: (ascii "//" ++ (p.user ++ (colon ::
      (first ++ colon :: (later ++ atSign ::
        (p.host ++ (marked colon p.port ++ slash :: p.file))))))))) := by
    rw [url, hpasswd, marked]
    simp only [List.append_assoc, List.cons_append]
    rfl
  intro hok
  unfold parseMySQLUrl at hok
  rw [hurl] at hok
  dsimp only at hok
  rw [if_pos rfl, hscan] at hok
  dsimp only at hok
  split at hok
  · cases hok
  · have hr := congrArg ServerUrl.passwd (Except.ok.inj hok)
    have hsplit : 109 :: (ascii "ysql" ++ (colon :: (ascii "//" ++ (p.user ++
        (0 :: (first ++ 0 :: rest)))))) =
          (ascii "mysql://" ++ p.user ++ [0]) ++ (first ++ 0 :: rest) := by
      simp only [List.append_assoc, List.cons_append, List.nil_append]
      rfl
    dsimp only at hr
    rw [hkept, hcut, hsplit, Pointer.at_text hzero (by
      simp only [List.length_append, length_scheme, List.length_singleton]), stated, hpasswd] at hr
    have hlength := congrArg List.length (Pointer.text.inj hr)
    rw [List.length_append, List.length_cons] at hlength
    omega

/-! ## Which addresses are read right -/

theorem parsed_iff (p : UrlParts) : parseMySQLUrl p.url = .ok p.stated ↔ p.Plain := by
  constructor
  · intro hok
    have hcolon : ∀ bs ∈ p.passwd, colon ∉ bs := fun bs hbs hmem =>
      parseMySQLUrl_cut hbs hmem hok
    refine ⟨hcolon, fun bs hbs => ?_⟩
    rw [parseMySQLUrl_url hcolon] at hok
    have hport := congrArg ServerUrl.port (Except.ok.inj hok)
    rw [stated, Option.mem_def.mp hbs] at hport
    exact (atoi_eq_iff (p.port_digits bs hbs) (p.port_ne bs hbs)).mp hport
  · rintro ⟨hcolon, hport⟩
    rw [parseMySQLUrl_url hcolon, stated]
    cases hp : p.port with
    | none => rfl
    | some bs =>
      have hvalue := (atoi_eq_iff (p.port_digits bs hp) (p.port_ne bs hp)).mpr (hport bs hp)
      rw [Option.elim_some, hvalue]
      rfl

end UrlParts

/-- `mysql://u:p:w@h/f`. -/
def colonInPasswd : UrlParts where
  user := ascii "u"
  passwd := some (ascii "p:w")
  host := ascii "h"
  port := none
  file := ascii "f"
  user_ok := List.all_iff_forall_prop.mp rfl
  passwd_ok := by
    rintro bs ⟨⟩
    exact List.all_iff_forall_prop.mp rfl
  host_ok := List.all_iff_forall_prop.mp rfl
  port_digits := nofun
  port_ne := nofun
  file_ok := List.all_iff_forall_prop.mp rfl
  file_ne := by decide
  file_fits := by decide

/-- The password is taken for `p`. -/
theorem colonInPasswd_cut : ∃ p : UrlParts, p.passwd = some (ascii "p:w") ∧
    parseMySQLUrl p.url ≠ .ok p.stated :=
  ⟨colonInPasswd, rfl, by decide +kernel⟩

end LibBinlog

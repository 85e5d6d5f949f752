import LibBinlog.MySQLUrl
import LibBinlog.PacketReads

/-!
# The address of a file

`parseFileUrl` jumps three characters ahead from each match and one more with the next round. The
slash that opens an absolute path is jumped over as well, and a colon in a relative path counts like
the one behind `file`.
-/

namespace LibBinlog

open Machine Memory

/-- The variables of the scan. `logfile` is not set at first. -/
structure FileScan where
  next : UInt8
  sPath : Bool
  path : Option ℕ
  logfile : Option ℕ

def FileScan.start : FileScan := ⟨colon, true, none, none⟩

/-- The scan from offset `i`, with the characters that are left. Looking behind the zero byte at
their end is a fault. -/
def scanFile : ℕ → List UInt8 → FileScan → Except Fault FileScan
  | _, [], st => .ok st
  | i, c :: cs, st =>
    if c = st.next then
      match cs with
      | _ :: _ :: b :: cs =>
        if st.sPath ∧ b = slash then
          match cs with
          | _ :: cs =>
            scanFile (i + 5) cs { st with path := some (i + 4), sPath := false, next := slash }
          | [] => .error .memory
        else scanFile (i + 4) cs { st with logfile := some (i + 3) }
      -- Three characters on is the zero byte, and the round behind it looks further.
      | _ => .error .memory
    else scanFile (i + 1) cs st

structure FileTarget where
  path : Pointer
  logfile : List UInt8

/-- `logfile` is read whether it has been set or not. -/
def parseFileUrl (surl : List UInt8) : Except Fault FileTarget :=
  match surl with
  | [] => .ok ⟨.null, []⟩
  | c :: cs =>
    if c ≠ 102 then .ok ⟨.null, []⟩
    else do
      let st ← scanFile 1 cs .start
      match st.logfile with
      | none => .error .memory
      | some i =>
        let logfile := cstring (surl.drop i)
        .ok ⟨.at surl (st.path.or st.logfile), if logfile.length < 256 then logfile else []⟩

/-- A path, which is not empty. -/
structure FilePath where
  bytes : List UInt8
  zero_notMem : 0 ∉ bytes
  ne : bytes ≠ []

def fileUrl (path : List UInt8) : List UInt8 := ascii "file://" ++ path

/-- The address is scanned up to its end, and the path is found in it. -/
def NamesFile (path : List UInt8) : Prop :=
  ∃ target, parseFileUrl (fileUrl path) = .ok target ∧ target.path = .text path

/-- The path does not start with a slash and has no colon behind its first character. -/
def Relative (path : List UInt8) : Prop := path.head? ≠ some slash ∧ colon ∉ path.tail

variable {i : ℕ} {c : UInt8} {cs xs ys path : List UInt8} {st st' : FileScan}

theorem scanFile_skip (i : ℕ) (cs : List UInt8) (h : c ≠ st.next) :
    scanFile i (c :: cs) st = scanFile (i + 1) cs st := by
  rw [scanFile.eq_def]
  exact if_neg h

/-- A match with three characters behind it. -/
theorem scanFile_jump (st : FileScan) (i : ℕ) (x y : UInt8) (cs : List UInt8) {b : UInt8}
    (h : st.sPath = true → b ≠ slash) : scanFile i (st.next :: x :: y :: b :: cs) st =
      scanFile (i + 4) cs { st with logfile := some (i + 3) } := by
  rw [scanFile.eq_def]
  dsimp only
  rw [if_pos rfl, if_neg (fun hpath => h hpath.1 hpath.2)]

theorem scanFile_unmatched (st : FileScan) (h : st.next ∉ xs) (ys : List UInt8) (i : ℕ) :
    scanFile i (xs ++ ys) st = scanFile (i + xs.length) ys st := by
  induction xs generalizing i with
  | nil => rfl
  | cons x xs ih =>
    rw [List.mem_cons, not_or] at h
    rw [List.cons_append, scanFile_skip i _ (Ne.symm h.1), ih h.2, List.length_cons, Nat.add_assoc,
      Nat.add_comm 1]

/-- Up to the second character of a path that does not start with a slash. -/
theorem scanFile_relative (hc : c ≠ slash) : scanFile 1 (ascii "ile://" ++ c :: cs) .start =
    scanFile 8 cs { FileScan.start with logfile := some 7 } := by
  have hunmatched : FileScan.start.next ∉ ascii "ile" := by decide
  have hscan := scanFile_unmatched .start hunmatched
    (ascii "://" ++ c :: cs) 1
  exact hscan.trans (scanFile_jump .start 4 slash slash cs fun _ => hc)

/-- The pointer that becomes the path stands behind the start of the path. -/
def Moved (st : FileScan) : Prop := ∃ p, st.path.or st.logfile = some p ∧ 8 ≤ p

theorem moved_withLogfile (hst : st.path = none ∨ Moved st) (hi : 8 ≤ i) :
    Moved { st with logfile := some i } := by
  obtain ⟨next, sPath, path, logfile⟩ := st
  cases path with
  | none => exact ⟨i, rfl, hi⟩
  | some j =>
    rcases hst with hnone | ⟨p, hp, hle⟩
    · cases hnone
    · exact ⟨p, hp, hle⟩

theorem scanFile_moved (hi : 8 ≤ i) (hst : Moved st) (h : scanFile i cs st = .ok st') :
    Moved st' := by
  fun_induction scanFile i cs st with
  | case1 i st =>
    cases h
    exact hst
  | case2 i st x y b hpath z cs ih =>
    exact ih (by omega) ⟨i + 4, rfl, by omega⟩ h
  | case3 => cases h
  | case4 i st x y b cs hpath ih =>
    exact ih (by omega) (moved_withLogfile (.inr hst) (by omega)) h
  | case5 => cases h
  | case6 i c cs st hc ih => exact ih (by omega) hst h

/-- A match while the path is not set yet. -/
theorem scanFile_matched (st : FileScan) (hi : 8 ≤ i) (hst : st.path = none)
    (h : scanFile i (st.next :: cs) st = .ok st') : Moved st' := by
  rw [scanFile.eq_def] at h
  dsimp only at h
  rw [if_pos rfl] at h
  split at h
  · split_ifs at h
    · split at h
      · exact scanFile_moved (by omega) ⟨i + 4, rfl, by omega⟩ h
      · cases h
    · exact scanFile_moved (by omega) (moved_withLogfile (.inl hst) (by omega)) h
  · cases h

/-- The slash that opens the path. -/
theorem scanFile_absolute (h : scanFile 1 (ascii "ile://" ++ slash :: cs) .start = .ok st') :
    Moved st' := by
  have hunmatched : FileScan.start.next ∉ ascii "ile" := by decide
  have hscan := scanFile_unmatched .start hunmatched
    (colon :: slash :: slash :: slash :: cs) 1
  have hrun : scanFile 4 (colon :: slash :: slash :: slash :: cs) .start = .ok st' :=
    hscan.symm.trans h
  have hmatch : colon = FileScan.start.next := rfl
  rw [scanFile.eq_def] at hrun
  dsimp only at hrun
  rw [if_pos hmatch, if_pos ⟨rfl, rfl⟩] at hrun
  split at hrun
  · exact scanFile_moved (by omega) ⟨8, rfl, le_rfl⟩ hrun
  · cases hrun

/-! ## Which files are found -/

theorem fileUrl_eq (path : List UInt8) : fileUrl path = 102 :: (ascii "ile://" ++ path) := rfl

theorem length_fileUrl (path : List UInt8) : (fileUrl path).length = 7 + path.length := by
  rw [fileUrl, List.length_append]
  rfl

theorem parseFileUrl_scanned (hscan : scanFile 1 (ascii "ile://" ++ path) .start = .ok st) :
    parseFileUrl (fileUrl path) = match st.logfile with
      | none => .error .memory
      | some i =>
        let logfile := cstring ((fileUrl path).drop i)
        .ok ⟨.at (fileUrl path) (st.path.or st.logfile),
          if logfile.length < 256 then logfile else []⟩ := by
  rw [fileUrl_eq, parseFileUrl, if_neg (by decide), ok_bind hscan]

theorem not_namesFile_of_moved
    (h : ∀ st, scanFile 1 (ascii "ile://" ++ path) .start = .ok st → Moved st) :
    ¬NamesFile path := by
  rintro ⟨target, hok, hpath⟩
  cases hscan : scanFile 1 (ascii "ile://" ++ path) .start with
  | error fault =>
    rw [fileUrl_eq, parseFileUrl, if_neg (by decide), error_bind hscan] at hok
    cases hok
  | ok st =>
    obtain ⟨p, hp, hle⟩ := h st hscan
    rw [parseFileUrl_scanned hscan] at hok
    split at hok
    · cases hok
    · cases hok
      dsimp only at hpath
      rw [hp, Pointer.at] at hpath
      split_ifs at hpath with hin
      have hlength := congrArg List.length (Pointer.text.inj hpath)
      have hshort := length_cstring_le ((fileUrl path).drop p)
      rw [List.length_drop, length_fileUrl] at hshort
      rw [length_fileUrl] at hin
      omega

theorem namesFile_iff (path : FilePath) : NamesFile path.bytes ↔ Relative path.bytes := by
  obtain ⟨path, hzero, hne⟩ := path
  obtain ⟨c, cs, rfl⟩ := List.exists_cons_of_ne_nil hne
  constructor
  · intro hnames
    by_contra hnot
    refine not_namesFile_of_moved (fun st hscan => ?_) hnames
    by_cases hc : c = slash
    · subst hc
      exact scanFile_absolute hscan
    · have hcolon : colon ∈ cs := by
        by_contra hcolon
        exact hnot ⟨fun h => hc (Option.some.inj h), hcolon⟩
      obtain ⟨first, later, rfl, hfirst⟩ := List.eq_append_cons_of_mem hcolon
      rw [scanFile_relative hc, scanFile_unmatched _ hfirst] at hscan
      exact scanFile_matched { FileScan.start with logfile := some 7 } (by omega) rfl hscan
  · rintro ⟨hc, hcolon⟩
    have hc' : c ≠ slash := fun h => hc (congrArg some h)
    have hscan : scanFile 1 (ascii "ile://" ++ c :: cs) .start =
        .ok { FileScan.start with logfile := some 7 } := by
      have hrun := scanFile_unmatched { FileScan.start with logfile := some 7 } hcolon [] 8
      rw [List.tail_cons, List.append_nil] at hrun
      rw [scanFile_relative hc', hrun, scanFile]
    refine ⟨_, parseFileUrl_scanned hscan, ?_⟩
    have hdrop : (fileUrl (c :: cs)).drop 7 = c :: cs := rfl
    change Pointer.at (fileUrl (c :: cs)) (some 7) = .text (c :: cs)
    rw [Pointer.at, if_pos (by rw [length_fileUrl]; omega), hdrop,
      cstring_of_not_mem hzero]

/-- The file of `file:///var/lib` is looked for at `var/lib`. -/
theorem absolutePath_lost : ¬NamesFile (ascii "/var/lib") :=
  not_namesFile_of_moved fun _ h => scanFile_absolute h

end LibBinlog

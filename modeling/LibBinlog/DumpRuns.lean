import LibBinlog.Dump
import LibBinlog.RowArrays
import LibBinlog.Sessions

/-!
# Runs of the dump program

The program fetches until there is no row and prints each row as it comes. With every row the client
has less to give, so the loop ends. Printing adds no fault to the fetching: whatever the source
delivers, the text is that of the rows that are fetched, each at the coordinates of the client at
that time.
-/

namespace LibBinlog

open Machine Memory Calls

variable {σ : Type} {drv : Driver σ} {bc bc' : BinlogClient σ} {ft : FloatText}

/-! ## Every row is one less -/

theorem getRowsEvent_startidx {answer : Option RowsEvent}
    (h : getRowsEvent drv bc = .ok (answer, bc')) : bc'._startidx = bc._startidx := by
  fun_induction getRowsEvent drv bc with
  | case1 | case2 | case4 | case5 => cases h
  | case3 =>
    cases h
    rfl
  | case6 bc ev ds hget rev bc'' hon =>
    cases h
    obtain ⟨bl, ds', rfl, -, -⟩ := onEvent_ok hon
    rfl
  | case7 bc ev ds hget bc'' hon ih =>
    obtain ⟨bl, ds', rfl, -, -⟩ := onEvent_ok hon
    exact ih h

theorem getRowsEvent_unread {rev : RowsEvent} (h : getRowsEvent drv bc = .ok (some rev, bc')) :
    drv.unread bc'.dataSource.driver < drv.unread bc.dataSource.driver := by
  fun_induction getRowsEvent drv bc with
  | case1 | case2 | case3 | case4 | case5 => cases h
  | case6 bc ev ds hget rev' bc'' hon =>
    cases h
    rw [onEvent_driver hon]
    exact drv.unread_lt hget
  | case7 bc ev ds hget bc'' hon ih =>
    have hlt := drv.unread_lt hget
    have hsame := onEvent_driver hon
    dsimp only at hsame
    rw [← hsame] at hlt
    exact (ih h).trans hlt

theorem setRowsEventBuffer_rest {rev : RowsEvent} (h : setRowsEventBuffer bc rev = .ok bc') :
    bc'.dataSource = bc.dataSource ∧ bc'._startidx = bc._startidx := by
  unfold setRowsEventBuffer at h
  dsimp only at h
  split at h
  · split_ifs at h
    cases h
    exact ⟨rfl, rfl⟩
  · split at h
    · cases h
    · cases h
      exact ⟨rfl, rfl⟩

/-- A row that is fetched from the buffer is one less in it. -/
structure RowTaken (bc bc' : BinlogClient σ) : Prop where
  dataSource : bc'.dataSource = bc.dataSource
  _startidx : bc'._startidx = bc._startidx
  left : bc'._lenRows - bc'._cur < bc._lenRows - bc._cur

theorem fetchFromBuffer_taken {row : BinlogRow} (h : fetchFromBuffer bc = .ok (some row, bc')) :
    RowTaken bc bc' := by
  unfold fetchFromBuffer at h
  split_ifs at h with hcur
  · split at h
    · cases h
    · split at h
      · cases h
        refine ⟨rfl, rfl, ?_⟩
        dsimp only
        omega
      · cases h
  · cases h

theorem fetchFromBuffer_startidx {row : Option BinlogRow}
    (h : fetchFromBuffer bc = .ok (row, bc')) :
    bc'._startidx = bc._startidx := by
  cases row with
  | some row => exact (fetchFromBuffer_taken h)._startidx
  | none =>
    unfold fetchFromBuffer at h
    split_ifs at h
    · split at h
      · cases h
      · split at h <;> cases h
    · cases h
      rfl

theorem _fetchOne_startidx {row : Option BinlogRow} (h : _fetchOne drv bc = .ok (row, bc')) :
    bc'._startidx = bc._startidx := by
  unfold _fetchOne at h
  split_ifs at h
  · split at h
    · cases h
    · next mid hget =>
      have hmid := getRowsEvent_startidx hget
      cases h
      exact hmid
    · next rev mid hget =>
      split at h
      · cases h
      · next filled hset =>
        have hfilled := (setRowsEventBuffer_rest hset).2
        exact (fetchFromBuffer_startidx h).trans (hfilled.trans (getRowsEvent_startidx hget))
  · have hsame := fetchFromBuffer_startidx h
    exact hsame

/-- A row comes out of a further event, or out of the buffer. -/
theorem _fetchOne_less {row : BinlogRow} (h : _fetchOne drv bc = .ok (some row, bc')) :
    drv.unread bc'.dataSource.driver < drv.unread bc.dataSource.driver ∨
      drv.unread bc'.dataSource.driver = drv.unread bc.dataSource.driver ∧
        bc'._lenRows - bc'._cur < bc._lenRows - bc._cur := by
  unfold _fetchOne at h
  split_ifs at h
  · split at h
    · cases h
    · cases h
    · next rev mid hget =>
      split at h
      · cases h
      · next filled hset =>
        left
        have hunread := getRowsEvent_unread hget
        rw [← (setRowsEventBuffer_rest hset).1] at hunread
        rw [(fetchFromBuffer_taken h).dataSource]
        exact hunread
  · right
    have htaken := fetchFromBuffer_taken h
    rw [htaken.dataSource]
    exact ⟨rfl, htaken.left⟩

theorem skipRows_startidx {start k : ℕ} (hbc : bc._startidx = k)
    (h : skipRows drv start k bc = .ok (false, bc')) : bc'._startidx = 0 := by
  induction k generalizing bc with
  | zero =>
    cases h
    exact hbc
  | succ k ih =>
    unfold skipRows at h
    dsimp only at h
    split at h
    · cases h
    · split_ifs at h
      · cases h
      · exact ih rfl h

/-- What a client may still hand out gets less with every row. -/
theorem fetchOne_less {row : BinlogRow} (h : fetchOne drv bc = .ok (some row, bc')) :
    bc'._startidx < bc._startidx ∨ bc'._startidx = bc._startidx ∧
      (drv.unread bc'.dataSource.driver < drv.unread bc.dataSource.driver ∨
        drv.unread bc'.dataSource.driver = drv.unread bc.dataSource.driver ∧
          bc'._lenRows - bc'._cur < bc._lenRows - bc._cur) := by
  unfold fetchOne at h
  cases hstart : bc._startidx with
  | zero =>
    rw [hstart] at h
    exact .inr ⟨(_fetchOne_startidx h).trans hstart, _fetchOne_less h⟩
  | succ k =>
    left
    split at h
    · cases h
    · cases h
    · next mid hskip =>
      rw [_fetchOne_startidx h, skipRows_startidx rfl hskip]
      exact Nat.succ_pos k

/-! ## The program -/

def DataSource.place (ds : DataSource σ) : Place := ⟨ds.logfile, ds.position, ds.index⟩

/-- The loop of `main`. Each row is freed when it has been printed, which is left out here. -/
def dumpRows (ft : FloatText) (drv : Driver σ) (bc : BinlogClient σ) :
    Except Fault (List UInt8 × BinlogClient σ) :=
  match _h : fetchOne drv bc with
  | .error e => .error e
  | .ok (none, bc) => .ok ([], bc)
  | .ok (some row, bc) => do
    let text ← printRow ft row bc.dataSource.place
    let (rest, bc) ← dumpRows ft drv bc
    .ok (text ++ rest, bc)
termination_by (bc._startidx, drv.unread bc.dataSource.driver, bc._lenRows - bc._cur)
decreasing_by
  rw [Prod.lex_def, Prod.lex_def]
  exact fetchOne_less _h

/-- What a process leaves behind. -/
structure Exit where
  code : ℤ
  stdout : List UInt8
  stderr : List UInt8
  deriving DecidableEq, Repr

def dumpClient (ft : FloatText) (drv : Driver σ) (bc : BinlogClient σ) : Except Fault Exit := do
  let (text, bc) ← dumpRows ft drv bc
  .ok ⟨0, text ++ if bc.err = 0 then [] else bc.errstr ++ ascii "\n", []⟩

/-- `main` of `bldump.c`. An argument vector without a name has a null pointer there. -/
def bldumpMain (ft : FloatText) (world : World) : List (List UInt8) → Except Fault Exit
  | [_, url] => do
    let client ← connectUrl world url 4 0 10
    match client with
    | .error text => .ok ⟨1, ascii "Error:" ++ text ++ ascii "\n", []⟩
    | .ok (.file bc) => dumpClient ft fileDriver bc
    | .ok (.server bc) => dumpClient ft netDriver bc
  | argv => .ok ⟨1, [], ascii "Usage:" ++ argv.headD (ascii "(null)") ++ ascii " <url>\n"⟩

/-! ## Fetching alone -/

/-- The rows, and where the client stands at each of them. -/
def fetchAll (drv : Driver σ) (bc : BinlogClient σ) :
    Except Fault (List (BinlogRow × Place) × BinlogClient σ) :=
  match _h : fetchOne drv bc with
  | .error e => .error e
  | .ok (none, bc) => .ok ([], bc)
  | .ok (some row, bc) => do
    let (rows, bc') ← fetchAll drv bc
    .ok ((row, bc.dataSource.place) :: rows, bc')
termination_by (bc._startidx, drv.unread bc.dataSource.driver, bc._lenRows - bc._cur)
decreasing_by
  rw [Prod.lex_def, Prod.lex_def]
  exact fetchOne_less _h

theorem fetchAll_end (h : fetchOne drv bc = .ok (none, bc')) : fetchAll drv bc = .ok ([], bc') := by
  rw [fetchAll]
  split <;> simp_all

theorem fetchAll_row {row : BinlogRow} {rows : List (BinlogRow × Place)} {last : BinlogClient σ}
    (h : fetchOne drv bc = .ok (some row, bc')) (hrest : fetchAll drv bc' = .ok (rows, last)) :
    fetchAll drv bc = .ok ((row, bc'.dataSource.place) :: rows, last) := by
  rw [fetchAll]
  split
  · simp_all
  · simp_all
  · next row' mid hfetch =>
    rw [h] at hfetch
    cases hfetch
    rw [ok_bind hrest]

theorem dumpRows_fault {e : Fault} (h : fetchOne drv bc = .error e) :
    dumpRows ft drv bc = .error e := by
  rw [dumpRows]
  split <;> simp_all

theorem dumpRows_end (h : fetchOne drv bc = .ok (none, bc')) :
    dumpRows ft drv bc = .ok ([], bc') := by
  rw [dumpRows]
  split <;> simp_all

theorem dumpRows_row {row : BinlogRow} {text : List UInt8}
    (h : fetchOne drv bc = .ok (some row, bc'))
    (htext : printRow ft row bc'.dataSource.place = .ok text) :
    dumpRows ft drv bc = dumpRows ft drv bc' >>= fun out => .ok (text ++ out.1, out.2) := by
  rw [dumpRows]
  split
  · simp_all
  · simp_all
  · next row' mid hfetch =>
    rw [h] at hfetch
    cases hfetch
    rw [ok_bind htext]

/-- The texts of some rows. -/
def Printed (ft : FloatText) : List (BinlogRow × Place) → List (List UInt8) → Prop :=
  List.Forall₂ fun row text => printRow ft row.1 row.2 = .ok text

/-! ## Rows that are fetched can be printed -/

/-- All rows in the array can be printed. -/
def ArrayPrints (_rows : Option (List (Option BinlogRow))) : Prop :=
  ∀ row, some row ∈ _rows.getD [] → row.Prints

theorem arrayPrints_replicate (n : ℕ) : ArrayPrints (some (List.replicate n none)) := by
  intro row hrow
  cases List.eq_of_mem_replicate hrow

theorem getRowsEvent_parsed {rev : RowsEvent} (h : getRowsEvent drv bc = .ok (some rev, bc')) :
    ∃ bl ev, parseRowsEvent bl ev = .ok rev := by
  fun_induction getRowsEvent drv bc with
  | case1 | case2 | case3 | case4 | case5 => cases h
  | case6 bc ev ds hget rev' bc'' hon =>
    cases h
    obtain ⟨bl, ds', -, -, hparse⟩ := onEvent_ok hon
    exact ⟨bl, ev, hparse rev rfl⟩
  | case7 bc ev ds hget bc'' hon ih => exact ih h

theorem copyRows_prints {rev : RowsEvent} (hrev : ∀ i row, eventRow rev i = .ok row → row.Prints)
    {k i : ℕ} {slots slots' : List (Option BinlogRow)}
    (hslots : ∀ row, some row ∈ slots → row.Prints) (h : copyRows rev k i slots = .ok slots') :
    ∀ row, some row ∈ slots' → row.Prints := by
  induction k generalizing i slots with
  | zero =>
    cases h
    exact hslots
  | succ k ih =>
    unfold copyRows at h
    cases hrow : eventRow rev i with
    | error e =>
      rw [hrow] at h
      cases h
    | ok row =>
      rw [hrow] at h
      dsimp only at h
      split_ifs at h
      apply ih _ h
      intro row' hrow'
      obtain hmem | heq := List.mem_or_eq_of_mem_set hrow'
      · exact hslots row' hmem
      · rw [Option.some.inj heq]
        exact hrev i row hrow

theorem setRowsEventBuffer_prints {rev : RowsEvent}
    (hrev : ∀ i row, eventRow rev i = .ok row → row.Prints) (hbc : ArrayPrints bc._rows)
    (h : setRowsEventBuffer bc rev = .ok bc') : ArrayPrints bc'._rows := by
  unfold setRowsEventBuffer at h
  dsimp only at h
  have hfresh := arrayPrints_replicate rev.nrows
  have hfirst : ArrayPrints (if bc._rows.isNone ∧ bc._lenRows < rev.nrows then
      some (List.replicate rev.nrows none) else bc._rows) := by
    split_ifs
    · exact hfresh
    · exact hbc
  generalize (if bc._rows.isNone ∧ bc._lenRows < rev.nrows then
      some (List.replicate rev.nrows none) else bc._rows) = first at h hfirst
  have hblock : ArrayPrints (if first.isSome ∧ bc._lenRows < rev.nrows then
      some (List.replicate rev.nrows none) else first) := by
    split_ifs
    · exact hfresh
    · exact hfirst
  generalize (if first.isSome ∧ bc._lenRows < rev.nrows then
      some (List.replicate rev.nrows none) else first) = block at h hblock
  cases block with
  | none =>
    dsimp only at h
    split_ifs at h
    cases h
    exact hblock
  | some slots =>
    dsimp only at h
    cases hcopy : copyRows rev rev.nrows 0 slots with
    | error e =>
      rw [hcopy] at h
      cases h
    | ok slots' =>
      rw [hcopy] at h
      cases h
      exact copyRows_prints hrev hblock hcopy

theorem fetchFromBuffer_prints {row : Option BinlogRow} (hbc : ArrayPrints bc._rows)
    (h : fetchFromBuffer bc = .ok (row, bc')) :
    ArrayPrints bc'._rows ∧ ∀ br, row = some br → br.Prints := by
  unfold fetchFromBuffer at h
  split_ifs at h
  · cases hrows : bc._rows with
    | none =>
      rw [hrows] at h
      cases h
    | some slots =>
      rw [hrows] at h hbc
      dsimp only at h
      split at h
      · next row' hget =>
        cases h
        refine ⟨hbc, fun br hbr => ?_⟩
        cases hbr
        exact hbc row' (List.mem_of_getElem? hget)
      · cases h
  · cases h
    exact ⟨hbc, fun br hbr => (by cases hbr)⟩

theorem _fetchOne_prints {row : Option BinlogRow} (hbc : ArrayPrints bc._rows)
    (h : _fetchOne drv bc = .ok (row, bc')) :
    ArrayPrints bc'._rows ∧ ∀ br, row = some br → br.Prints := by
  unfold _fetchOne at h
  split_ifs at h
  · cases hget : getRowsEvent drv bc with
    | error e =>
      rw [hget] at h
      cases h
    | ok out =>
      obtain ⟨answer, mid⟩ := out
      have hmid : ArrayPrints mid._rows := (getRowsEvent_buffer hget).1 ▸ hbc
      rw [hget] at h
      cases answer with
      | none =>
        cases h
        exact ⟨hmid, fun br hbr => (by cases hbr)⟩
      | some rev =>
        obtain ⟨bl, ev, hparse⟩ := getRowsEvent_parsed hget
        dsimp only at h
        cases hset : setRowsEventBuffer mid rev with
        | error e =>
          rw [hset] at h
          cases h
        | ok filled =>
          have hfilled := setRowsEventBuffer_prints
            (fun i row hrow => eventRow_prints hparse hrow) hmid hset
          rw [hset] at h
          have hnext : ArrayPrints filled.incrIndex._rows := hfilled
          exact fetchFromBuffer_prints hnext h
  · have hnext : ArrayPrints bc.incrIndex._rows := hbc
    exact fetchFromBuffer_prints hnext h

theorem skipRows_prints {start k : ℕ} {moved : Bool} (hbc : ArrayPrints bc._rows)
    (h : skipRows drv start k bc = .ok (moved, bc')) : ArrayPrints bc'._rows := by
  induction k generalizing bc with
  | zero =>
    cases h
    exact hbc
  | succ k ih =>
    unfold skipRows at h
    dsimp only at h
    cases hfetch : _fetchOne drv bc with
    | error e =>
      rw [hfetch] at h
      cases h
    | ok out =>
      obtain ⟨row, mid⟩ := out
      have hmid := (_fetchOne_prints hbc hfetch).1
      rw [hfetch] at h
      dsimp only at h
      split_ifs at h
      · cases h
        exact hmid
      · have hnext : ArrayPrints { mid with _startidx := k }._rows := hmid
        exact ih hnext h

theorem fetchOne_prints {row : Option BinlogRow} (hbc : ArrayPrints bc._rows)
    (h : fetchOne drv bc = .ok (row, bc')) :
    ArrayPrints bc'._rows ∧ ∀ br, row = some br → br.Prints := by
  unfold fetchOne at h
  cases hskip : skipRows drv bc._startidx bc._startidx bc with
  | error e =>
    rw [hskip] at h
    cases h
  | ok out =>
    obtain ⟨moved, mid⟩ := out
    have hmid := skipRows_prints hbc hskip
    rw [hskip] at h
    cases moved with
    | true =>
      cases h
      exact ⟨hmid, fun br hbr => (by cases hbr)⟩
    | false => exact _fetchOne_prints hmid h

/-! ## Printing adds no fault -/

theorem dumpRows_of_fetchAll (ft : FloatText) (hbc : ArrayPrints bc._rows) :
    (∀ e, fetchAll drv bc = .error e → dumpRows ft drv bc = .error e) ∧
    ∀ rows bc', fetchAll drv bc = .ok (rows, bc') → ∃ texts, Printed ft rows texts ∧
      dumpRows ft drv bc = .ok (texts.flatten, bc') := by
  fun_induction fetchAll drv bc with
  | case1 bc e hfetch =>
    refine ⟨fun e' he => ?_, fun rows bc' h => (by cases h)⟩
    cases he
    exact dumpRows_fault hfetch
  | case2 bc mid hfetch =>
    refine ⟨fun e he => (by cases he), fun rows bc' h => ?_⟩
    cases h
    exact ⟨[], .nil, dumpRows_end hfetch⟩
  | case3 bc row mid hfetch ih =>
    obtain ⟨hmid, hrow⟩ := fetchOne_prints hbc hfetch
    obtain ⟨text, htext⟩ := printRow_ok ft (hrow row rfl) mid.dataSource.place
    obtain ⟨hfault, hok⟩ := ih hmid
    rw [dumpRows_row hfetch htext]
    refine ⟨fun e he => ?_, fun rows bc' h => ?_⟩
    · cases hall : fetchAll drv mid with
      | error e' =>
        rw [hall] at he
        cases he
        exact error_bind (hfault _ hall)
      | ok out =>
        rw [hall] at he
        cases he
    · obtain ⟨⟨rows', last⟩, hall, heq⟩ := bind_ok_iff.mp h
      cases heq
      obtain ⟨texts, hprinted, hdump⟩ := hok _ _ hall
      exact ⟨text :: texts, .cons htext hprinted, ok_bind hdump⟩

/-- What is printed last. -/
def lastLine (bc : BinlogClient σ) : List UInt8 :=
  if bc.err = 0 then [] else bc.errstr ++ ascii "\n"

/-- The program faults as its fetching does, and else prints the rows that are fetched, one text for
each, and the error. -/
structure Dumps (ft : FloatText) (drv : Driver σ) (bc : BinlogClient σ) (out : Except Fault Exit) :
    Prop where
  fault : ∀ e, fetchAll drv bc = .error e → out = .error e
  exit : ∀ rows bc', fetchAll drv bc = .ok (rows, bc') → ∃ texts, Printed ft rows texts ∧
    out = .ok ⟨0, texts.flatten ++ lastLine bc', []⟩

theorem dumpClient_dumps (ft : FloatText) (drv : Driver σ) (hbc : ArrayPrints bc._rows) :
    Dumps ft drv bc (dumpClient ft drv bc) := by
  obtain ⟨hfault, hok⟩ : (∀ e, fetchAll drv bc = .error e → _) ∧ _ := dumpRows_of_fetchAll ft hbc
  constructor
  · intro e he
    exact error_bind (hfault e he)
  · intro rows bc' h
    obtain ⟨texts, hprinted, hdump⟩ := hok rows bc' h
    exact ⟨texts, hprinted, ok_bind hdump⟩

theorem arrayPrints_none : ArrayPrints none := by
  intro row hrow
  cases hrow

/-- There is no array of rows. -/
def Client.NoRows : Client → Prop
  | .file bc => bc._rows = none
  | .server bc => bc._rows = none

theorem connectDataSource_noRows {ds : Option (DataSource σ)} {position index : ℕ} {serverid : ℤ}
    (h : connectDataSource drv ds position index serverid = .ok (.ok bc)) : bc._rows = none := by
  cases ds with
  | none => cases h
  | some ds => exact (connectDataSource_ok h).1._rows

theorem connectUrl_noRows {world : World} {url : List UInt8} {position index : ℕ} {serverid : ℤ}
    {client : Client} (h : connectUrl world url position index serverid = .ok (.ok client)) :
    client.NoRows := by
  unfold connectUrl at h
  split_ifs at h
  · obtain ⟨_, -, h⟩ := bind_ok_iff.mp h
    obtain ⟨_, -, h⟩ := bind_ok_iff.mp h
    obtain ⟨_, hconnect, h⟩ := bind_ok_iff.mp h
    obtain ⟨bc, rfl, rfl⟩ := map_ok.mp (Except.ok.inj h)
    exact connectDataSource_noRows hconnect
  · obtain ⟨_, -, h⟩ := bind_ok_iff.mp h
    obtain ⟨_, -, h⟩ := bind_ok_iff.mp h
    obtain ⟨_, hconnect, h⟩ := bind_ok_iff.mp h
    obtain ⟨bc, rfl, rfl⟩ := map_ok.mp (Except.ok.inj h)
    exact connectDataSource_noRows hconnect
  · obtain ⟨_, hconnect, h⟩ := bind_ok_iff.mp h
    obtain ⟨bc, rfl, rfl⟩ := map_ok.mp (Except.ok.inj h)
    exact connectDataSource_noRows hconnect

/-- Whatever the address leads to, the program faults only in connecting and in fetching, and prints
all rows that are fetched. -/
theorem bldumpMain_dumps (ft : FloatText) (world : World) (argv0 url : List UInt8) :
    (∀ e, connectUrl world url 4 0 10 = .error e →
      bldumpMain ft world [argv0, url] = .error e) ∧
    (∀ text, connectUrl world url 4 0 10 = .ok (.error text) →
      bldumpMain ft world [argv0, url] = .ok ⟨1, ascii "Error:" ++ text ++ ascii "\n", []⟩) ∧
    (∀ bc, connectUrl world url 4 0 10 = .ok (.ok (.file bc)) →
      Dumps ft fileDriver bc (bldumpMain ft world [argv0, url])) ∧
    ∀ bc, connectUrl world url 4 0 10 = .ok (.ok (.server bc)) →
      Dumps ft netDriver bc (bldumpMain ft world [argv0, url]) := by
  unfold bldumpMain
  refine ⟨fun e he => error_bind he, fun text h => ok_bind h, fun bc h => ?_, fun bc h => ?_⟩
  · have hrows : bc._rows = none := connectUrl_noRows h
    dsimp only
    rw [ok_bind h]
    exact dumpClient_dumps ft fileDriver (hrows ▸ arrayPrints_none)
  · have hrows : bc._rows = none := connectUrl_noRows h
    dsimp only
    rw [ok_bind h]
    exact dumpClient_dumps ft netDriver (hrows ▸ arrayPrints_none)

end LibBinlog

import LibBinlog.RowProgress

/-!
# Rows that can be read

Reading a value fails for the metadata of some sets and decimals, whatever the value. So whether a
row can be read depends on the columns that have a value in it.
-/

namespace LibBinlog

open Machine Memory

variable {bl : Binlog} {fr : RowsFrame} {ev : Mem} {isnull isused : ℤ} {type : UInt8}
  {word k i : ℕ} {evcur : EventCursor}

/-- The metadata of a set or a decimal that leave `value2Cell` inside its blocks and tables. -/
def WordFits (type : UInt8) (word : ℕ) : Prop :=
  match switchType type word with
  | some .set => word &&& 0xFF ≤ 32
  | some .newdecimal => 0 < (word >>> 8) % 256 ∧ word &&& 0xFF ≤ (word >>> 8) % 256
  | _ => True

/-- Column `i` has a value in the image: it is used and not NULL. -/
def HasValue (ev : Mem) (isnull isused : ℤ) (i : ℕ) : Prop :=
  isSet ev isnull i = false ∧ isSet ev isused i = true

def ImageReadable (bl : Binlog) (fr : RowsFrame) (isused : ℤ) (evcur : EventCursor) : Prop :=
  ∀ i < fr.nfields, HasValue evcur.ev evcur.cur isused i →
    WordFits (bl.table.types.getD i 0) (bl.table.metas.getD i 0)

/-- The image of one row, or both. -/
def RowReadable (bl : Binlog) (fr : RowsFrame) (evcur : EventCursor) : Prop :=
  ImageReadable bl fr fr.isused evcur ∧ (fr.type = EventType.updateRows →
    ImageReadable bl fr fr.isused_u (evcur.advance (imageSize bl fr fr.isused evcur)))

theorem newdecimalCell_ok_iff : (∃ out, newdecimalCell word evcur = .ok out) ↔
    0 < (word >>> 8) % 256 ∧ word &&& 0xFF ≤ (word >>> 8) % 256 := by
  rw [newdecimalCell]
  split_ifs with hword
  · refine ⟨fun _ => hword, fun _ => ?_⟩
    split <;> exact ⟨_, rfl⟩
  · constructor
    · rintro ⟨out, hfalse⟩
      exact hfalse.elim
    · exact fun h => absurd h hword

theorem setCell_ok_iff : (∃ out, setCell word evcur = .ok out) ↔ word &&& 0xFF ≤ 32 := by
  rw [setCell]
  split_ifs with hword
  · exact ⟨fun _ => hword, fun _ => ⟨_, rfl⟩⟩
  · constructor
    · rintro ⟨out, hfalse⟩
      exact hfalse.elim
    · exact fun h => absurd h hword

theorem value2Cell_ok_iff :
    (∃ out, value2Cell evcur type word = .ok out) ↔ WordFits type word := by
  cases hty : switchType type word with
  | none =>
    rw [value2Cell_none hty, WordFits, hty]
    exact ⟨fun _ => trivial, fun _ => ⟨_, rfl⟩⟩
  | some t =>
    rw [WordFits, hty]
    by_cases hstring : t = .string
    · subst hstring
      rw [value2Cell_string hty]
      exact ⟨fun _ => trivial, fun _ => ⟨_, rfl⟩⟩
    rw [value2Cell_switch hty hstring]
    cases t with
    | newdecimal =>
      rw [value2Cell_decimal]
      exact newdecimalCell_ok_iff
    | set => exact setCell_ok_iff
    | string => exact absurd rfl hstring
    | _ => exact ⟨fun _ => trivial, fun _ => ⟨_, rfl⟩⟩

theorem readCell_ok_iff : (∃ out, readCell bl isnull isused i evcur = .ok out) ↔
    (HasValue evcur.ev isnull isused i →
      WordFits (bl.table.types.getD i 0) (bl.table.metas.getD i 0)) := by
  rw [readCell, HasValue]
  split_ifs with hvalue
  · rw [value2Cell_ok_iff]
    rw [Bool.and_eq_true, Bool.not_eq_true'] at hvalue
    exact ⟨fun h _ => h, fun h => h hvalue⟩
  · rw [Bool.and_eq_true, Bool.not_eq_true'] at hvalue
    exact ⟨fun _ h => absurd h hvalue, fun _ => ⟨_, rfl⟩⟩

/-- The bitmaps stay where they are, so that every column is judged at the start of the image. -/
theorem readCells_ok_iff (hcur : evcur.InInt) :
    (∃ out, readCells bl isnull isused k i evcur = .ok out) ↔
      ∀ j, i ≤ j → j < i + k → HasValue evcur.ev isnull isused j →
        WordFits (bl.table.types.getD j 0) (bl.table.metas.getD j 0) := by
  induction k generalizing i evcur with
  | zero => exact ⟨fun _ j hij hj => by omega, fun _ => ⟨_, rfl⟩⟩
  | succ k ih =>
    rw [readCells_succ]
    cases hcell : readCell bl isnull isused i evcur with
    | error e =>
      constructor
      · rintro ⟨out, hout⟩
        cases hout
      · intro h
        obtain ⟨out, hout⟩ := readCell_ok_iff.mpr (h i le_rfl (by omega))
        cases hcell.symm.trans hout
    | ok out =>
      obtain ⟨cell, mid⟩ := out
      have hfits := readCell_ok_iff.mp ⟨_, hcell⟩
      have hmid := readCell_steps hcur hcell
      have hrest := ih (i := i + 1) (hmid ▸ inInt_advance _ _)
      rw [show mid.ev = evcur.ev by rw [hmid]; rfl] at hrest
      constructor
      · rintro ⟨out, hout⟩ j hij hj
        obtain ⟨rest, hread, -⟩ := Calls.map_ok.mp hout
        rcases hij.eq_or_lt with rfl | hlt
        · exact hfits
        · exact hrest.mp ⟨rest, hread⟩ j hlt (by omega)
      · intro h
        obtain ⟨rest, hread⟩ := hrest.mpr fun j hij hj => h j (by omega) (by omega)
        exact ⟨_, Calls.map_ok.mpr ⟨rest, hread, rfl⟩⟩

theorem readImage_ok_iff :
    (∃ out, readImage bl fr isused evcur = .ok out) ↔ ImageReadable bl fr isused evcur := by
  rw [readImage, readCells_ok_iff (inInt_toInt32 _ _)]
  exact ⟨fun h i hi => h i (Nat.zero_le i) (by omega), fun h i _ hi => h i (by omega)⟩

theorem readRow_ok_iff : (∃ out, readRow bl fr evcur = .ok out) ↔ RowReadable bl fr evcur := by
  rw [readRow, RowReadable, ← readImage_ok_iff]
  cases hfirst : readImage bl fr fr.isused evcur with
  | error e =>
    constructor
    · rintro ⟨out, hout⟩
      cases hout
    · rintro ⟨⟨out, hout⟩, -⟩
      cases hout
  | ok out =>
    obtain ⟨cells, mid⟩ := out
    dsimp only
    rw [← readImage_steps hfirst, ← readImage_ok_iff]
    split_ifs with hupdate
    · cases hsecond : readImage bl fr fr.isused_u mid with
      | error e =>
        constructor
        · rintro ⟨out, hout⟩
          cases hout
        · rintro ⟨-, hboth⟩
          obtain ⟨out, hout⟩ := hboth hupdate
          cases hout
      | ok out' => exact ⟨fun _ => ⟨⟨_, rfl⟩, fun _ => ⟨_, rfl⟩⟩, fun _ => ⟨_, rfl⟩⟩
    · exact ⟨fun _ => ⟨⟨_, rfl⟩, fun h => absurd h hupdate⟩, fun _ => ⟨_, rfl⟩⟩

end LibBinlog

import NanoTick.Backfill.Archive
import NanoTick.Backfill.ThreeSources
import Mathlib.Tactic

set_option autoImplicit false

/-! # The chunks of the archive, column by column

`iter_trade_chunks` fills eight columns, counts the rows by hand and starts new columns with every
chunk it yields. `Cols.iterTradeChunks` is that loop; `iterTradeChunks` is its row view. The two
are the same but for the transposition (`iterTradeChunks_ofRows`): a round that does not raise
appends one value to each column.

So what is true of the chunks of rows is true of the columns: their sizes (`chunksFrom_sizes`) and
what they are together (`chunksFrom_rows`).
-/

namespace NanoTick

open Python Raising

/-! ## Columns -/

/-- A column-oriented chunk (`COLUMNS`). -/
structure Cols where
  time : List Int
  sym : List Json
  venue : List Json
  tradeID : List Int
  price : List PyNum
  qty : List PyNum
  eventTime : List Int
  buyerMaker : List Bool

namespace Cols

/-- `_empty_cols`. -/
def emptyCols : Cols := ⟨[], [], [], [], [], [], [], []⟩

/-- The appends of `iter_trade_chunks` for one row, in its order; none for a blank line or a
header. -/
def addRow (o : Outside) (digit : Char → Bool) (symbol : Sym) (venue : String) (cols : Cols)
    (row : List (List Char)) : Except PyErr (Option Cols) :=
  match row with
  | [] => .ok none
  | id :: _ =>
      if isDigits digit (id.dropWhile (· = '-')) then do
        let time ← column row timeColumn >>= o.int
        let ts := toMillis time
        let cols := { cols with
          time := cols.time ++ [ts], eventTime := cols.eventTime ++ [ts]
          sym := cols.sym ++ [Json.str symbol], venue := cols.venue ++ [Json.str venue] }
        let tradeId ← column row idColumn >>= o.int
        let cols := { cols with tradeID := cols.tradeID ++ [tradeId] }
        let price ← column row priceColumn >>= o.float
        let cols := { cols with price := cols.price ++ [price] }
        let qty ← column row qtyColumn >>= o.float
        let cols := { cols with qty := cols.qty ++ [qty] }
        let maker ← match row[makerColumn]? with
          | some f => .ok (saysTrue f)
          | none => .error .indexError
        return some { cols with buyerMaker := cols.buyerMaker ++ [maker] }
      else .ok none

/-- The loop over the rows: `cols` is the chunk begun, of `n` rows. -/
def chunksFrom (o : Outside) (digit : Char → Bool) (symbol : Sym) (venue : String)
    (chunkSize : Int) (readable : Bool) :
    Cols → Nat → List (List (List Char)) → List Cols × Option PyErr
  | cols, n, [] =>
      if readable then (if n = 0 then [] else [cols], none) else ([], some .csvError)
  | cols, n, row :: rows =>
      match addRow o digit symbol venue cols row with
      | .error e => ([], some e)
      | .ok none => chunksFrom o digit symbol venue chunkSize readable cols n rows
      | .ok (some cols) =>
          if chunkSize ≤ (n + 1 : Nat) then
            let (chunks, e) :=
              chunksFrom o digit symbol venue chunkSize readable emptyCols 0 rows
            (cols :: chunks, e)
          else chunksFrom o digit symbol venue chunkSize readable cols (n + 1) rows

/-- `iter_trade_chunks`: the chunks yielded, and the exception that ends them. -/
def iterTradeChunks (o : Outside) (digit : Char → Bool) (zip : List ZipEntry) (symbol : Sym)
    (venue : String) (chunkSize : Int) : List Cols × Option PyErr :=
  match zip.filter ZipEntry.isCsv with
  | [e] =>
      let (rows, readable) := Csv.records .start (Csv.lines (Csv.universalNewlines e.text))
      chunksFrom o digit symbol venue chunkSize readable emptyCols 0 rows
  | _ => ([], some .valueError)

/-- The columns of some rows. -/
def ofRows (l : List TickRow) : Cols where
  time := l.map (·.time)
  sym := l.map (·.sym)
  venue := l.map (·.venue)
  tradeID := l.map (·.tradeID)
  price := l.map (·.price)
  qty := l.map (·.qty)
  eventTime := l.map (·.eventTime)
  buyerMaker := l.map (·.buyerMaker)

/-- All eight columns have `n` values. -/
structure Even (c : Cols) (n : Nat) : Prop where
  time : c.time.length = n
  sym : c.sym.length = n
  venue : c.venue.length = n
  tradeID : c.tradeID.length = n
  price : c.price.length = n
  qty : c.qty.length = n
  eventTime : c.eventTime.length = n
  buyerMaker : c.buyerMaker.length = n

/-- The chunks one after the other, column by column. -/
def concat (cs : List Cols) : Cols where
  time := cs.flatMap (·.time)
  sym := cs.flatMap (·.sym)
  venue := cs.flatMap (·.venue)
  tradeID := cs.flatMap (·.tradeID)
  price := cs.flatMap (·.price)
  qty := cs.flatMap (·.qty)
  eventTime := cs.flatMap (·.eventTime)
  buyerMaker := cs.flatMap (·.buyerMaker)

theorem even_ofRows (l : List TickRow) : (ofRows l).Even l.length := by
  constructor
  all_goals exact List.length_map _

theorem concat_ofRows (ls : List (List TickRow)) :
    concat (ls.map ofRows) = ofRows ls.flatten := by
  have hcol : ∀ {β : Type} (col : Cols → List β) (f : TickRow → β),
      (∀ l, col (ofRows l) = l.map f) → (ls.map ofRows).flatMap col = ls.flatten.map f := by
    intro β col f hf
    rw [List.flatMap_map, List.map_flatten, List.flatMap_def]
    exact congrArg List.flatten (List.map_congr_left (fun l _ => hf l))
  rw [concat, ofRows, hcol _ (·.time) (fun _ => rfl), hcol _ (·.sym) (fun _ => rfl),
    hcol _ (·.venue) (fun _ => rfl), hcol _ (·.tradeID) (fun _ => rfl),
    hcol _ (·.price) (fun _ => rfl), hcol _ (·.qty) (fun _ => rfl),
    hcol _ (·.eventTime) (fun _ => rfl), hcol _ (·.buyerMaker) (fun _ => rfl)]

/-! ## The row view -/

section

variable {o : Outside} {digit : Char → Bool} {symbol : Sym} {venue : String}

/-- A round appends one row, or raises, or skips, as the row view has it. -/
theorem addRow_ofRows (l : List TickRow) (row : List (List Char)) :
    addRow o digit symbol venue (ofRows l) row
      = (archiveRow o digit symbol venue row).map (Option.map (fun t => ofRows (l ++ [t]))) := by
  cases row with
  | nil => rfl
  | cons id fs =>
      unfold addRow archiveRow
      dsimp only
      split
      · -- the five conversions, in the order of the source
        cases column (id :: fs) timeColumn >>= o.int with
        | error e => rfl
        | ok time =>
            cases column (id :: fs) idColumn >>= o.int with
            | error e => rfl
            | ok tradeId =>
                cases column (id :: fs) priceColumn >>= o.float with
                | error e => rfl
                | ok price =>
                    cases column (id :: fs) qtyColumn >>= o.float with
                    | error e => rfl
                    | ok qty =>
                        cases (id :: fs)[makerColumn]? with
                        | none => rfl
                        | some f =>
                            show Except.ok (some _) = Except.ok (some (ofRows _))
                            simp [ofRows]
      · rfl

/-- **The loop** over columns is the loop over rows. -/
theorem chunksFrom_ofRows (chunkSize : Int) (readable : Bool) (rows : List (List (List Char)))
    (l : List TickRow) :
    chunksFrom o digit symbol venue chunkSize readable (ofRows l) l.length rows
      = ((NanoTick.chunksFrom o digit symbol venue chunkSize readable l rows).1.map ofRows,
        (NanoTick.chunksFrom o digit symbol venue chunkSize readable l rows).2) := by
  induction rows generalizing l with
  | nil =>
      unfold chunksFrom NanoTick.chunksFrom
      cases readable with
      | false => rfl
      | true =>
          cases l with
          | nil => rfl
          | cons t l => rfl
  | cons row rows ih =>
      unfold chunksFrom NanoTick.chunksFrom
      rw [addRow_ofRows]
      cases archiveRow o digit symbol venue row with
      | error e => rfl
      | ok r =>
          cases r with
          | none => exact ih l
          | some t =>
              have hlen : (l ++ [t]).length = l.length + 1 := by simp
              have hnew := ih (l ++ [t])
              have hempty : chunksFrom o digit symbol venue chunkSize readable emptyCols 0 rows
                  = _ := ih []
              simp only [Except.map, Option.map_some, hlen, hempty] at hnew ⊢
              split
              · rfl
              · exact hnew

theorem iterTradeChunks_ofRows (o : Outside) (digit : Char → Bool) (zip : List ZipEntry)
    (symbol : Sym) (venue : String) (chunkSize : Int) :
    iterTradeChunks o digit zip symbol venue chunkSize
      = ((NanoTick.iterTradeChunks o digit zip symbol venue chunkSize).1.map ofRows,
        (NanoTick.iterTradeChunks o digit zip symbol venue chunkSize).2) := by
  unfold iterTradeChunks NanoTick.iterTradeChunks
  generalize zip.filter ZipEntry.isCsv = files
  cases files with
  | nil => rfl
  | cons e rest =>
      cases rest with
      | nil => exact chunksFrom_ofRows chunkSize _ _ []
      | cons e' rest => rfl

/-! ## Sizes -/

/-- **The sizes of the chunks**: none is empty or too long, and only the last may be short. -/
theorem chunksFrom_sizes (o : Outside) (digit : Char → Bool) (symbol : Sym) (venue : String)
    {chunkSize : Int} (hsize : 1 ≤ chunkSize) (readable : Bool) (rows : List (List (List Char)))
    (l : List TickRow) (hl : (l.length : Int) < chunkSize) :
    (∀ c ∈ (NanoTick.chunksFrom o digit symbol venue chunkSize readable l rows).1,
        c ≠ [] ∧ (c.length : Int) ≤ chunkSize)
      ∧ ∀ c ∈ (NanoTick.chunksFrom o digit symbol venue chunkSize readable l rows).1.dropLast,
        (c.length : Int) = chunkSize := by
  induction rows generalizing l with
  | nil =>
      unfold NanoTick.chunksFrom
      cases readable with
      | false => simp
      | true =>
          cases l with
          | nil => simp
          | cons t l => simpa using hl.le
  | cons row rows ih =>
      unfold NanoTick.chunksFrom
      cases archiveRow o digit symbol venue row with
      | error e => simp
      | ok r =>
          cases r with
          | none => exact ih l hl
          | some t =>
              have hlen : (l ++ [t]).length = l.length + 1 := by simp
              dsimp only
              split
              · rename_i hfull
                obtain ⟨hall, hlast⟩ := ih [] (by rw [List.length_nil]; omega)
                have hexact : ((l ++ [t]).length : Int) = chunkSize := by omega
                refine ⟨List.forall_mem_cons.mpr ⟨⟨by simp, hexact.le⟩, hall⟩, fun c hc => ?_⟩
                by_cases hrest :
                    (NanoTick.chunksFrom o digit symbol venue chunkSize readable [] rows).1 = []
                · rw [hrest] at hc
                  simp at hc
                · rw [List.dropLast_cons_of_ne_nil hrest] at hc
                  rcases List.mem_cons.mp hc with rfl | hc
                  · exact hexact
                  · exact hlast c hc
              · exact ih (l ++ [t]) (by omega)

/-! ## The data rows -/

/-- The row is neither a blank line nor a header. -/
def isDataRow (digit : Char → Bool) (row : List (List Char)) : Bool :=
  match row with
  | [] => false
  | id :: _ => isDigits digit (id.dropWhile (· = '-'))

/-- The fields that are read are there, and `int` and `float` accept them. -/
structure WellFormed (o : Outside) (row : List (List Char)) : Prop where
  time : Succeeds (column row timeColumn >>= o.int)
  id : Succeeds (column row idColumn >>= o.int)
  price : Succeeds (column row priceColumn >>= o.float)
  qty : Succeeds (column row qtyColumn >>= o.float)
  maker : makerColumn < row.length

theorem archiveRow_of_not_dataRow {row : List (List Char)} (h : isDataRow digit row = false) :
    archiveRow o digit symbol venue row = .ok none := by
  cases row with
  | nil => rfl
  | cons id fs =>
      have hid : isDigits digit (id.dropWhile (· = '-')) = false := h
      unfold archiveRow
      dsimp only
      rw [hid, if_neg Bool.false_ne_true]

theorem archiveRow_of_wellFormed {row : List (List Char)} (h : isDataRow digit row = true)
    (hrow : WellFormed o row) : ∃ t, archiveRow o digit symbol venue row = .ok (some t) := by
  cases row with
  | nil => cases h
  | cons id fs =>
      have hid : isDigits digit (id.dropWhile (· = '-')) = true := h
      obtain ⟨time, htime⟩ := hrow.time
      obtain ⟨tradeId, hid'⟩ := hrow.id
      obtain ⟨price, hprice⟩ := hrow.price
      obtain ⟨qty, hqty⟩ := hrow.qty
      have hmaker := List.getElem?_eq_getElem hrow.maker
      unfold archiveRow
      dsimp only
      rw [hid, if_pos rfl, htime, hid', hprice, hqty, hmaker]
      exact ⟨_, rfl⟩

/-- The row of a line, where there is one. -/
def rowOf (o : Outside) (digit : Char → Bool) (symbol : Sym) (venue : String)
    (row : List (List Char)) : Option TickRow :=
  match archiveRow o digit symbol venue row with
  | .ok r => r
  | .error _ => none

/-- **Row by row**: the data rows convert to the rows that the chunks are made of. -/
theorem mapM_dataRows (symbol : Sym) (venue : String) {rows : List (List (List Char))}
    (hrows : ∀ row ∈ rows, isDataRow digit row = true → WellFormed o row) :
    (∀ row ∈ rows, archiveRow o digit symbol venue row = .ok (rowOf o digit symbol venue row))
      ∧ (rows.filter (isDataRow digit)).mapM (archiveRow o digit symbol venue)
        = .ok ((rows.filterMap (rowOf o digit symbol venue)).map some) := by
  induction rows with
  | nil => exact ⟨by simp, rfl⟩
  | cons row rows ih =>
      obtain ⟨hrow, hrest⟩ := List.forall_mem_cons.mp hrows
      obtain ⟨hall, hmap⟩ := ih hrest
      cases hdata : isDataRow digit row with
      | false =>
          have hskip : archiveRow o digit symbol venue row = .ok none :=
            archiveRow_of_not_dataRow hdata
          have hnone : rowOf o digit symbol venue row = none := by rw [rowOf, hskip]
          refine ⟨List.forall_mem_cons.mpr ⟨by rw [hskip, hnone], hall⟩, ?_⟩
          rw [List.filter_cons_of_neg (by simp [hdata]), List.filterMap_cons_none hnone]
          exact hmap
      | true =>
          obtain ⟨t, ht⟩ : ∃ t, archiveRow o digit symbol venue row = .ok (some t) :=
            archiveRow_of_wellFormed hdata (hrow hdata)
          have hsome : rowOf o digit symbol venue row = some t := by rw [rowOf, ht]
          refine ⟨List.forall_mem_cons.mpr ⟨by rw [ht, hsome], hall⟩, ?_⟩
          rw [List.filter_cons_of_pos hdata, List.filterMap_cons_some hsome, List.mapM_cons]
          exact bind_eq_ok.mpr ⟨_, ht, bind_eq_ok.mpr ⟨_, hmap, rfl⟩⟩

/-! ## Insertion -/

/-- The tables of some chunks have as many rows as the chunks, when each has as many as every
column of its chunk. -/
theorem sum_tables {table : Cols → Except PyErr (List Trade)}
    (htable : ∀ cols n t, cols.Even n → table cols = .ok t → t.length = n)
    {ls : List (List TickRow)} {tables : List (List Trade)}
    (h : (ls.map ofRows).mapM table = .ok tables) :
    (tables.map List.length).sum = ls.flatten.length := by
  induction ls generalizing tables with
  | nil =>
      cases h
      rfl
  | cons l ls ih =>
      rw [List.map_cons, List.mapM_cons] at h
      obtain ⟨t, ht, h⟩ := bind_eq_ok.mp h
      obtain ⟨rest, hrest, h⟩ := bind_eq_ok.mp h
      cases h
      rw [List.map_cons, List.sum_cons, List.flatten_cons, List.length_append, ih hrest,
        htable _ _ t (even_ofRows l) ht]

/-- **Chunking loses and repeats nothing.** For an archive whose rows the CSV reader reads, with
blank lines and headers anywhere and otherwise well-formed rows, at every chunk size: no chunk is
empty, all but the last have as many rows as the chunk size, the columns of a chunk are of one
length, and together the chunks are the data rows, converted one by one in file order. `table`
makes the table of a chunk; inserted one after the other, the tables are reported by
`run_backfill` as as many rows as there are data rows. -/
theorem archive_chunks (o : Outside) (digit : Char → Bool) (symbol : Sym) (venue : String)
    (zip : List ZipEntry) (file : ZipEntry) (hzip : zip.filter ZipEntry.isCsv = [file])
    (rows : List (List (List Char)))
    (hread : Csv.records .start (Csv.lines (Csv.universalNewlines file.text)) = (rows, true))
    (hrows : ∀ row ∈ rows, isDataRow digit row = true → WellFormed o row)
    (table : Cols → Except PyErr (List Trade))
    (htable : ∀ cols n t, cols.Even n → table cols = .ok t → t.length = n) :
    ∃ ts, (rows.filter (isDataRow digit)).mapM (archiveRow o digit symbol venue)
          = .ok (ts.map some)
      ∧ ∀ chunkSize : Int, 1 ≤ chunkSize →
        ∃ chunks, iterTradeChunks o digit zip symbol venue chunkSize = (chunks, none)
          ∧ (∀ c ∈ chunks, ∃ n : Nat, 1 ≤ n ∧ (n : Int) ≤ chunkSize ∧ c.Even n)
          ∧ (∀ c ∈ chunks.dropLast, c.Even chunkSize.toNat)
          ∧ concat chunks = ofRows ts
          ∧ ∀ (p : DayProgress) (tables : List (List Trade)), chunks.mapM table = .ok tables →
            (backfillSymbol p (.chunks tables false)).summary.rows
              = p.summary.rows + (rows.filter (isDataRow digit)).length := by
  obtain ⟨hall, hmap⟩ := mapM_dataRows symbol venue hrows
  refine ⟨_, hmap, fun chunkSize hsize => ?_⟩
  have hloop : NanoTick.iterTradeChunks o digit zip symbol venue chunkSize
      = NanoTick.chunksFrom o digit symbol venue chunkSize true [] rows := by
    unfold NanoTick.iterTradeChunks
    rw [hzip]
    dsimp only
    rw [hread]
  have hcols := iterTradeChunks_ofRows o digit zip symbol venue chunkSize
  obtain ⟨hnone, hflat⟩ :
      (NanoTick.chunksFrom o digit symbol venue chunkSize true [] rows).2 = none
        ∧ (NanoTick.chunksFrom o digit symbol venue chunkSize true [] rows).1.flatten
          = [] ++ rows.filterMap (rowOf o digit symbol venue) := chunksFrom_rows hall []
  obtain ⟨hsizes, hlast⟩ := chunksFrom_sizes o digit symbol venue hsize true rows []
    (by rw [List.length_nil]; omega)
  rw [List.nil_append] at hflat
  rw [hloop, hnone] at hcols
  refine ⟨_, hcols, fun c hc => ?_, fun c hc => ?_, ?_, fun p tables htables => ?_⟩
  · obtain ⟨l, hl, rfl⟩ := List.mem_map.mp hc
    obtain ⟨hne, hle⟩ := hsizes l hl
    exact ⟨l.length, List.length_pos_iff.mpr hne, hle, even_ofRows l⟩
  · rw [← List.map_dropLast] at hc
    obtain ⟨l, hl, rfl⟩ := List.mem_map.mp hc
    have hlen : l.length = chunkSize.toNat := by
      have hexact := hlast l hl
      omega
    exact hlen ▸ even_ofRows l
  · rw [concat_ofRows, hflat]
  · have hcount : (rows.filterMap (rowOf o digit symbol venue)).length
        = (rows.filter (isDataRow digit)).length := by
      rw [← length_of_mapM hmap, List.length_map]
    show p.summary.rows + (tables.map List.length).sum = _
    rw [sum_tables htable htables, hflat, hcount]

end

/-- A file with a header, two trades and a blank line between them. -/
def fileTwo : ZipEntry :=
  ⟨"BTCUSDT-trades.csv",
    "id,price\n7,1.5,2,3.0,1786492800239,true,true\n\n8,2,2,4,1786492800240,false,true\n".toList⟩

/-- What the CSV reader reads of it. -/
def rowsTwo : List (List (List Char)) :=
  [["id".toList, "price".toList],
    ["7".toList, "1.5".toList, "2".toList, "3.0".toList, "1786492800239".toList, "true".toList,
      "true".toList],
    [],
    ["8".toList, "2".toList, "2".toList, "4".toList, "1786492800240".toList, "false".toList,
      "true".toList]]

/-- A table made of the columns of a chunk, for texts and numbers of the line. -/
def tableOf (cols : Cols) : Except PyErr (List Trade) :=
  let text : Json → String := fun j =>
    match j with
    | .str s => s
    | _ => ""
  let number : PyNum → ℚ := fun n =>
    match n with
    | .rat q => q
    | _ => 0
  .ok ((List.range cols.time.length).map (fun i => {
    time := cols.time.getD i 0, sym := text (cols.sym.getD i .null)
    venue := text (cols.venue.getD i .null), tradeID := cols.tradeID.getD i 0
    price := number (cols.price.getD i .nan), qty := number (cols.qty.getD i .nan)
    eventTime := cols.eventTime.getD i 0, buyerMaker := cols.buyerMaker.getD i false }))

/-- Chunks of one row each, and two rows reported. -/
theorem archive_chunks_two : ∃ ts, (rowsTwo.filter (isDataRow Char.isDigit)).mapM
      (archiveRow smallLibrary Char.isDigit "BTCUSDT" "binance") = .ok (ts.map some)
    ∧ ∃ chunks, iterTradeChunks smallLibrary Char.isDigit [fileTwo] "BTCUSDT" "binance" 1
        = (chunks, none)
      ∧ (∀ c ∈ chunks.dropLast, c.Even 1)
      ∧ concat chunks = ofRows ts
      ∧ ∀ (p : DayProgress) (tables : List (List Trade)), chunks.mapM tableOf = .ok tables →
        (backfillSymbol p (.chunks tables false)).summary.rows = p.summary.rows + 2 := by
  have hread : Csv.records .start (Csv.lines (Csv.universalNewlines fileTwo.text))
      = (rowsTwo, true) := by decide +kernel
  have hint : ∀ (n : Int) {f : Except PyErr Json}, n.natAbs < 10 ^ 20 → f = .ok (.str n.repr) →
      ∃ k, f >>= smallLibrary.int = .ok k := fun n f hn hf =>
    ⟨n, bind_eq_ok.mpr ⟨_, hf, int_repr smallLibrary_documented (convertible_of_lt hn)⟩⟩
  have hrows : ∀ row ∈ rowsTwo, isDataRow Char.isDigit row = true
      → WellFormed smallLibrary row := by
    simp only [rowsTwo, List.forall_mem_cons]
    refine ⟨fun h => ?_, fun _ => ?_, fun h => ?_, fun _ => ?_, by simp⟩
    · cases h
    · exact ⟨hint 1786492800239 (by decide) rfl, hint 7 (by decide) rfl, ⟨_, rfl⟩, ⟨_, rfl⟩,
        by decide⟩
    · cases h
    · exact ⟨hint 1786492800240 (by decide) rfl, hint 8 (by decide) rfl, ⟨_, rfl⟩, ⟨_, rfl⟩,
        by decide⟩
  obtain ⟨ts, hts, hall⟩ := archive_chunks smallLibrary Char.isDigit "BTCUSDT" "binance"
    [fileTwo] fileTwo rfl rowsTwo hread hrows tableOf
    (fun cols n t heven ht => by
      cases ht
      rw [List.length_map, List.length_range, heven.time])
  obtain ⟨chunks, hchunks, -, hlast, hconcat, hinsert⟩ := hall 1 (le_refl 1)
  exact ⟨ts, hts, chunks, hchunks, hlast, hconcat, hinsert⟩

end Cols

end NanoTick

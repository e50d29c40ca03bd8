import NanoTick.Backfill.Sources
import Mathlib

set_option autoImplicit false

/-! # Three sources, one row

The archive in any layout, the answer of REST and the published messages of the same trades make
the same columns (`sources_agree`). A file is read back row by row by the CSV library; an empty
row and one whose first field has no digits make no row of their own; and the chunks, whatever
their size, are the rows together.
-/

namespace NanoTick

open Python Raising

/-! ## The chunks -/

/-- **The chunks together** are the rows, whatever their size, when every row is read. -/
theorem chunksFrom_rows {o : Outside} {digit : Char → Bool} {symbol : Sym} {venue : String}
    {chunkSize : Int} {f : List (List Char) → Option TickRow} {rows : List (List (List Char))}
    (hrows : ∀ row ∈ rows, archiveRow o digit symbol venue row = .ok (f row))
    (cols : List TickRow) :
    (chunksFrom o digit symbol venue chunkSize true cols rows).2 = none
      ∧ (chunksFrom o digit symbol venue chunkSize true cols rows).1.flatten
        = cols ++ rows.filterMap f := by
  induction rows generalizing cols with
  | nil =>
      unfold chunksFrom
      rw [if_pos rfl]
      refine ⟨rfl, ?_⟩
      cases cols with
      | nil => rfl
      | cons t cols => simp
  | cons row rows ih =>
      obtain ⟨hrow, hrest⟩ := List.forall_mem_cons.mp hrows
      unfold chunksFrom
      rw [hrow]
      cases hf : f row with
      | none =>
          rw [List.filterMap_cons_none hf]
          exact ih hrest cols
      | some t =>
          rw [List.filterMap_cons_some hf]
          dsimp only
          split
          · obtain ⟨hnone, hflat⟩ := ih hrest []
            refine ⟨hnone, ?_⟩
            rw [List.flatten_cons, hflat, List.nil_append, List.append_assoc]
            rfl
          · obtain ⟨hnone, hflat⟩ := ih hrest (cols ++ [t])
            exact ⟨hnone, by rw [hflat, List.append_assoc]; rfl⟩

section

variable {o : Outside} {digit : Char → Bool} {wire : Json → Except PyErr Json}
  (h : Documented o digit wire)

include h

theorem archiveRow_line (l : ArchiveLine) (symbol : Sym) :
    archiveRow o digit symbol "binance" l.fields
      = .ok (l.trade?.map (fun t => t.row o symbol t.time)) := by
  cases l with
  | header => exact archiveRow_skipped h rfl symbol "binance"
  | blank n => exact archiveRow_skipped h rfl symbol "binance"
  | trade micros capital t => exact archiveRow_trade h micros capital t symbol

/-- **The archive** yields the rows of its trades, in chunks of any size. -/
theorem iterTradeChunks_rows {zip : List ZipEntry} {name : String} {file : List ArchiveLine}
    (hzip : zip.filter ZipEntry.isCsv = [⟨name, archiveText file⟩]) (symbol : Sym)
    (chunkSize : Int) : ∃ chunks, iterTradeChunks o digit zip symbol "binance" chunkSize
        = (chunks, none)
      ∧ chunks.flatten = (file.filterMap ArchiveLine.trade?).map
          (fun t => t.row o symbol t.time) := by
  have hplain : ∀ fs ∈ file.map ArchiveLine.fields, ∀ f ∈ fs, Csv.Plain f := by
    intro fs hfs
    obtain ⟨l, -, rfl⟩ := List.mem_map.mp hfs
    exact plain_fields l
  obtain ⟨rs, hrs, hfilter⟩ := Csv.records_fileText hplain
  let f : List (List Char) → Option TickRow := fun row =>
    match archiveRow o digit symbol "binance" row with
    | .ok r => r
    | .error _ => none
  have hline : ∀ l : ArchiveLine, f l.fields = l.trade?.map (fun t => t.row o symbol t.time) := by
    intro l
    show (match archiveRow o digit symbol "binance" l.fields with
      | .ok r => r
      | .error _ => none) = _
    rw [archiveRow_line h l symbol]
  have hrows : ∀ row ∈ rs, archiveRow o digit symbol "binance" row = .ok (f row) := by
    intro row hrow
    by_cases hnil : row = []
    · subst hnil
      rfl
    · have hmem : row ∈ (file.map ArchiveLine.fields).filter (· ≠ []) := by
        rw [← hfilter]
        exact List.mem_filter.mpr ⟨hrow, decide_eq_true hnil⟩
      obtain ⟨l, -, rfl⟩ := List.mem_map.mp (List.mem_filter.mp hmem).1
      rw [hline, archiveRow_line h l symbol]
  -- an empty row makes no row of its own
  have hkeep : ∀ l : List (List (List Char)), l.filterMap f = (l.filter (· ≠ [])).filterMap f := by
    intro l
    rw [List.filterMap_filter]
    refine List.filterMap_congr (fun row _ => ?_)
    by_cases hnil : row = []
    · subst hnil
      rfl
    · simp [hnil]
  have hiter : iterTradeChunks o digit zip symbol "binance" chunkSize
      = chunksFrom o digit symbol "binance" chunkSize true [] rs := by
    unfold iterTradeChunks
    rw [hzip]
    dsimp only
    rw [archiveText, Csv.universalNewlines_fileText hplain, hrs]
  obtain ⟨hnone, hflat⟩ : (chunksFrom o digit symbol "binance" chunkSize true [] rs).2 = none
      ∧ (chunksFrom o digit symbol "binance" chunkSize true [] rs).1.flatten
        = [] ++ rs.filterMap f := chunksFrom_rows hrows []
  refine ⟨_, hiter.trans (Prod.ext rfl hnone), hflat.trans ?_⟩
  calc [] ++ rs.filterMap f = rs.filterMap f := List.nil_append _
    _ = (rs.filter (· ≠ [])).filterMap f := hkeep rs
    _ = ((file.map ArchiveLine.fields).filter (· ≠ [])).filterMap f := by rw [hfilter]
    _ = (file.map ArchiveLine.fields).filterMap f := (hkeep _).symm
    _ = file.filterMap (fun l => l.trade?.map (fun t => t.row o symbol t.time)) := by
      rw [List.filterMap_map]
      exact List.filterMap_congr (fun l _ => hline l)
    _ = (file.filterMap ArchiveLine.trade?).map (fun t => t.row o symbol t.time) :=
      (List.map_filterMap ..).symm

end

/-- **Three sources, one row**: the archive in any layout and chunk size, the answer of REST and
the published messages of the same trades parse to the same columns, but for the emit time. -/
theorem sources_agree (o : Outside) (digit : Char → Bool) (wire : Json → Except PyErr Json)
    (h : Documented o digit wire) (trades : List ExchangeTrade) (file : List ArchiveLine)
    (hfile : file.filterMap ArchiveLine.trade? = trades) (zip : List ZipEntry) (name : String)
    (hzip : zip.filter ZipEntry.isCsv = [⟨name, archiveText file⟩]) (symbol : Sym)
    (chunkSize : Int) : ∃ chunks rest records live,
      iterTradeChunks o digit zip symbol "binance" chunkSize = (chunks, none)
        ∧ parseRestJson o (trades.map ExchangeTrade.restJson) symbol "binance" = .ok rest
        ∧ publishedRecords o wire (trades.map (ExchangeTrade.message symbol)) = .ok records
        ∧ parseLiveJson o records = .ok live
        ∧ chunks.flatten.map TickRow.shared = rest.map TickRow.shared
        ∧ live.map TickRow.shared = rest.map TickRow.shared
        ∧ rest = trades.map (fun t => t.row o symbol t.time) := by
  obtain ⟨chunks, hchunks, hflat⟩ := iterTradeChunks_rows h hzip symbol chunkSize
  have hrest : parseRestJson o (trades.map ExchangeTrade.restJson) symbol "binance"
      = .ok (trades.map (fun t => t.row o symbol t.time)) :=
    mapM_map_eq_ok (fun t _ => restRow_trade h t symbol)
  have hrecords : publishedRecords o wire (trades.map (ExchangeTrade.message symbol))
      = .ok (trades.map (ExchangeTrade.record o symbol)) :=
    mapM_map_eq_ok (fun t _ => normalizeTrade_message h t symbol)
  have hlive : parseLiveJson o (trades.map (ExchangeTrade.record o symbol))
      = .ok (trades.map (fun t => t.row o symbol (toMillis t.eventTime))) :=
    mapM_map_eq_ok (fun t _ => liveRow_record h t symbol)
  refine ⟨chunks, _, _, _, hchunks, hrest, hrecords, hlive, ?_, ?_, rfl⟩
  · rw [hflat, hfile]
  · -- the rows differ in a field that is not compared
    rw [List.map_map, List.map_map]
    rfl

/-- A library that reads integers, and the two decimal strings of a trade. -/
def smallLibrary : Outside where
  loads := fun _ => .error .jsonDecodeError
  intOfStr := String.toInt?
  floatOfStr := fun s => some (if s = "1.5" then .rat (3 / 2) else .rat 2)
  table := fun _ => .error .valueError
  quoteTable := fun _ => .error .valueError

theorem smallLibrary_documented : Documented smallLibrary Char.isDigit .ok where
  int_repr := fun n _ => Int.toInt?_repr n
  float_decimal := fun s _ => ⟨_, rfl⟩
  float_float := fun s q hq => by
    have hq' : (if s = "1.5" then PyNum.rat (3 / 2) else PyNum.rat 2) = .rat q :=
      Option.some.inj hq
    split at hq'
    · cases hq'
      intro hden
      exact absurd hden (by norm_num)
    · cases hq'
      exact isFloat_of_lt (n := 2) (by decide)
  digit_ascii := fun _ _ => rfl
  wire_eq := fun _ _ _ => rfl

/-- A buyer-maker trade of the year 2026. -/
def tradeSeven : ExchangeTrade where
  id := 7
  price := "1.5"
  qty := "2"
  quoteQty := "3.0"
  time := 1786492800239
  micros := 1786492800239454
  eventTime := 1786492800240
  isBuyerMaker := true
  isBestMatch := true
  id_convertible := convertible_of_lt (by decide)
  micros_convertible := convertible_of_lt (by decide)
  eventTime_convertible := convertible_of_lt (by decide)
  price_decimal := ⟨[], ['1'], ['.', '5'], Or.inl rfl, by decide, by simp,
    Or.inr ⟨['5'], rfl, by simp⟩, rfl⟩
  qty_decimal := ⟨[], ['2'], [], Or.inl rfl, by decide, by simp, Or.inl rfl, rfl⟩
  quoteQty_decimal := ⟨[], ['3'], ['.', '0'], Or.inl rfl, by decide, by simp,
    Or.inr ⟨['0'], rfl, by simp⟩, rfl⟩
  time_le := by decide
  lt_micros := by decide
  time_eq := by decide

/-- A trade of the year 2024, when the archive still had milliseconds. -/
def tradeSix : ExchangeTrade where
  id := 6
  price := "2"
  qty := "1.5"
  quoteQty := "3.0"
  time := 1723420800000
  micros := 1723420800000321
  eventTime := 1723420800007
  isBuyerMaker := false
  isBestMatch := false
  id_convertible := convertible_of_lt (by decide)
  micros_convertible := convertible_of_lt (by decide)
  eventTime_convertible := convertible_of_lt (by decide)
  price_decimal := tradeSeven.qty_decimal
  qty_decimal := tradeSeven.price_decimal
  quoteQty_decimal := tradeSeven.quoteQty_decimal
  time_le := by decide
  lt_micros := by decide
  time_eq := by decide

/-- A file with a header, blank lines and the two trades, one in milliseconds with capitalised
booleans and one in microseconds. -/
def fileSeven : List ArchiveLine :=
  [.header, .trade false true tradeSix, .blank 0, .trade true false tradeSeven, .blank 2]

theorem sources_agree_seven : ∃ chunks rest records live,
    iterTradeChunks smallLibrary Char.isDigit [⟨"BTCUSDT-trades.csv", archiveText fileSeven⟩]
        "BTCUSDT" "binance" 500000 = (chunks, none)
      ∧ parseRestJson smallLibrary ([tradeSix, tradeSeven].map ExchangeTrade.restJson) "BTCUSDT"
        "binance" = .ok rest
      ∧ publishedRecords smallLibrary .ok
        ([tradeSix, tradeSeven].map (ExchangeTrade.message "BTCUSDT")) = .ok records
      ∧ parseLiveJson smallLibrary records = .ok live
      ∧ chunks.flatten.map TickRow.shared = rest.map TickRow.shared
      ∧ live.map TickRow.shared = rest.map TickRow.shared
      ∧ rest = [tradeSix, tradeSeven].map (fun t => t.row smallLibrary "BTCUSDT" t.time) :=
  sources_agree smallLibrary Char.isDigit .ok smallLibrary_documented [tradeSix, tradeSeven]
    fileSeven rfl [⟨"BTCUSDT-trades.csv", archiveText fileSeven⟩] "BTCUSDT-trades.csv" rfl
    "BTCUSDT" 500000

end NanoTick

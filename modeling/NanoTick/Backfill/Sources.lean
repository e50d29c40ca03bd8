import NanoTick.Basic.Csv
import NanoTick.Live.Published
import Mathlib.Tactic

set_option autoImplicit false

/-! # Three sources of one trade

A trade reaches the store by the daily archive (`iter_trade_chunks`), by REST
(`parse_rest_trades`) or by the live feed (`normalize_trade`, then `parse_live_ticks`;
`resources/binance.py`, `ingest/src/normalisers/binance.py`). For each there is what the parser
makes of one trade (`archiveRow_trade`, `restRow_trade`, `liveRow_record`).

`int`, `float` and `str.isdigit` on a string are parameters, with what is documented of them in
`Documented`.
-/

namespace NanoTick

open Python Raising

/-! ## The archive -/

/-- A file of the archive and its decoded text. -/
structure ZipEntry where
  name : String
  text : List Char
  deriving DecidableEq

/-- `n.lower().endswith(".csv")`. -/
def ZipEntry.isCsv (e : ZipEntry) : Bool :=
  ".csv".toList.isSuffixOf (e.name.toList.map Char.toLower)

/-- `str.isspace` for one character. -/
def isSpace (c : Char) : Bool :=
  let n := c.toNat
  (9 ≤ n && n ≤ 13) || (28 ≤ n && n ≤ 32) || n = 0x85 || n = 0xa0 || n = 0x1680
    || (0x2000 ≤ n && n ≤ 0x200a) || n = 0x2028 || n = 0x2029 || n = 0x202f || n = 0x205f
    || n = 0x3000

/-- `str.strip()`. -/
def strip (l : List Char) : List Char :=
  ((l.dropWhile isSpace).reverse.dropWhile isSpace).reverse

/-- `s.strip().lower() == "true"`: no letter but an ASCII one becomes one of these. -/
def saysTrue (l : List Char) : Bool := (strip l).map Char.toLower = "true".toList

/-- `str.isdigit`, for the characters it accepts. -/
def isDigits (digit : Char → Bool) (l : List Char) : Bool := !l.isEmpty && l.all digit

def idColumn : Nat := 0
def priceColumn : Nat := 1
def qtyColumn : Nat := 2
def timeColumn : Nat := 4
def makerColumn : Nat := 5

/-- `row[i]`. -/
def column (row : List (List Char)) (i : Nat) : Except PyErr Json :=
  match row[i]? with
  | some f => .ok (.str (String.ofList f))
  | none => .error .indexError

/-- The round of `iter_trade_chunks` for one row; none for a blank line or a header. -/
def archiveRow (o : Outside) (digit : Char → Bool) (symbol : Sym) (venue : String)
    (row : List (List Char)) : Except PyErr (Option TickRow) :=
  match row with
  | [] => .ok none
  | id :: _ =>
      if isDigits digit (id.dropWhile (· = '-')) then do
        let time ← column row timeColumn >>= o.int
        let tradeId ← column row idColumn >>= o.int
        let price ← column row priceColumn >>= o.float
        let qty ← column row qtyColumn >>= o.float
        let maker ← match row[makerColumn]? with
          | some f => .ok (saysTrue f)
          | none => .error .indexError
        return some {
          time := toMillis time, eventTime := toMillis time, sym := .str symbol,
          venue := .str venue, tradeID := tradeId, price := price, qty := qty,
          buyerMaker := maker }
      else .ok none

/-- The chunks of the rows, `cols` being the one begun, and the exception that ends them: that of
a row, or at the end one of the CSV reader. -/
def chunksFrom (o : Outside) (digit : Char → Bool) (symbol : Sym) (venue : String)
    (chunkSize : Int) (readable : Bool) :
    List TickRow → List (List (List Char)) → List (List TickRow) × Option PyErr
  | cols, [] =>
      if readable then (if cols.isEmpty then [] else [cols], none) else ([], some .csvError)
  | cols, row :: rows =>
      match archiveRow o digit symbol venue row with
      | .error e => ([], some e)
      | .ok none => chunksFrom o digit symbol venue chunkSize readable cols rows
      | .ok (some t) =>
          let cols := cols ++ [t]
          if chunkSize ≤ cols.length then
            let (chunks, e) := chunksFrom o digit symbol venue chunkSize readable [] rows
            (cols :: chunks, e)
          else chunksFrom o digit symbol venue chunkSize readable cols rows

/-- `iter_trade_chunks`: the chunks yielded, and the exception that ends them. -/
def iterTradeChunks (o : Outside) (digit : Char → Bool) (zip : List ZipEntry) (symbol : Sym)
    (venue : String) (chunkSize : Int) : List (List TickRow) × Option PyErr :=
  match zip.filter ZipEntry.isCsv with
  | [e] =>
      let (rows, readable) := Csv.records .start (Csv.lines (Csv.universalNewlines e.text))
      chunksFrom o digit symbol venue chunkSize readable [] rows
  | _ => ([], some .valueError)

/-! ## REST -/

/-- The round of `parse_rest_trades` for one trade. -/
def restRow (o : Outside) (symbol : Sym) (venue : String) (t : Json) : Except PyErr TickRow := do
  let time ← field t "time" o.int
  let tradeId ← field t "id" o.int
  let price ← field t "price" o.float
  let qty ← field t "qty" o.float
  let isBuyerMaker ← t.index "isBuyerMaker"
  return {
    time := toMillis time, eventTime := toMillis time, sym := .str symbol, venue := .str venue,
    tradeID := tradeId, price := price, qty := qty, buyerMaker := isBuyerMaker.truthy }

/-- `parse_rest_trades` on the JSON of the answer. -/
def parseRestJson (o : Outside) (trades : List Json) (symbol : Sym) (venue : String) :
    Except PyErr (List TickRow) := trades.mapM (restRow o symbol venue)

/-! ## The live feed -/

/-- `normalize_trade`. -/
def normalizeTrade (o : Outside) (msg : Json) : Except PyErr Json := do
  let symbol ← msg.index "s"
  let tradeId ← msg.index "t"
  let price ← field msg "p" o.float
  let qty ← field msg "q" o.float
  let eventTs ← msg.index "E"
  let tradeTs ← msg.index "T"
  let isBuyerMaker ← msg.index "m"
  return .obj [("venue", .str "binance"), ("symbol", symbol), ("trade_id", tradeId),
    ("price", .num price), ("qty", .num qty), ("event_ts", eventTs), ("trade_ts", tradeTs),
    ("is_buyer_maker", isBuyerMaker)]

/-- The round of `parse_live_ticks` for one record. -/
def liveRow (o : Outside) (t : Json) : Except PyErr TickRow := do
  let tradeTs ← field t "trade_ts" o.int
  let eventTs ← field t "event_ts" o.int
  let sym ← t.index "symbol"
  let venue ← t.index "venue"
  let tradeId ← field t "trade_id" o.int
  let price ← field t "price" o.float
  let qty ← field t "qty" o.float
  let isBuyerMaker ← t.index "is_buyer_maker"
  return {
    time := toMillis tradeTs, eventTime := toMillis eventTs, sym := sym, venue := venue,
    tradeID := tradeId, price := price, qty := qty, buyerMaker := isBuyerMaker.truthy }

/-- It is the round that the feed handler makes for a record it has let through. -/
theorem parseLiveTick_eq (o : Outside) (t : Payload o "trade_id") :
    parseLiveTick o t = liveRow o t.record := rfl

/-- `parse_live_ticks` on records. -/
def parseLiveJson (o : Outside) (ticks : List Json) : Except PyErr (List TickRow) :=
  ticks.mapM (liveRow o)

/-- The records that arrive when the messages are normalised and published; `wire` is
`json.loads` after `json.dumps`. -/
def publishedRecords (o : Outside) (wire : Json → Except PyErr Json) (msgs : List Json) :
    Except PyErr (List Json) := msgs.mapM (fun msg => normalizeTrade o msg >>= wire)

/-! ## A trade of the exchange -/

/-- A decimal string: digits, with a point and more digits or without, and maybe a sign. -/
def IsDecimal (s : String) : Prop :=
  ∃ sign whole rest : List Char, (sign = [] ∨ sign = ['-'])
    ∧ whole ≠ [] ∧ (∀ c ∈ whole, c.isDigit = true)
    ∧ (rest = [] ∨ ∃ frac, rest = '.' :: frac ∧ ∀ c ∈ frac, c.isDigit = true)
    ∧ s.toList = sign ++ whole ++ rest

/-- A trade as the exchange has it: its time in milliseconds and in microseconds, and the time
of the event that tells of it. -/
structure ExchangeTrade where
  id : Int
  price : String
  qty : String
  quoteQty : String
  time : Int
  micros : Int
  eventTime : Int
  isBuyerMaker : Bool
  isBestMatch : Bool
  id_convertible : Convertible id
  micros_convertible : Convertible micros
  eventTime_convertible : Convertible eventTime
  price_decimal : IsDecimal price
  qty_decimal : IsDecimal qty
  quoteQty_decimal : IsDecimal quoteQty
  time_le : time ≤ 10 ^ 14
  lt_micros : 10 ^ 14 < micros
  time_eq : time = micros / 1000

namespace ExchangeTrade

theorem time_convertible (t : ExchangeTrade) : Convertible t.time := by
  have hhigh := t.time_le
  have hmicros := t.lt_micros
  have htime := t.time_eq
  refine convertible_of_lt ?_
  omega

/-- A boolean in the archive, in lower case or capitalised. -/
def boolText (capital b : Bool) : List Char :=
  match capital, b with
  | false, true => "true".toList
  | false, false => "false".toList
  | true, true => "True".toList
  | true, false => "False".toList

/-- The trade as a row of the archive. -/
def csvRow (micros capital : Bool) (t : ExchangeTrade) : List (List Char) :=
  [t.id.repr.toList, t.price.toList, t.qty.toList, t.quoteQty.toList,
    (if micros then t.micros else t.time).repr.toList, boolText capital t.isBuyerMaker,
    boolText capital t.isBestMatch]

/-- The trade in the answer of `historicalTrades`. -/
def restJson (t : ExchangeTrade) : Json :=
  .obj [("id", .num (.rat t.id)), ("price", .str t.price), ("qty", .str t.qty),
    ("quoteQty", .str t.quoteQty), ("time", .num (.rat t.time)),
    ("isBuyerMaker", .bool t.isBuyerMaker), ("isBestMatch", .bool t.isBestMatch)]

/-- The trade as a message of the `@trade` stream. -/
def message (symbol : Sym) (t : ExchangeTrade) : Json :=
  .obj [("e", .str "trade"), ("E", .num (.rat t.eventTime)), ("s", .str symbol),
    ("t", .num (.rat t.id)), ("p", .str t.price), ("q", .str t.qty), ("T", .num (.rat t.time)),
    ("m", .bool t.isBuyerMaker), ("M", .bool t.isBestMatch)]

end ExchangeTrade

/-- A line of an archive file. -/
inductive ArchiveLine where
  | header
  | blank (spaces : Nat)
  | trade (micros capital : Bool) (t : ExchangeTrade)

namespace ArchiveLine

/-- The fields of the line; a line of spaces is one field. -/
def fields : ArchiveLine → List (List Char)
  | .header => ["id", "price", "qty", "quoteQty", "time", "isBuyerMaker", "isBestMatch"].map
      String.toList
  | .blank 0 => []
  | .blank (n + 1) => [List.replicate (n + 1) ' ']
  | .trade micros capital t => t.csvRow micros capital

/-- The trade of the line. -/
def trade? : ArchiveLine → Option ExchangeTrade
  | .trade _ _ t => some t
  | _ => none

end ArchiveLine

/-- The text of an archive file. -/
def archiveText (file : List ArchiveLine) : List Char :=
  Csv.fileText (file.map ArchiveLine.fields)

/-! ## What is documented of the library -/

/-- A value in a record that `json.dumps` writes as what `json.loads` reads: no list and no object,
and if a number, then a float or an integer with not too many digits. -/
def Written : Json → Prop
  | .num (.rat q) => IsFloat q ∨ ∃ n : Int, q = n ∧ Convertible n
  | .arr _ => False
  | .obj _ => False
  | _ => True

/-- What the three parsers rely on: `int` reads what `str` writes of an integer, `float` accepts
decimal strings and returns floats, `str.isdigit` accepts the ASCII digits and no other ASCII
character, and a record survives `json.dumps` and `json.loads`. -/
structure Documented (o : Outside) (digit : Char → Bool) (wire : Json → Except PyErr Json) :
    Prop where
  int_repr : ∀ n : Int, Convertible n → o.intOfStr n.repr = some n
  float_decimal : ∀ s, IsDecimal s → ∃ n, o.floatOfStr s = some n
  float_float : ∀ s q, o.floatOfStr s = some (.rat q) → IsFloat q
  digit_ascii : ∀ c : Char, c.toNat < 128 → digit c = c.isDigit
  wire_eq : ∀ m : List (String × Json), (m.map Prod.fst).Nodup → (∀ e ∈ m, Written e.2) →
    wire (.obj m) = .ok (.obj m)

/-- The number that a decimal string is. -/
def numberOf (o : Outside) (s : String) : PyNum := (o.floatOfStr s).getD .nan

/-- The row of a trade, with the emit time it comes with. -/
def ExchangeTrade.row (o : Outside) (symbol : Sym) (eventTime : Int) (t : ExchangeTrade) :
    TickRow where
  time := t.time
  eventTime := eventTime
  sym := .str symbol
  venue := .str "binance"
  tradeID := t.id
  price := numberOf o t.price
  qty := numberOf o t.qty
  buyerMaker := t.isBuyerMaker

/-- What a row says of the trade: all but the emit time. -/
def TickRow.shared (r : TickRow) : Int × Json × Json × Int × PyNum × PyNum × Bool :=
  (r.time, r.sym, r.venue, r.tradeID, r.price, r.qty, r.buyerMaker)

/-! ## Decimal strings -/

/-- An integer is written as a decimal string without a point. -/
theorem repr_decimal (n : Int) : ∃ sign whole : List Char, (sign = [] ∨ sign = ['-'])
    ∧ whole ≠ [] ∧ (∀ c ∈ whole, c.isDigit = true) ∧ n.repr.toList = sign ++ whole := by
  have hdigits : ∀ k : Nat, k.repr.toList ≠ [] ∧ ∀ c ∈ k.repr.toList, c.isDigit = true := by
    intro k
    rw [Nat.toList_repr]
    exact ⟨Nat.toDigits_ne_nil, fun c hc => Nat.isDigit_of_mem_toDigits (by decide) (by decide) hc⟩
  rw [Int.repr_eq_if]
  by_cases hn : 0 ≤ n
  · rw [if_pos hn]
    exact ⟨[], n.toNat.repr.toList, Or.inl rfl, (hdigits _).1, (hdigits _).2, rfl⟩
  · rw [if_neg hn, String.toList_append]
    exact ⟨['-'], (-n).toNat.repr.toList, Or.inr rfl, (hdigits _).1, (hdigits _).2, rfl⟩

theorem isDecimal_repr (n : Int) : IsDecimal n.repr := by
  obtain ⟨sign, whole, hsign, hne, hdigits, h⟩ := repr_decimal n
  exact ⟨sign, whole, [], hsign, hne, hdigits, Or.inl rfl, h.trans (List.append_nil _).symm⟩

/-- The characters of a decimal string. -/
theorem IsDecimal.mem {s : String} (h : IsDecimal s) {c : Char} (hc : c ∈ s.toList) :
    c.isDigit = true ∨ c = '.' ∨ c = '-' := by
  obtain ⟨sign, whole, rest, hsign, -, hwhole, hrest, hs⟩ := h
  rw [hs, List.mem_append, List.mem_append] at hc
  rcases hc with (hc | hc) | hc
  · rcases hsign with rfl | rfl
    · cases hc
    · exact Or.inr (Or.inr (List.mem_singleton.mp hc))
  · exact Or.inl (hwhole c hc)
  · rcases hrest with rfl | ⟨frac, rfl, hfrac⟩
    · cases hc
    · rcases List.mem_cons.mp hc with rfl | hc
      · exact Or.inr (Or.inl rfl)
      · exact Or.inl (hfrac c hc)

theorem isDigit_plain {c : Char} (h : c.isDigit = true) :
    c ≠ ',' ∧ c ≠ '"' ∧ Csv.Reader.isNewline c = false := by
  refine ⟨?_, ?_, ?_⟩
  · rintro rfl
    cases h
  · rintro rfl
    cases h
  · unfold Csv.Reader.isNewline
    simp only [Bool.or_eq_false_iff, decide_eq_false_iff_not]
    constructor
    · rintro rfl
      cases h
    · rintro rfl
      cases h

/-- A decimal string is a plain field. -/
theorem IsDecimal.plain {s : String} (h : IsDecimal s) : Csv.Plain s.toList where
  ne_nil := by
    obtain ⟨sign, whole, rest, -, hne, -, -, hs⟩ := h
    rw [hs]
    simp [hne]
  plain := fun c hc => by
    rcases h.mem hc with hdigit | rfl | rfl
    · exact isDigit_plain hdigit
    · decide
    · decide

/-! ## The archive's lines -/

theorem plain_boolText (capital b : Bool) : Csv.Plain (ExchangeTrade.boolText capital b) := by
  cases capital with
  | false =>
      cases b with
      | false => exact Csv.plain_of_all (by decide) (by decide)
      | true => exact Csv.plain_of_all (by decide) (by decide)
  | true =>
      cases b with
      | false => exact Csv.plain_of_all (by decide) (by decide)
      | true => exact Csv.plain_of_all (by decide) (by decide)

theorem saysTrue_boolText (capital b : Bool) :
    saysTrue (ExchangeTrade.boolText capital b) = b := by
  cases capital with
  | false =>
      cases b with
      | false => decide
      | true => decide
  | true =>
      cases b with
      | false => decide
      | true => decide

theorem plain_fields (l : ArchiveLine) : ∀ f ∈ l.fields, Csv.Plain f := by
  cases l with
  | header =>
      simp only [ArchiveLine.fields, List.map_cons, List.map_nil, List.forall_mem_cons]
      exact ⟨Csv.plain_of_all (by decide) (by decide), Csv.plain_of_all (by decide) (by decide),
        Csv.plain_of_all (by decide) (by decide), Csv.plain_of_all (by decide) (by decide),
        Csv.plain_of_all (by decide) (by decide), Csv.plain_of_all (by decide) (by decide),
        Csv.plain_of_all (by decide) (by decide), fun f hf => absurd hf List.not_mem_nil⟩
  | blank n =>
      cases n with
      | zero => exact fun f hf => absurd hf List.not_mem_nil
      | succ n =>
          intro f hf
          obtain rfl := List.mem_singleton.mp hf
          refine ⟨by simp, fun c hc => ?_⟩
          rw [List.eq_of_mem_replicate hc]
          decide
  | trade micros capital t =>
      simp only [ArchiveLine.fields, ExchangeTrade.csvRow, List.forall_mem_cons]
      exact ⟨(isDecimal_repr _).plain, t.price_decimal.plain, t.qty_decimal.plain,
        t.quoteQty_decimal.plain, (isDecimal_repr _).plain, plain_boolText _ _,
        plain_boolText _ _, fun f hf => absurd hf List.not_mem_nil⟩

/-! ## The rows of the three sources -/

section

variable {o : Outside} {digit : Char → Bool} {wire : Json → Except PyErr Json}
  (h : Documented o digit wire)

include h

theorem int_repr {n : Int} (hn : Convertible n) : o.int (.str n.repr) = .ok n := by
  simp only [Outside.int, Json.toInt, h.int_repr n hn]

theorem float_decimal {s : String} (hs : IsDecimal s) :
    o.float (.str s) = .ok (numberOf o s) := by
  obtain ⟨n, hn⟩ := h.float_decimal s hs
  simp only [Outside.float, Json.toFloat, numberOf, hn, Option.getD_some]

theorem written_numberOf {s : String} (hs : IsDecimal s) : Written (.num (numberOf o s)) := by
  obtain ⟨n, hn⟩ := h.float_decimal s hs
  rw [numberOf, hn, Option.getD_some]
  cases n with
  | rat q => exact Or.inl (h.float_float s q hn)
  | posInf => trivial
  | negInf => trivial
  | nan => trivial

/-- `float` of the float that a decimal string is. -/
theorem float_numberOf {s : String} (hs : IsDecimal s) :
    o.float (.num (numberOf o s)) = .ok (numberOf o s) := by
  obtain ⟨n, hn⟩ := h.float_decimal s hs
  rw [numberOf, hn, Option.getD_some]
  cases n with
  | rat q => exact float_of_isFloat o (h.float_float s q hn)
  | posInf => rfl
  | negInf => rfl
  | nan => rfl

/-- An id is all digits after its sign. -/
theorem isDigits_repr (n : Int) :
    isDigits digit (n.repr.toList.dropWhile (· = '-')) = true := by
  obtain ⟨sign, whole, hsign, hne, hdigits, hrepr⟩ := repr_decimal n
  have hdrop : n.repr.toList.dropWhile (· = '-') = whole := by
    obtain ⟨c, w, rfl⟩ := List.exists_cons_of_ne_nil hne
    have hc : c ≠ '-' := by
      rintro rfl
      exact Bool.noConfusion (hdigits '-' List.mem_cons_self)
    rw [hrepr]
    rcases hsign with rfl | rfl
    · simp [hc]
    · simp [hc]
  have hall : ∀ c ∈ whole, digit c = true := by
    intro c hc
    have hlt := (Char.isDigit_iff_toNat.mp (hdigits c hc)).2
    rw [h.digit_ascii c (lt_of_le_of_lt hlt (by decide))]
    exact hdigits c hc
  rw [hdrop, isDigits, List.all_eq_true.mpr hall]
  simp [hne]

/-- A header and a blank line have no digits where the id is. -/
theorem archiveRow_skipped {l : ArchiveLine} (hl : l.trade? = none) (symbol : Sym)
    (venue : String) : archiveRow o digit symbol venue l.fields = .ok none := by
  cases l with
  | header =>
      have hi : digit 'i' = false := h.digit_ascii 'i' (by decide)
      simp [ArchiveLine.fields, archiveRow, isDigits, hi]
  | blank n =>
      cases n with
      | zero => rfl
      | succ n =>
          have hspace : digit ' ' = false := h.digit_ascii ' ' (by decide)
          simp [ArchiveLine.fields, archiveRow, isDigits, hspace, List.replicate_succ]
  | trade micros capital t => cases hl

/-- **A row of the archive** is the trade's, whatever the unit of its time. -/
theorem archiveRow_trade (micros capital : Bool) (t : ExchangeTrade) (symbol : Sym) :
    archiveRow o digit symbol "binance" (t.csvRow micros capital)
      = .ok (some (t.row o symbol t.time)) := by
  have htime : toMillis (if micros then t.micros else t.time) = t.time := by
    cases micros with
    | false => exact if_neg (not_lt.mpr t.time_le)
    | true => exact (if_pos t.lt_micros).trans t.time_eq.symm
  have hcolumn : ∀ i s, (t.csvRow micros capital)[i]? = some (String.toList s) →
      column (t.csvRow micros capital) i = .ok (.str s) := by
    intro i s hi
    rw [column, hi]
    dsimp only
    rw [String.ofList_toList]
  unfold archiveRow ExchangeTrade.csvRow
  dsimp only
  rw [if_pos (isDigits_repr h t.id)]
  have hstamp : Convertible (if micros then t.micros else t.time) := by
    split
    · exact t.micros_convertible
    · exact t.time_convertible
  refine bind_eq_ok.mpr ⟨_, bind_eq_ok.mpr ⟨_, hcolumn timeColumn _ rfl, int_repr h hstamp⟩, ?_⟩
  refine bind_eq_ok.mpr
    ⟨_, bind_eq_ok.mpr ⟨_, hcolumn idColumn _ rfl, int_repr h t.id_convertible⟩, ?_⟩
  refine bind_eq_ok.mpr
    ⟨_, bind_eq_ok.mpr ⟨_, hcolumn priceColumn _ rfl, float_decimal h t.price_decimal⟩, ?_⟩
  refine bind_eq_ok.mpr
    ⟨_, bind_eq_ok.mpr ⟨_, hcolumn qtyColumn _ rfl, float_decimal h t.qty_decimal⟩, ?_⟩
  rw [htime]
  show Except.ok (some _) = Except.ok (some _)
  rw [saysTrue_boolText]
  rfl

/-- The row of a trade that REST answers. -/
theorem restRow_trade (t : ExchangeTrade) (symbol : Sym) :
    restRow o symbol "binance" t.restJson = .ok (t.row o symbol t.time) := by
  have htime : toMillis t.time = t.time := if_neg (not_lt.mpr t.time_le)
  have hprice := float_decimal h t.price_decimal
  have hqty := float_decimal h t.qty_decimal
  refine bind_eq_ok.mpr ⟨_, field_eq_ok rfl (toInt_int o t.time), ?_⟩
  refine bind_eq_ok.mpr ⟨_, field_eq_ok rfl (toInt_int o t.id), ?_⟩
  refine bind_eq_ok.mpr ⟨_, field_eq_ok rfl hprice, bind_eq_ok.mpr ⟨_, field_eq_ok rfl hqty, ?_⟩⟩
  rw [htime]
  exact bind_eq_ok.mpr ⟨.bool t.isBuyerMaker, rfl, rfl⟩

/-- The record that is published of a trade. -/
def ExchangeTrade.record (o : Outside) (symbol : Sym) (t : ExchangeTrade) : Json :=
  .obj [("venue", .str "binance"), ("symbol", .str symbol), ("trade_id", .num (.rat t.id)),
    ("price", .num (numberOf o t.price)), ("qty", .num (numberOf o t.qty)),
    ("event_ts", .num (.rat t.eventTime)), ("trade_ts", .num (.rat t.time)),
    ("is_buyer_maker", .bool t.isBuyerMaker)]

/-- The record survives the wire. -/
theorem wire_record (t : ExchangeTrade) (symbol : Sym) :
    wire (t.record o symbol) = .ok (t.record o symbol) := by
  refine h.wire_eq _ (by simp) ?_
  simp only [List.forall_mem_cons]
  exact ⟨trivial, trivial, Or.inr ⟨t.id, rfl, t.id_convertible⟩,
    written_numberOf h t.price_decimal, written_numberOf h t.qty_decimal,
    Or.inr ⟨t.eventTime, rfl, t.eventTime_convertible⟩, Or.inr ⟨t.time, rfl, t.time_convertible⟩,
    trivial, fun e he => absurd he List.not_mem_nil⟩

theorem normalizeTrade_message (t : ExchangeTrade) (symbol : Sym) :
    normalizeTrade o (t.message symbol) >>= wire = .ok (t.record o symbol) := by
  have hprice := float_decimal h t.price_decimal
  have hqty := float_decimal h t.qty_decimal
  refine bind_eq_ok.mpr ⟨t.record o symbol, ?_, wire_record h t symbol⟩
  refine bind_eq_ok.mpr ⟨.str symbol, rfl, bind_eq_ok.mpr ⟨.num (.rat t.id), rfl, ?_⟩⟩
  refine bind_eq_ok.mpr ⟨_, field_eq_ok rfl hprice, bind_eq_ok.mpr ⟨_, field_eq_ok rfl hqty, ?_⟩⟩
  refine bind_eq_ok.mpr ⟨.num (.rat t.eventTime), rfl, ?_⟩
  refine bind_eq_ok.mpr ⟨.num (.rat t.time), rfl, ?_⟩
  exact bind_eq_ok.mpr ⟨.bool t.isBuyerMaker, rfl, rfl⟩

/-- The row of a published trade, with the time of its event. -/
theorem liveRow_record (t : ExchangeTrade) (symbol : Sym) :
    liveRow o (t.record o symbol) = .ok (t.row o symbol (toMillis t.eventTime)) := by
  have htime : toMillis t.time = t.time := if_neg (not_lt.mpr t.time_le)
  have hprice := float_numberOf h t.price_decimal
  have hqty := float_numberOf h t.qty_decimal
  refine bind_eq_ok.mpr ⟨_, field_eq_ok rfl (toInt_int o t.time), ?_⟩
  refine bind_eq_ok.mpr ⟨_, field_eq_ok rfl (toInt_int o t.eventTime), ?_⟩
  refine bind_eq_ok.mpr ⟨.str symbol, rfl, bind_eq_ok.mpr ⟨.str "binance", rfl, ?_⟩⟩
  refine bind_eq_ok.mpr ⟨_, field_eq_ok rfl (toInt_int o t.id), ?_⟩
  refine bind_eq_ok.mpr ⟨_, field_eq_ok rfl hprice, bind_eq_ok.mpr ⟨_, field_eq_ok rfl hqty, ?_⟩⟩
  rw [htime]
  exact bind_eq_ok.mpr ⟨.bool t.isBuyerMaker, rfl, rfl⟩

end

end NanoTick

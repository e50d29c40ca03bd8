import NanoTick.Backfill.Rerun
import NanoTick.Backfill.Retries
import NanoTick.Backfill.ThreeSources
import NanoTick.Basic.JsonLines
import NanoTick.Recording.Recorder
import Mathlib.Tactic

set_option autoImplicit false

/-! # From the archive's answers to the database

`make_fetch_day` downloads the file of a day and its checksum, each with retries, and hands the
file to `iter_trade_chunks` only if the checksum is its own or there is none. So a damaged download
raises before a row of it is inserted, and what `run` stores is what arrived intact
(`run_stores`): by day and symbol, whichever attempts fail and whatever bytes arrive for a file or
for a checksum. Two things are assumed of damaged bytes: no checksum that arrives names them, and
where there is no checksum they do not open as a zip file (`ServesFile`).
-/

namespace NanoTick

open Python Raising

namespace Backfill

/-- What the archive host answers to each attempt for a file and for its checksum. -/
structure ArchiveHost where
  zip : Sym → Date → Nat → Outcome Bytes
  checksum : Sym → Date → Nat → Outcome Bytes

/-- `hashlib`, `bytes.decode` and `zipfile`, beside what the rows need. -/
structure Library where
  outside : Outside
  digit : Char → Bool
  sha256 : Bytes → List Char
  decode : Bytes → Except PyErr (List Char)
  unzip : Bytes → Except PyErr (List ZipEntry)

section

variable (L : Library) (host : ArchiveHost)

/-- `download_archive`. -/
def downloadArchive (symbol : Sym) (day : Date) : Except PyErr (Option Bytes) :=
  (get L.outside.intOfStr httpRetries (host.zip symbol day)).returned

/-- `download_checksum`. -/
def downloadChecksum (symbol : Sym) (day : Date) : Except PyErr (Option Bytes) :=
  (get L.outside.intOfStr httpRetries (host.checksum symbol day)).returned

/-- `text.split()[0]`. -/
def firstWord (text : List Char) : Except PyErr (List Char) :=
  let w := (text.dropWhile isSpace).takeWhile (fun c => !isSpace c)
  if w.isEmpty then .error .indexError else .ok w

/-- `verify_checksum`: no letter but an ASCII one becomes a digit of the digest. -/
def verifyChecksum (zip : Bytes) (text : List Char) : Except PyErr Bool := do
  let w ← firstWord text
  return decide (L.sha256 zip = (strip w).map Char.toLower)

/-- A file without a checksum passes. -/
def passes (zip : Bytes) : Option Bytes → Except PyErr Bool
  | none => .ok true
  | some checksum => L.decode checksum >>= verifyChecksum L zip

/-- The tables of the chunks up to the first that `insert` refuses, and whether it refused one. -/
def inserted (table : List TickRow → Except PyErr (List Trade)) :
    List (List TickRow) → List (List Trade) × Bool
  | [] => ([], false)
  | c :: cs =>
      match table c with
      | .error _ => ([], true)
      | .ok t => (t :: (inserted table cs).1, (inserted table cs).2)

/-- `iter_trade_chunks` as `run_backfill` drives it. -/
def streamed (zip : Bytes) (symbol : Sym) (venue : String) (chunkSize : Int) : Fetch :=
  match L.unzip zip with
  | .error _ => .chunks [] true
  | .ok entries =>
      let (chunks, e) := iterTradeChunks L.outside L.digit entries symbol venue chunkSize
      let (tables, refused) := inserted L.outside.table chunks
      .chunks tables (refused || e.isSome)

/-- `make_fetch_day`. -/
def makeFetchDay (symbol : Sym) (venue : String) (chunkSize : Int) (day : Date) : Fetch :=
  match downloadArchive L host symbol day with
  | .error _ => .raises
  | .ok none => .missing
  | .ok (some zip) =>
      match downloadChecksum L host symbol day >>= passes L zip with
      | .error _ => .raises
      | .ok false => .raises
      | .ok true => streamed L zip symbol venue chunkSize

/-- `run`, for the UTC date it reads. -/
def run (today : Date) (days : Nat) (symbols : List Sym) (venue : String) (chunkSize : Int)
    (w : HdbWriter) : HdbWriter × Summary :=
  if (planDates today days).isEmpty then (w, Summary.zero)
  else runBackfill (planDates today days) (existingPartitionDates w.hdb) symbols
    (fun s => makeFetchDay L host s venue chunkSize) w

end

/-! ## What is published -/

/-- A published file: its bytes, and the lines of its CSV file. -/
structure PublishedFile where
  zip : Bytes
  file : List ArchiveLine

/-- The number as a float of a table. -/
def ratOf : PyNum → ℚ
  | .rat q => q
  | _ => 0

/-- The row of a trade in the archive. -/
def archived (o : Outside) (symbol : Sym) (t : ExchangeTrade) : Trade where
  time := t.time
  sym := symbol
  venue := "binance"
  tradeID := t.id
  price := ratOf (numberOf o t.price)
  qty := ratOf (numberOf o t.qty)
  eventTime := t.time
  buyerMaker := t.isBuyerMaker

/-- Its price and quantity are numbers. -/
def Finite (o : Outside) (t : ExchangeTrade) : Prop :=
  (∃ p, numberOf o t.price = .rat p) ∧ ∃ q, numberOf o t.qty = .rat q

/-- The trades of a published file. -/
def PublishedFile.trades (f : PublishedFile) : List ExchangeTrade :=
  f.file.filterMap ArchiveLine.trade?

/-- A digit of `hexdigest`: 0 to 9 or a to f. -/
def IsHex (c : Char) : Prop :=
  (48 ≤ c.toNat ∧ c.toNat ≤ 57) ∨ (97 ≤ c.toNat ∧ c.toNat ≤ 102)

/-- What is documented of the libraries: those of the rows, a digest is a word of
hexadecimal digits in lower case, and pykx makes a table of columns of numbers. -/
structure Documents (L : Library) : Prop where
  rows : Documented L.outside L.digit .ok
  digest : ∀ b, L.sha256 b ≠ [] ∧ ∀ c ∈ L.sha256 b, IsHex c
  table : ∀ (symbol : Sym) (ts : List ExchangeTrade), (∀ t ∈ ts, Finite L.outside t) →
    L.outside.table (ts.map (fun t => t.row L.outside symbol t.time))
      = .ok (ts.map (archived L.outside symbol))

/-- The first word of the checksum file is the digest of the bytes. -/
def Names (L : Library) (checksum zip : Bytes) : Prop :=
  ∃ text w, L.decode checksum = .ok text ∧ firstWord text = .ok w
    ∧ L.sha256 zip = (strip w).map Char.toLower

/-- The host and a published file, a zip with one CSV file of trades. Bytes that arrive for it and
are not the file's are named by no checksum that arrives, and where the checksum is a 404 they do
not open as a zip file. -/
structure ServesFile (L : Library) (host : ArchiveHost) (symbol : Sym) (day : Date)
    (f : PublishedFile) : Prop where
  entries : ∃ name entries, L.unzip f.zip = .ok entries
    ∧ entries.filter ZipEntry.isCsv = [⟨name, archiveText f.file⟩]
  finite : ∀ t ∈ f.trades, Finite L.outside t
  collision : ∀ i checksum j zip, host.checksum symbol day i = .success checksum →
    host.zip symbol day j = .success zip → Names L checksum zip → zip = f.zip
  unchecked : ∀ i retryAfter j zip, host.checksum symbol day i = .httpError 404 retryAfter →
    host.zip symbol day j = .success zip → zip ≠ f.zip → ∃ e, L.unzip zip = .error e

/-- What is published of a symbol and day, or that nothing is. -/
def Serves (L : Library) (host : ArchiveHost) (symbol : Sym) (day : Date) :
    Option PublishedFile → Prop
  | none => ∀ i b, host.zip symbol day i ≠ .success b
  | some f => ServesFile L host symbol day f

/-- The file is downloaded intact, and passes with the checksum that is downloaded. -/
def Intact (L : Library) (host : ArchiveHost) (symbol : Sym) (day : Date) (f : PublishedFile) :
    Prop :=
  downloadArchive L host symbol day = .ok (some f.zip)
    ∧ downloadChecksum L host symbol day >>= passes L f.zip = .ok true

instance (L : Library) (host : ArchiveHost) (symbol : Sym) (day : Date) (f : PublishedFile) :
    Decidable (Intact L host symbol day f) := inferInstanceAs (Decidable (_ ∧ _))

/-- The rows that arrive: those of the published file, when it arrives intact. -/
def arrived (L : Library) (host : ArchiveHost) (symbol : Sym) (day : Date) :
    Option PublishedFile → List Trade
  | none => []
  | some f =>
      if Intact L host symbol day f then f.trades.map (archived L.outside symbol) else []

/-! ## A request -/

/-- What a call of `_get` returns is one of the answers. -/
theorem getLoop_ok {β : Type} {intOfStr : String → Option Int} {retries : Nat}
    {server : Nat → Outcome β} {n network throttled : Nat} {slept : List Int} {v : Option β}
    (h : (getLoop intOfStr retries server n network throttled slept).returned = .ok v) :
    ∃ i, (server i).value = some v := by
  induction n, network, throttled, slept using getLoop.induct intOfStr retries server with
  | case1 n network throttled slept hbudget body hserver =>
      rw [getLoop, if_pos hbudget, hserver] at h
      exact ⟨n, by rw [hserver, ← Except.ok.inj h]; rfl⟩
  | case2 n network throttled slept hbudget retryAfter hserver =>
      rw [getLoop, if_pos hbudget, hserver] at h
      exact ⟨n, by rw [hserver, ← Except.ok.inj h]; rfl⟩
  | case3 n network throttled slept hbudget code header hserver hcode hlimit e hwait =>
      rw [getLoop, if_pos hbudget, hserver] at h
      simp only [if_neg hcode, if_pos hlimit, hwait] at h
      cases h
  | case4 n network throttled slept hbudget code header hserver hcode hlimit wait hwait hneg =>
      rw [getLoop, if_pos hbudget, hserver] at h
      simp only [if_neg hcode, if_pos hlimit, hwait, if_pos hneg] at h
      cases h
  | case5 n network throttled slept hbudget code header hserver hcode hlimit wait hwait hneg ih =>
      rw [getLoop, if_pos hbudget, hserver] at h
      simp only [if_neg hcode, if_pos hlimit, hwait, if_neg hneg] at h
      exact ih h
  | case6 n network throttled slept hbudget code header hserver hcode hlimit ih =>
      rw [getLoop, if_pos hbudget, hserver] at h
      simp only [if_neg hcode, if_neg hlimit] at h
      exact ih h
  | case7 n network throttled slept hbudget hserver ih =>
      rw [getLoop, if_pos hbudget, hserver] at h
      exact ih h
  | case8 n network throttled slept hbudget hserver ih =>
      rw [getLoop, if_pos hbudget, hserver] at h
      exact ih h
  | case9 n network throttled slept hbudget =>
      rw [getLoop, if_neg hbudget] at h
      cases h

/-- A body that is returned was answered. -/
theorem get_body {β : Type} {intOfStr : String → Option Int} {retries : Nat}
    {server : Nat → Outcome β} {b : β}
    (h : (get intOfStr retries server).returned = .ok (some b)) : ∃ i, server i = .success b := by
  obtain ⟨i, hi⟩ := getLoop_ok h
  refine ⟨i, ?_⟩
  cases hserver : server i with
  | success body =>
      rw [hserver] at hi
      cases hi
      rfl
  | httpError code retryAfter =>
      rw [hserver, Outcome.value] at hi
      split at hi
      · cases hi
      · cases hi
  | urlError =>
      rw [hserver] at hi
      cases hi
  | timeout =>
      rw [hserver] at hi
      cases hi

/-- Nothing is returned only for a 404. -/
theorem get_absent {β : Type} {intOfStr : String → Option Int} {retries : Nat}
    {server : Nat → Outcome β} (h : (get intOfStr retries server).returned = .ok none) :
    ∃ i retryAfter, server i = .httpError 404 retryAfter := by
  obtain ⟨i, hi⟩ := getLoop_ok h
  cases hserver : server i with
  | success body =>
      rw [hserver] at hi
      cases hi
  | httpError code retryAfter =>
      rw [hserver, Outcome.value] at hi
      split at hi
      · rename_i hcode
        exact ⟨i, retryAfter, by rw [hserver, hcode]⟩
      · cases hi
  | urlError =>
      rw [hserver] at hi
      cases hi
  | timeout =>
      rw [hserver] at hi
      cases hi

/-! ## The checksum -/

theorem takeWhile_append_of_neg {α : Type} {p : α → Bool} {l : List α} (hl : ∀ a ∈ l, p a = true)
    {b : α} (hb : p b = false) (rest : List α) : (l ++ b :: rest).takeWhile p = l := by
  rw [List.takeWhile_append_of_pos hl, List.takeWhile_cons, hb]
  exact List.append_nil l

/-- The hexadecimal digits are no spaces, and stay what they are in lower case. -/
theorem IsHex.plain {c : Char} (hc : IsHex c) : isSpace c = false ∧ c.toLower = c := by
  unfold IsHex at hc
  constructor
  · simp only [isSpace, Bool.or_eq_false_iff, Bool.and_eq_false_iff, decide_eq_false_iff_not]
    omega
  · have hval : c.val.toNat = c.toNat := rfl
    have h65 : (65 : UInt32).toNat = 65 := rfl
    have h90 : (90 : UInt32).toNat = 90 := rfl
    unfold Char.toLower
    rw [dif_neg]
    rintro ⟨hlow, hhigh⟩
    have hl : (65 : UInt32).toNat ≤ c.val.toNat := UInt32.le_iff_toNat_le.mp hlow
    have hh : c.val.toNat ≤ (90 : UInt32).toNat := UInt32.le_iff_toNat_le.mp hhigh
    omega

theorem dropWhile_of_head {p : Char → Bool} {l : List Char} (hl : ∀ c ∈ l, p c = false) :
    l.dropWhile p = l := by
  cases l with
  | nil => rfl
  | cons c l => rw [List.dropWhile_cons, hl c List.mem_cons_self]; rfl

/-- A word without spaces at the start of a line. -/
theorem firstWord_append {w : List Char} (hne : w ≠ []) (hw : ∀ c ∈ w, isSpace c = false)
    (rest : List Char) : firstWord (w ++ ' ' :: rest) = .ok w := by
  have hdrop : (w ++ ' ' :: rest).dropWhile isSpace = w ++ ' ' :: rest := by
    cases w with
    | nil => exact absurd rfl hne
    | cons c l =>
        rw [List.cons_append, List.dropWhile_cons, hw c List.mem_cons_self]
        rfl
  have htake : (w ++ ' ' :: rest).takeWhile (fun c => !isSpace c) = w :=
    takeWhile_append_of_neg (fun c hc => by rw [hw c hc]; rfl) rfl rest
  unfold firstWord
  rw [hdrop, htake]
  exact if_neg (by simpa using hne)

theorem strip_of_plain {w : List Char} (hw : ∀ c ∈ w, isSpace c = false) : strip w = w := by
  rw [strip, dropWhile_of_head hw, dropWhile_of_head (fun c hc => hw c (List.mem_reverse.mp hc)),
    List.reverse_reverse]

section

variable {L : Library} {host : ArchiveHost} {symbol : Sym} {day : Date}

/-- What passes the check is named by the checksum. -/
theorem passes_eq_true_iff {zip checksum : Bytes} :
    passes L zip (some checksum) = .ok true ↔ Names L checksum zip := by
  unfold passes verifyChecksum Names
  constructor
  · intro h
    obtain ⟨text, htext, h⟩ := bind_eq_ok.mp h
    obtain ⟨w, hw, h⟩ := bind_eq_ok.mp h
    exact ⟨text, w, htext, hw, of_decide_eq_true (Except.ok.inj h)⟩
  · rintro ⟨text, w, htext, hw, hdigest⟩
    refine bind_eq_ok.mpr ⟨text, htext, bind_eq_ok.mpr ⟨w, hw, ?_⟩⟩
    exact congrArg Except.ok (decide_eq_true hdigest)

/-- **The checksum file of a zip** names the bytes that have the digest of it. -/
theorem names_checksumFile (hL : Documents L) (zip zip' : Bytes) {checksum : Bytes}
    {name : List Char} (hdecode : L.decode checksum = .ok (L.sha256 zip' ++ ' ' :: ' ' :: name)) :
    Names L checksum zip ↔ L.sha256 zip = L.sha256 zip' := by
  obtain ⟨hne, hdigits⟩ := hL.digest zip'
  have hspace : ∀ c ∈ L.sha256 zip', isSpace c = false := fun c hc => (hdigits c hc).plain.1
  have hword : firstWord (L.sha256 zip' ++ ' ' :: ' ' :: name) = .ok (L.sha256 zip') :=
    firstWord_append hne hspace _
  have hstrip : strip (L.sha256 zip') = L.sha256 zip' := strip_of_plain hspace
  have hlower : (L.sha256 zip').map Char.toLower = L.sha256 zip' := by
    calc (L.sha256 zip').map Char.toLower = (L.sha256 zip').map id :=
          List.map_congr_left (fun c hc => (hdigits c hc).plain.2)
      _ = L.sha256 zip' := List.map_id _
  constructor
  · rintro ⟨text, w, htext, hw, hdigest⟩
    rw [hdecode] at htext
    cases htext
    rw [hword] at hw
    cases hw
    rwa [hstrip, hlower] at hdigest
  · intro h
    exact ⟨_, _, hdecode, hword, by rw [hstrip, hlower, h]⟩

/-! ## A fetch -/

/-- A table for every chunk, when the rows of all chunks are trades of numbers. -/
theorem inserted_rows (hL : Documents L) (chunks : List (List TickRow)) (ts : List ExchangeTrade)
    (hfinite : ∀ t ∈ ts, Finite L.outside t)
    (hflat : chunks.flatten = ts.map (fun t => t.row L.outside symbol t.time)) :
    ∃ tables, inserted L.outside.table chunks = (tables, false)
      ∧ tables.flatten = ts.map (archived L.outside symbol) := by
  induction chunks generalizing ts with
  | nil =>
      have hnil : ts = [] := List.map_eq_nil_iff.mp hflat.symm
      subst hnil
      exact ⟨[], rfl, rfl⟩
  | cons c cs ih =>
      rw [List.flatten_cons] at hflat
      obtain ⟨now, later, rfl, hc, hcs⟩ := List.map_eq_append_iff.mp hflat.symm
      obtain ⟨tables, htables, hrest⟩ := ih later
        (fun t ht => hfinite t (List.mem_append_right _ ht)) hcs.symm
      refine ⟨now.map (archived L.outside symbol) :: tables, ?_, ?_⟩
      · rw [inserted, ← hc, hL.table symbol now (fun t ht => hfinite t (List.mem_append_left _ ht)),
          htables]
      · rw [List.flatten_cons, hrest, List.map_append]

/-- **A published file** is inserted to its end. -/
theorem streamed_published (hL : Documents L) {f : PublishedFile}
    (hf : ServesFile L host symbol day f) (chunkSize : Int) :
    ∃ tables, streamed L f.zip symbol "binance" chunkSize = .chunks tables false
      ∧ tables.flatten = f.trades.map (archived L.outside symbol) := by
  obtain ⟨name, entries, hunzip, hcsv⟩ := hf.entries
  obtain ⟨chunks, hchunks, hflat⟩ := iterTradeChunks_rows hL.rows hcsv symbol chunkSize
  obtain ⟨tables, htables, hrows⟩ := inserted_rows hL chunks f.trades hf.finite hflat
  refine ⟨tables, ?_, hrows⟩
  unfold streamed
  rw [hunzip]
  simp only [hchunks, htables]
  rfl

/-- A file downloaded intact arrives when its own checksum file is downloaded, or there is
none. -/
theorem intact_of_checksumFile (hL : Documents L) {f : PublishedFile}
    (hzip : downloadArchive L host symbol day = .ok (some f.zip))
    (hsum : downloadChecksum L host symbol day = .ok none
      ∨ ∃ checksum name, downloadChecksum L host symbol day = .ok (some checksum)
        ∧ L.decode checksum = .ok (L.sha256 f.zip ++ ' ' :: ' ' :: name)) :
    Intact L host symbol day f := by
  refine ⟨hzip, ?_⟩
  rcases hsum with hsum | ⟨checksum, name, hsum, hdecode⟩
  · rw [hsum]
    rfl
  · rw [hsum]
    exact passes_eq_true_iff.mpr ((names_checksumFile hL f.zip f.zip hdecode).mpr rfl)

/-- **What passes the check** is the published file, or does not open. -/
theorem passes_cases {f : PublishedFile} (hf : ServesFile L host symbol day f) {zip : Bytes}
    (hzip : downloadArchive L host symbol day = .ok (some zip))
    (hpasses : downloadChecksum L host symbol day >>= passes L zip = .ok true) :
    zip = f.zip ∨ zip ≠ f.zip ∧ ∃ e, L.unzip zip = .error e := by
  obtain ⟨j, hj⟩ := get_body hzip
  obtain ⟨checksum, hsum, hpasses⟩ := bind_eq_ok.mp hpasses
  by_cases hsame : zip = f.zip
  · exact Or.inl hsame
  · refine Or.inr ⟨hsame, ?_⟩
    cases checksum with
    | none =>
        obtain ⟨i, retryAfter, hi⟩ := get_absent hsum
        exact hf.unchecked i retryAfter j zip hi hj hsame
    | some checksum =>
        obtain ⟨i, hi⟩ := get_body hsum
        exact absurd (hf.collision i checksum j zip hi hj (passes_eq_true_iff.mp hpasses)) hsame

/-- Nothing arrives unless the file is downloaded as it is and passes. -/
theorem arrived_of_not_intact {f : PublishedFile} (h : ¬Intact L host symbol day f) :
    arrived L host symbol day (some f) = [] := if_neg h

/-- **A file that passes** is streamed to its end, or does not open. -/
theorem streamed_spec (hL : Documents L) {content : Option PublishedFile}
    (hserves : Serves L host symbol day content) {zip : Bytes}
    (hzip : downloadArchive L host symbol day = .ok (some zip))
    (hpasses : downloadChecksum L host symbol day >>= passes L zip = .ok true) (chunkSize : Int) :
    (streamed L zip symbol "binance" chunkSize).finishedRows = arrived L host symbol day content
      ∧ ((streamed L zip symbol "binance" chunkSize).failed = true →
        (streamed L zip symbol "binance" chunkSize).rows = []) := by
  cases content with
  | none =>
      obtain ⟨i, hi⟩ := get_body hzip
      exact absurd hi (hserves i zip)
  | some f =>
      have hf : ServesFile L host symbol day f := hserves
      rcases passes_cases hf hzip hpasses with rfl | ⟨hne, e, hunzip⟩
      · obtain ⟨tables, htables, hrows⟩ := streamed_published hL hf chunkSize
        have harrived : arrived L host symbol day (some f)
            = f.trades.map (archived L.outside symbol) := if_pos ⟨hzip, hpasses⟩
        rw [htables, harrived]
        exact ⟨hrows, fun h => by cases h⟩
      · -- damaged and unchecked, but no zip file
        have hstreamed : streamed L zip symbol "binance" chunkSize = .chunks [] true := by
          rw [streamed, hunzip]
        have hnot : ¬Intact L host symbol day f := by
          intro h
          rw [Intact, hzip] at h
          exact hne (Option.some.inj (Except.ok.inj h.1))
        rw [hstreamed, arrived_of_not_intact hnot]
        exact ⟨rfl, fun _ => rfl⟩

/-- **One fetch**: it finishes with the rows that arrive, or inserts none. -/
theorem makeFetchDay_spec (hL : Documents L) {content : Option PublishedFile}
    (hserves : Serves L host symbol day content) (chunkSize : Int) :
    (makeFetchDay L host symbol "binance" chunkSize day).finishedRows
        = arrived L host symbol day content
      ∧ ((makeFetchDay L host symbol "binance" chunkSize day).failed = true →
        (makeFetchDay L host symbol "binance" chunkSize day).rows = []) := by
  -- a fetch that inserts nothing, where nothing is to arrive
  have hquiet : ∀ {fetch : Fetch}, fetch.finishedRows = [] → fetch.rows = [] →
      (∀ f, content = some f → ¬Intact L host symbol day f) →
      fetch.finishedRows = arrived L host symbol day content
        ∧ (fetch.failed = true → fetch.rows = []) := by
    intro fetch hfinished hrows hnot
    refine ⟨hfinished.trans ?_, fun _ => hrows⟩
    cases hcontent : content with
    | none => rfl
    | some f => exact (arrived_of_not_intact (hnot f hcontent)).symm
  unfold makeFetchDay
  cases hzip : downloadArchive L host symbol day with
  | error e =>
      refine hquiet rfl rfl (fun f _ h => ?_)
      rw [Intact, hzip] at h
      cases h.1
  | ok body =>
      cases body with
      | none =>
          refine hquiet rfl rfl (fun f _ h => ?_)
          rw [Intact, hzip] at h
          cases h.1
      | some zip =>
          -- bytes arrived: whether they are the file's shows in the check
          have hsame : ∀ f, Intact L host symbol day f → zip = f.zip := by
            intro f h
            rw [Intact, hzip] at h
            cases h.1
            rfl
          dsimp only
          cases hpasses : downloadChecksum L host symbol day >>= passes L zip with
          | error e =>
              refine hquiet rfl rfl (fun f _ h => ?_)
              obtain rfl := hsame f h
              have hintact := h.2
              rw [hpasses] at hintact
              cases hintact
          | ok passed =>
              cases passed with
              | false =>
                  refine hquiet rfl rfl (fun f _ h => ?_)
                  obtain rfl := hsame f h
                  have hintact := h.2
                  rw [hpasses] at hintact
                  cases hintact
              | true => exact streamed_spec hL hserves hzip hpasses chunkSize

end

/-! ## A call of `run` -/

theorem exists_days_before {a b : Int} {days : Nat} :
    (∃ n : Nat, n < days ∧ a - ((n : Int) + 1) = b) ↔ a - days ≤ b ∧ b < a := by
  constructor
  · rintro ⟨n, hn, rfl⟩
    omega
  · rintro ⟨hle, hlt⟩
    exact ⟨(a - b - 1).toNat, by omega, by omega⟩

theorem mem_planDates {today : Date} {days : Nat} {d : Date} :
    d ∈ planDates today days ↔ today - days ≤ d ∧ d < today := by
  rw [← exists_days_before, planDates]
  simp only [List.mem_map, List.mem_reverse, List.mem_range]

/-- What arrives for a day, symbol after symbol. -/
def dayArrived (L : Library) (host : ArchiveHost) (content : Sym → Date → Option PublishedFile)
    (symbols : List Sym) (day : Date) : List Trade :=
  symbols.flatMap (fun s => arrived L host s day (content s day))

/-- **What a call of `run` stores.** Of the last `days` complete days each one without a partition
gets the trades of the symbols whose file arrived intact, if there are any; nothing else changes,
no row is left in memory, and the summary counts the rows stored. A file downloaded as it was
published arrives intact with its own checksum file, or without one. -/
theorem run_stores (L : Library) (hL : Documents L) (host : ArchiveHost)
    (content : Sym → Date → Option PublishedFile) (symbols : List Sym)
    (hserves : ∀ s ∈ symbols, ∀ d, Serves L host s d (content s d)) (today : Date) (days : Nat)
    (chunkSize : Int) (hdb : Hdb) :
    ∃ hdb', (run L host today days symbols "binance" chunkSize (HdbWriter.fresh hdb)).1
        = HdbWriter.fresh hdb'
      ∧ (∀ d, hdb'.at d
        = if ((today - days ≤ d ∧ d < today) ∧ (hdb.at d).trade = none)
            ∧ dayArrived L host content symbols d ≠ [] then
          (hdb.at d).written (dayArrived L host content symbols d)
        else hdb.at d)
      ∧ (run L host today days symbols "binance" chunkSize (HdbWriter.fresh hdb)).2.rows
        = ((processed (planDates today days) (existingPartitionDates hdb)).map
            (fun d => (dayArrived L host content symbols d).length)).sum
      ∧ ∀ s d f, downloadArchive L host s d = .ok (some f.zip) →
        (downloadChecksum L host s d = .ok none
          ∨ ∃ checksum name, downloadChecksum L host s d = .ok (some checksum)
            ∧ L.decode checksum = .ok (L.sha256 f.zip ++ ' ' :: ' ' :: name)) →
        arrived L host s d (some f) = f.trades.map (archived L.outside s) := by
  have hrows : ∀ d, finishedRows symbols (fun s => makeFetchDay L host s "binance" chunkSize) d
      = dayArrived L host content symbols d := by
    intro d
    unfold finishedRows dayArrived
    rw [List.flatMap_def, List.flatMap_def]
    exact congrArg List.flatten (List.map_congr_left (fun s hs =>
      (makeFetchDay_spec hL (hserves s hs d) chunkSize).1))
  have hleak : ∀ d ∈ processed (planDates today days) (existingPartitionDates hdb),
      NoLeak symbols (fun s => makeFetchDay L host s "binance" chunkSize) d := by
    intro d _ s hs hfailed
    exact (makeFetchDay_spec hL (hserves s hs d) chunkSize).2 hfailed
  -- without dates to plan the loop does nothing either
  have hrun : run L host today days symbols "binance" chunkSize (HdbWriter.fresh hdb)
      = runBackfill (planDates today days) (existingPartitionDates hdb) symbols
        (fun s => makeFetchDay L host s "binance" chunkSize) (HdbWriter.fresh hdb) := by
    unfold run
    cases hdates : planDates today days with
    | nil => rfl
    | cons d ds => rfl
  obtain ⟨hdb', hwriter, hat⟩ := runBackfill_at (planDates today days) (existingPartitionDates hdb)
    hdb hleak
  rw [hrun]
  refine ⟨hdb', hwriter, fun d => ?_, ?_, fun s d f hzip hsum =>
    if_pos (intact_of_checksumFile hL hzip hsum)⟩
  · rw [hat, hrows]
    refine if_congr (and_congr ?_ Iff.rfl) rfl rfl
    rw [mem_processed, mem_planDates, mem_existing, not_not]
  · rw [(runBackfill_spec _ _ _ _ _).2]
    simp only [hrows]

/-! ## A truncated download -/

/-- A zip with the file `t.csv` of one trade. -/
def zipSeven : Bytes :=
  [80, 75, 3, 4, 20, 0, 0, 0, 0, 0, 0, 0, 13, 93, 110, 154, 64, 5, 38, 0, 0, 0, 38, 0, 0, 0, 5, 0,
    0, 0, 116, 46, 99, 115, 118, 55, 44, 49, 46, 53, 44, 50, 44, 51, 46, 48, 44, 49, 55, 56, 54,
    52, 57, 50, 56, 48, 48, 50, 51, 57, 52, 53, 52, 44, 116, 114, 117, 101, 44, 116, 114, 117,
    101, 80, 75, 1, 2, 20, 3, 20, 0, 0, 0, 0, 0, 0, 0, 13, 93, 110, 154, 64, 5, 38, 0, 0, 0, 38, 0,
    0, 0, 5, 0, 0, 0, 0, 0, 0, 0, 0, 0, 0, 0, 128, 1, 0, 0, 0, 0, 116, 46, 99, 115, 118, 80, 75, 5,
    6, 0, 0, 0, 0, 1, 0, 1, 0, 51, 0, 0, 0, 73, 0, 0, 0, 0, 0]

/-- The digits of the digests of the zip and of its first hundred bytes. -/
def digitsSeven (b : Bytes) : List Nat :=
  if b = zipSeven then
    [10, 11, 15, 2, 6, 1, 5, 9, 6, 11, 8, 14, 11, 0, 11, 9, 9, 13, 12, 5, 3, 3, 8, 1, 2, 15, 11,
      8, 2, 10, 14, 11, 3, 1, 2, 2, 12, 10, 12, 14, 8, 14, 10, 12, 13, 0, 7, 11, 12, 11, 11, 8, 6,
      11, 10, 13, 0, 15, 5, 5, 12, 13, 11, 11]
  else
    [3, 12, 4, 11, 5, 9, 14, 3, 0, 12, 10, 10, 15, 1, 3, 10, 2, 7, 12, 1, 10, 15, 0, 12, 5, 12,
      15, 15, 10, 4, 3, 2, 1, 8, 13, 15, 5, 1, 9, 7, 10, 9, 0, 6, 8, 6, 14, 14, 6, 1, 6, 14, 10,
      15, 4, 5, 14, 5, 5, 6, 10, 14, 13, 4]

def sha256Seven (b : Bytes) : List Char := (digitsSeven b).map Nat.digitChar

def publishedSeven : PublishedFile := ⟨zipSeven, [.trade true false tradeSeven]⟩

/-- A row of a table, for texts and numbers of the line. -/
def rowTrade (r : TickRow) : Trade where
  time := r.time
  sym := match r.sym with
    | .str s => s
    | _ => ""
  venue := match r.venue with
    | .str s => s
    | _ => ""
  tradeID := r.tradeID
  price := ratOf r.price
  qty := ratOf r.qty
  eventTime := r.eventTime
  buyerMaker := r.buyerMaker

/-- `bytes.decode`. -/
def decodeSeven (b : Bytes) : Except PyErr (List Char) :=
  match JsonText.decodeUtf8 b with
  | some t => .ok t
  | none => .error .unicodeDecodeError

def librarySeven : Library where
  outside := { smallLibrary with table := fun rows => .ok (rows.map rowTrade) }
  digit := Char.isDigit
  sha256 := sha256Seven
  decode := decodeSeven
  unzip := fun b =>
    if b = zipSeven then .ok [⟨"t.csv", archiveText publishedSeven.file⟩] else .error .osError

/-- The text of the checksum file of the zip. -/
def checksumSeven : List Char := sha256Seven zipSeven ++ ' ' :: ' ' :: "t.csv".toList

/-- One symbol's first attempt fails, another's checksum file is cut, and the third one's zip is
cut and has no checksum. -/
def hostSeven : ArchiveHost where
  zip := fun s _ i =>
    if s = "BTCUSDT" then if i = 0 then .urlError else .success zipSeven
    else if s = "SOLUSDT" then .success zipSeven
    else .success (zipSeven.take 100)
  checksum := fun s _ _ =>
    if s = "BTCUSDT" then .success (JsonText.bytes checksumSeven)
    else if s = "SOLUSDT" then .success (JsonText.bytes (checksumSeven.take 60))
    else .httpError 404 none

theorem documents_librarySeven : Documents librarySeven where
  rows := ⟨smallLibrary_documented.int_repr, smallLibrary_documented.float_decimal,
    smallLibrary_documented.float_float, smallLibrary_documented.digit_ascii,
    smallLibrary_documented.wire_eq⟩
  digest := by
    intro b
    have hdigit : ∀ n < 16, IsHex (Nat.digitChar n) := by
      unfold IsHex
      decide
    have hdigits : digitsSeven b ≠ [] ∧ ∀ n ∈ digitsSeven b, n < 16 := by
      unfold digitsSeven
      split
      · decide
      · decide
    refine ⟨mt List.map_eq_nil_iff.mp hdigits.1, fun c hc => ?_⟩
    obtain ⟨n, hn, rfl⟩ := List.mem_map.mp hc
    exact hdigit n (hdigits.2 n hn)
  table := fun symbol ts _ => by
    show Except.ok ((ts.map _).map rowTrade) = _
    rw [List.map_map]
    rfl

theorem unzip_zipSeven :
    librarySeven.unzip zipSeven = .ok [⟨"t.csv", archiveText publishedSeven.file⟩] := by
  simp only [librarySeven, if_true]

theorem decode_librarySeven (t : List Char) : librarySeven.decode (JsonText.bytes t) = .ok t := by
  unfold librarySeven
  show decodeSeven _ = _
  rw [decodeSeven, JsonText.decodeUtf8_bytes]

theorem take_zipSeven_ne : zipSeven.take 100 ≠ zipSeven := by
  intro hsame
  exact absurd (congrArg List.length hsame) (by simp [zipSeven])

/-- No other bytes have its digest here. -/
theorem sha256Seven_injective {b : Bytes} (h : sha256Seven b = sha256Seven zipSeven) :
    b = zipSeven := by
  by_contra hne
  have hhead := congrArg List.head? h
  rw [sha256Seven, sha256Seven, digitsSeven, digitsSeven, if_neg hne, if_pos rfl] at hhead
  exact absurd hhead (by decide)

theorem decode_checksumSeven : librarySeven.decode (JsonText.bytes checksumSeven)
    = .ok (librarySeven.sha256 zipSeven ++ ' ' :: ' ' :: "t.csv".toList) :=
  decode_librarySeven checksumSeven

/-- The cut checksum file names nothing that arrives. -/
theorem not_names_cut : ¬Names librarySeven (JsonText.bytes (checksumSeven.take 60)) zipSeven := by
  rintro ⟨text, w, htext, hw, hdigest⟩
  rw [decode_librarySeven] at htext
  rw [← Except.ok.inj htext] at hw
  have hword : firstWord (checksumSeven.take 60) = .ok ((sha256Seven zipSeven).take 60) := by
    decide +kernel
  rw [hword] at hw
  rw [← Except.ok.inj hw] at hdigest
  have hother : sha256Seven zipSeven
      ≠ (strip ((sha256Seven zipSeven).take 60)).map Char.toLower := by decide +kernel
  exact hother hdigest

theorem serves_hostSeven (s : Sym) (d : Date) :
    ServesFile librarySeven hostSeven s d publishedSeven where
  entries := ⟨"t.csv", _, unzip_zipSeven, rfl⟩
  finite := by
    intro t ht
    obtain rfl : t = tradeSeven := List.mem_singleton.mp ht
    exact ⟨⟨3 / 2, rfl⟩, ⟨2, rfl⟩⟩
  collision := by
    intro i checksum j zip hchecksum hzip hnames
    simp only [hostSeven] at hchecksum hzip
    split at hchecksum
    · -- the whole checksum file names no other bytes
      cases hchecksum
      exact sha256Seven_injective
        ((names_checksumFile documents_librarySeven zip zipSeven decode_checksumSeven).mp hnames)
    · rename_i hbtc
      rw [if_neg hbtc] at hzip
      split at hchecksum
      · rename_i hsol
        rw [if_pos hsol] at hzip
        cases hzip
        rfl
      · cases hchecksum
  unchecked := by
    intro i retryAfter j zip hchecksum hzip hne
    refine ⟨.osError, ?_⟩
    show (if zip = zipSeven then _ else _) = _
    exact if_neg hne

/-- One file arrives, after a failed attempt. The second one does not pass, the third one does
not open. -/
theorem run_stores_seven :
    ∃ hdb', (run librarySeven hostSeven 20678 1 ["BTCUSDT", "SOLUSDT", "ETHUSDT"] "binance" 500000
        (HdbWriter.fresh Hdb.empty)).1 = HdbWriter.fresh hdb'
      ∧ hdb'.at 20677 = (Hdb.empty.at 20677).written
        [archived librarySeven.outside "BTCUSDT" tradeSeven] := by
  obtain ⟨hdb', hrun, hat, -, hintact⟩ := run_stores librarySeven documents_librarySeven hostSeven
    (fun _ _ => some publishedSeven) ["BTCUSDT", "SOLUSDT", "ETHUSDT"]
    (fun s _ d => serves_hostSeven s d) 20678 1 500000 Hdb.empty
  have hbtc : arrived librarySeven hostSeven "BTCUSDT" 20677 (some publishedSeven)
      = [archived librarySeven.outside "BTCUSDT" tradeSeven] := by
    refine hintact "BTCUSDT" 20677 publishedSeven ?_
      (Or.inr ⟨JsonText.bytes checksumSeven, "t.csv".toList, ?_, decode_checksumSeven⟩)
    · simp [downloadArchive, get, getLoop, hostSeven, httpRetries, rateLimitRetries,
        publishedSeven]
    · simp [downloadChecksum, get, getLoop, hostSeven, httpRetries, rateLimitRetries]
  have hsol : arrived librarySeven hostSeven "SOLUSDT" 20677 (some publishedSeven) = [] := by
    refine arrived_of_not_intact (fun h => ?_)
    have hsum : downloadChecksum librarySeven hostSeven "SOLUSDT" 20677
        = .ok (some (JsonText.bytes (checksumSeven.take 60))) := by
      simp [downloadChecksum, get, getLoop, hostSeven, httpRetries, rateLimitRetries]
    obtain ⟨checksum, hchecksum, hpasses⟩ := bind_eq_ok.mp h.2
    rw [hsum] at hchecksum
    rw [← Except.ok.inj hchecksum] at hpasses
    exact not_names_cut (passes_eq_true_iff.mp hpasses)
  have heth : arrived librarySeven hostSeven "ETHUSDT" 20677 (some publishedSeven) = [] := by
    refine arrived_of_not_intact (fun h => ?_)
    have hzip : downloadArchive librarySeven hostSeven "ETHUSDT" 20677
        = .ok (some (zipSeven.take 100)) := by
      simp [downloadArchive, get, getLoop, hostSeven, httpRetries, rateLimitRetries]
    have hsame := h.1
    rw [hzip] at hsame
    exact take_zipSeven_ne (Option.some.inj (Except.ok.inj hsame))
  have harrived : dayArrived librarySeven hostSeven (fun _ _ => some publishedSeven)
      ["BTCUSDT", "SOLUSDT", "ETHUSDT"] 20677
        = [archived librarySeven.outside "BTCUSDT" tradeSeven] := by
    rw [dayArrived, List.flatMap_cons, List.flatMap_cons, List.flatMap_cons, hbtc, hsol, heth]
    rfl
  refine ⟨hdb', hrun, ?_⟩
  rw [hat, harrived]
  exact if_pos ⟨⟨⟨by decide, by decide⟩, rfl⟩, List.cons_ne_nil _ _⟩

end Backfill

end NanoTick

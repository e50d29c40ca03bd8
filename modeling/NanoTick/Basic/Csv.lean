import Mathlib.Tactic

set_option autoImplicit false

/-! # Text files and CSV

A text file is read line by line, each with its newline (`lines`), after every kind of newline has
been made a `'\n'` (`universalNewlines`). `Csv.Reader` is the state machine of a CSV reader with
its default dialect: commas, double quotes, a doubled quote for a quote; `records` runs it over the
lines of a file. `records_file` says that a file of plain fields is read back.
-/

namespace Csv

/-! ## Lines -/

/-- `'\r\n'` and `'\r'` become `'\n'`. -/
def universalNewlines : List Char → List Char
  | [] => []
  | ['\r'] => ['\n']
  | '\r' :: '\n' :: t => '\n' :: universalNewlines t
  | '\r' :: c :: t => '\n' :: universalNewlines (c :: t)
  | c :: t => c :: universalNewlines t

/-- The lines of a text with their newlines; the last one may have none. -/
def lines : List Char → List (List Char)
  | [] => []
  | c :: t =>
      if c = '\n' then [c] :: lines t
      else
        match lines t with
        | [] => [[c]]
        | l :: ls => (c :: l) :: ls

theorem universalNewlines_of_notMem {l : List Char} (h : '\r' ∉ l) : universalNewlines l = l := by
  induction l with
  | nil => rfl
  | cons c t ih =>
      obtain ⟨hc, ht⟩ := not_or.mp (fun hmem => h (List.mem_cons.mpr hmem))
      rw [universalNewlines]
      · rw [ih ht]
      · exact fun h _ => hc h.symm
      · exact fun _ h _ => hc h.symm
      · exact fun _ _ h _ => hc h.symm

/-- A line that ends is the first one. -/
theorem lines_append {l : List Char} (h : '\n' ∉ l) (t : List Char) :
    lines (l ++ '\n' :: t) = (l ++ ['\n']) :: lines t := by
  induction l with
  | nil => rfl
  | cons c l ih =>
      obtain ⟨hc, hl⟩ := not_or.mp (fun hmem => h (List.mem_cons.mpr hmem))
      rw [List.cons_append, lines, if_neg (Ne.symm hc), ih hl]
      rfl

/-- A last line without a newline. -/
theorem lines_last {l : List Char} (h : '\n' ∉ l) (hne : l ≠ []) : lines l = [l] := by
  induction l with
  | nil => exact absurd rfl hne
  | cons c l ih =>
      obtain ⟨hc, hl⟩ := not_or.mp (fun hmem => h (List.mem_cons.mpr hmem))
      rw [lines, if_neg (Ne.symm hc)]
      cases l with
      | nil => rfl
      | cons d l => rw [ih hl (List.cons_ne_nil d l)]

/-! ## The reader -/

inductive State where
  | startRecord
  | startField
  | inField
  | inQuoted
  | quoteInQuoted
  | eatNewline
  deriving DecidableEq, Repr

/-- The reader within a record: the field at hand and the fields before it. -/
structure Reader where
  state : State
  field : List Char
  fields : List (List Char)
  deriving DecidableEq, Repr

namespace Reader

/-- The reader before a record. -/
def start : Reader := ⟨.startRecord, [], []⟩

/-- The field is complete. -/
def save (r : Reader) (state : State) : Reader := ⟨state, [], r.fields ++ [r.field]⟩

/-- The field has one character more. -/
def add (r : Reader) (state : State) (c : Char) : Reader := ⟨state, r.field ++ [c], r.fields⟩

def isNewline (c : Char) : Bool := c = '\n' || c = '\r'

/-- The first character of a field. -/
def enter (r : Reader) (c : Char) : Reader :=
  if c = '"' then { r with state := .inQuoted }
  else if c = ',' then r.save .startField
  else r.add .inField c

/-- One character. Nothing but newlines may follow the newline that ends a record. -/
def char (r : Reader) (c : Char) : Option Reader :=
  match r.state with
  | .startRecord => if isNewline c then some { r with state := .eatNewline } else some (r.enter c)
  | .startField => if isNewline c then some (r.save .eatNewline) else some (r.enter c)
  | .inField =>
      if isNewline c then some (r.save .eatNewline)
      else if c = ',' then some (r.save .startField)
      else some (r.add .inField c)
  | .inQuoted =>
      if c = '"' then some { r with state := .quoteInQuoted } else some (r.add .inQuoted c)
  | .quoteInQuoted =>
      if c = '"' then some (r.add .inQuoted c)
      else if c = ',' then some (r.save .startField)
      else if isNewline c then some (r.save .eatNewline)
      else some (r.add .inField c)
  | .eatNewline => if isNewline c then some r else none

/-- The end of a line. A quoted field goes on in the next one. -/
def endLine (r : Reader) : Reader :=
  match r.state with
  | .startRecord => r
  | .startField => r.save .startRecord
  | .inField => r.save .startRecord
  | .inQuoted => r
  | .quoteInQuoted => r.save .startRecord
  | .eatNewline => { r with state := .startRecord }

/-- One line; none is an error. -/
def line (r : Reader) (l : List Char) : Option Reader := (l.foldlM char r).map endLine

end Reader

/-- The records of the lines, up to an error, and whether there was none. -/
def records : Reader → List (List Char) → List (List (List Char)) × Bool
  | r, [] =>
      if r.field ≠ [] ∨ r.state = .inQuoted then ([r.fields ++ [r.field]], true) else ([], true)
  | r, l :: ls =>
      match r.line l with
      | none => ([], false)
      | some r =>
          if r.state = .startRecord then
            let (rest, ok) := records .start ls
            (r.fields :: rest, ok)
          else records r ls

/-! ## Plain fields -/

/-- A field that is not empty and holds nothing the reader treats as special. -/
structure Plain (f : List Char) : Prop where
  ne_nil : f ≠ []
  plain : ∀ c ∈ f, c ≠ ',' ∧ c ≠ '"' ∧ Reader.isNewline c = false

theorem plain_of_all {f : List Char} (hne : f ≠ [])
    (h : f.all (fun c => c ≠ ',' && c ≠ '"' && !Reader.isNewline c) = true) :
    Plain f where
  ne_nil := hne
  plain := fun c hc => by
    have hall := List.all_eq_true.mp h c hc
    simpa [and_assoc] using hall

/-- The parts with a separator between them. -/
def joinWith (sep : Char) : List (List Char) → List Char
  | [] => []
  | [l] => l
  | l :: m :: ls => l ++ sep :: joinWith sep (m :: ls)

/-- The text of a record. -/
def recordText (fs : List (List Char)) : List Char := joinWith ',' fs

/-- The text of a file. A file that ends with a newline ends with an empty record. -/
def fileText (rows : List (List (List Char))) : List Char := joinWith '\n' (rows.map recordText)

theorem mem_joinWith {sep : Char} {ls : List (List Char)} {c : Char} (h : c ∈ joinWith sep ls) :
    c = sep ∨ ∃ l ∈ ls, c ∈ l := by
  induction ls with
  | nil => cases h
  | cons l ls ih =>
      cases ls with
      | nil => exact Or.inr ⟨l, List.mem_cons_self, h⟩
      | cons m ls =>
          rw [joinWith, List.mem_append, List.mem_cons] at h
          rcases h with h | h | h
          · exact Or.inr ⟨l, List.mem_cons_self, h⟩
          · exact Or.inl h
          · rcases ih h with hsep | ⟨l', hl', hc⟩
            · exact Or.inl hsep
            · exact Or.inr ⟨l', List.mem_cons_of_mem l hl', hc⟩

/-- The text of a plain record has no newline in it. -/
theorem isNewline_recordText {fs : List (List Char)} (h : ∀ f ∈ fs, Plain f) {c : Char}
    (hc : c ∈ recordText fs) : Reader.isNewline c = false := by
  rcases mem_joinWith hc with rfl | ⟨f, hf, hcf⟩
  · rfl
  · exact ((h f hf).plain c hcf).2.2

namespace Reader

theorem enter_plain (r : Reader) {c : Char} (h : c ≠ ',' ∧ c ≠ '"' ∧ isNewline c = false) :
    r.enter c = r.add .inField c := by
  unfold enter
  rw [if_neg h.2.1, if_neg h.1]

theorem char_inField {f : List Char} {fs : List (List Char)} {c : Char}
    (h : c ≠ ',' ∧ c ≠ '"' ∧ isNewline c = false) :
    char ⟨.inField, f, fs⟩ c = some ⟨.inField, f ++ [c], fs⟩ := by
  show (if isNewline c then _ else if c = ',' then _ else _) = _
  rw [if_neg (by rw [h.2.2]; decide), if_neg h.1]
  rfl

/-- Plain characters go on with the field. -/
theorem foldlM_inField {f g : List Char} {fs : List (List Char)}
    (h : ∀ c ∈ g, c ≠ ',' ∧ c ≠ '"' ∧ isNewline c = false) :
    g.foldlM char ⟨.inField, f, fs⟩ = some ⟨.inField, f ++ g, fs⟩ := by
  induction g generalizing f with
  | nil => rw [List.foldlM_nil, List.append_nil]; rfl
  | cons c g ih =>
      obtain ⟨hc, hg⟩ := List.forall_mem_cons.mp h
      rw [List.foldlM_cons, char_inField hc]
      show g.foldlM char ⟨.inField, f ++ [c], fs⟩ = _
      rw [ih hg, List.append_assoc]
      rfl

/-- A plain field is read from its first character on. -/
theorem foldlM_plain {f : List Char} (hf : Plain f) {state : State}
    (hstate : state = .startRecord ∨ state = .startField) (fs : List (List Char)) :
    f.foldlM char ⟨state, [], fs⟩ = some ⟨.inField, f, fs⟩ := by
  obtain ⟨c, g, rfl⟩ := List.exists_cons_of_ne_nil hf.ne_nil
  obtain ⟨hc, hg⟩ := List.forall_mem_cons.mp hf.plain
  have hfirst : char ⟨state, [], fs⟩ c = some ⟨.inField, [c], fs⟩ := by
    rcases hstate with rfl | rfl
    · show (if isNewline c then _ else _) = _
      rw [if_neg (by rw [hc.2.2]; decide), enter_plain _ hc]
      rfl
    · show (if isNewline c then _ else _) = _
      rw [if_neg (by rw [hc.2.2]; decide), enter_plain _ hc]
      rfl
  rw [List.foldlM_cons, hfirst]
  exact foldlM_inField hg

/-- The fields of a record, the last one still at hand. -/
theorem foldlM_recordText {fs : List (List Char)} (hfs : ∀ f ∈ fs, Plain f) (hne : fs ≠ [])
    {state : State} (hstate : state = .startRecord ∨ state = .startField)
    (before : List (List Char)) : ∃ r : Reader,
      (recordText fs).foldlM char ⟨state, [], before⟩ = some r
        ∧ r.state = .inField ∧ r.fields ++ [r.field] = before ++ fs := by
  induction fs generalizing state before with
  | nil => exact absurd rfl hne
  | cons f fs ih =>
      obtain ⟨hf, hrest⟩ := List.forall_mem_cons.mp hfs
      cases fs with
      | nil => exact ⟨⟨.inField, f, before⟩, foldlM_plain hf hstate before, rfl, rfl⟩
      | cons g fs =>
          obtain ⟨r, hr, hin, hfields⟩ :=
            ih hrest (List.cons_ne_nil g fs) (Or.inr rfl) (before ++ [f])
          refine ⟨r, ?_, hin, hfields.trans (List.append_assoc before [f] _)⟩
          have hcomma : char ⟨.inField, f, before⟩ ','
              = some ⟨.startField, [], before ++ [f]⟩ := rfl
          show (f ++ ',' :: recordText (g :: fs)).foldlM char _ = _
          rw [List.foldlM_append, foldlM_plain hf hstate before]
          show (',' :: recordText (g :: fs)).foldlM char ⟨.inField, f, before⟩ = _
          rw [List.foldlM_cons, hcomma]
          exact hr

/-- **A plain record is read back** from its line, with or without the newline. -/
theorem line_recordText {fs : List (List Char)} (hfs : ∀ f ∈ fs, Plain f) :
    start.line (recordText fs) = some ⟨.startRecord, [], fs⟩
      ∧ start.line (recordText fs ++ ['\n']) = some ⟨.startRecord, [], fs⟩ := by
  by_cases hnil : fs = []
  · subst hnil
    exact ⟨rfl, rfl⟩
  · obtain ⟨⟨state, field, fields⟩, hr, hin, hfields⟩ :=
      foldlM_recordText hfs hnil (Or.inl rfl) []
    dsimp only at hin hfields
    subst hin
    have hstart : (recordText fs).foldlM char start = some ⟨.inField, field, fields⟩ := hr
    have hsave : fields ++ [field] = fs := hfields
    unfold line
    constructor
    · rw [hstart]
      show some (save _ _) = _
      rw [save, hsave]
    · rw [List.foldlM_append, hstart]
      show some (endLine (save _ _)) = _
      rw [save, hsave]
      rfl

end Reader

/-! ## Files -/

theorem records_cons {l : List Char} {ls : List (List Char)} {fs : List (List Char)}
    (h : Reader.start.line l = some ⟨.startRecord, [], fs⟩) :
    records .start (l :: ls) = (fs :: (records .start ls).1, (records .start ls).2) := by
  rw [records, h]
  rfl

/-- **A file of plain fields is read back**, but for an empty record at the end. -/
theorem records_fileText {rows : List (List (List Char))} (h : ∀ fs ∈ rows, ∀ f ∈ fs, Plain f) :
    ∃ rs, records .start (lines (fileText rows)) = (rs, true)
      ∧ rs.filter (· ≠ []) = rows.filter (· ≠ []) := by
  induction rows with
  | nil => exact ⟨[], rfl, rfl⟩
  | cons fs rows ih =>
      obtain ⟨hfs, hrest⟩ := List.forall_mem_cons.mp h
      have hno : '\n' ∉ recordText fs := fun hmem =>
        Bool.noConfusion (isNewline_recordText hfs hmem : true = false)
      obtain ⟨hlast, hline⟩ := Reader.line_recordText hfs
      cases rows with
      | nil =>
          show ∃ rs, records .start (lines (recordText fs)) = (rs, true) ∧ _
          by_cases hnil : recordText fs = []
          · -- the empty line is not even a line
            rw [hnil] at hlast
            cases hlast
            exact ⟨[], by rw [hnil]; rfl, rfl⟩
          · refine ⟨[fs], ?_, rfl⟩
            rw [lines_last hno hnil, records_cons hlast]
            rfl
      | cons gs rows =>
          obtain ⟨rs, hrs, hfilter⟩ := ih hrest
          refine ⟨fs :: rs, ?_, ?_⟩
          · show records .start (lines (recordText fs ++ '\n' :: fileText (gs :: rows))) = _
            rw [lines_append hno, records_cons hline, hrs]
          · rw [List.filter_cons, List.filter_cons, hfilter]

/-- Its text has newlines of one kind only. -/
theorem universalNewlines_fileText {rows : List (List (List Char))}
    (h : ∀ fs ∈ rows, ∀ f ∈ fs, Plain f) : universalNewlines (fileText rows) = fileText rows := by
  refine universalNewlines_of_notMem (fun hmem => ?_)
  rcases mem_joinWith hmem with hn | ⟨l, hl, hc⟩
  · exact absurd hn (by decide)
  · obtain ⟨fs, hfs, rfl⟩ := List.mem_map.mp hl
    exact Bool.noConfusion (isNewline_recordText (h fs hfs) hc : true = false)

end Csv

import NanoTick.Basic.Paths
import NanoTick.Basic.Runs
import NanoTick.Live.FeedHandler
import Mathlib.Tactic

set_option autoImplicit false

/-! # The recorder

`Recorder` (`resources/recorder.py`) appends every tick to the file of its venue, symbol and UTC
date. When a tick of another date arrives for a venue and symbol, the open file is closed and a
background thread runs `gzip_file` on it: copy it into `<path>.gz`, then remove it.

The disk is modelled down to what the interleaving needs: a path leads to a file, a handle keeps
the file it opened whatever happens to the path, and text written to a handle reaches the file
when the buffer spills, at a flush or at a close. The step of a background thread is one call:
opening both files, copying one chunk, reaching the end, removing the path. No call fails here.

`open_files` has an entry for each venue and symbol, but the file is found by its path, and venues
and symbols that differ may lead to one directory (`namesIn`).
-/

namespace NanoTick

open Paths Python Runs

abbrev Bytes : Type := List UInt8

/-- The key of `open_files`: the venue and the symbol in lower case. -/
abbrev FileKey : Type := String × String

/-- A file `<date>.ndjson` of a directory. -/
abbrev DayPath : Type := Path × Date

/-- How the file of a tick is named: `str.lower`, and the directory that `data_dir / venue / symbol`
leads to. -/
structure Names where
  lower : String → String
  directory : FileKey → Path

/-- The names below `data_dir`, on a file system without links. -/
def namesIn (lower : String → String) (dataDir : Path) : Names where
  lower := lower
  directory := fun key => resolve (join (join dataDir key.1) key.2)

example : (namesIn id ["data"]).directory ("a", "b/c")
    = (namesIn id ["data"]).directory ("a/b", "c") := by
  decide +kernel

/-- Plain names lead to a directory of their own. -/
theorem namesIn_directory_inj {lower : String → String} {dataDir : Path} {key key' : FileKey}
    (hkey : Plain key.1 ∧ Plain key.2) (hkey' : Plain key'.1 ∧ Plain key'.2)
    (h : (namesIn lower dataDir).directory key = (namesIn lower dataDir).directory key') :
    key = key' := by
  obtain ⟨hvenue, hsymbol⟩ := resolve_join_join_inj hkey.1 hkey.2 hkey'.1 hkey'.2 h
  exact Prod.ext hvenue hsymbol

/-! ## State -/

/-- An open text file: its name, the file it writes to, and the text not yet in it. -/
structure Handle where
  path : DayPath
  file : Nat
  pending : Bytes
  deriving DecidableEq

/-- Where a call of `gzip_file` stands. -/
inductive Stage where
  | started
  | copying (file : Nat) (written : Bytes)
  | copied
  | finished
  deriving DecidableEq

/-- A background call of `gzip_file`. -/
structure Job where
  path : DayPath
  stage : Stage
  deriving DecidableEq

/-- The recorder with its disk: `plain` is the directory of `.ndjson` files, `contents` what the
files hold, `gz` the decompressed contents of the `.ndjson.gz` files. `recorded` lists the lines
recorded for each path; it is only recorded. -/
structure Recorder where
  openFiles : FileKey → Option Handle
  jobs : List Job
  plain : DayPath → Option Nat
  contents : Nat → Bytes
  nextFile : Nat
  gz : DayPath → Option Bytes
  recorded : DayPath → List Bytes

namespace Recorder

/-- A new recorder over an empty directory. -/
def init : Recorder where
  openFiles := fun _ => none
  jobs := []
  plain := fun _ => none
  contents := fun _ => []
  nextFile := 0
  gz := fun _ => none
  recorded := fun _ => []

/-! ## `_file_for` and `record` -/

/-- `old_handle.close()`, and the thread that compresses the file. -/
def closeFile (s : Recorder) (key : FileKey) (h : Handle) : Recorder :=
  { s with
    openFiles := Function.update s.openFiles key none
    contents := Function.update s.contents h.file (s.contents h.file ++ h.pending)
    jobs := s.jobs ++ [⟨h.path, .started⟩] }

/-- `open(path, "a")`: the file at the path, or the next one, in which nothing is yet. -/
def openFile (s : Recorder) (key : FileKey) (p : DayPath) : Recorder :=
  match s.plain p with
  | some file => { s with openFiles := Function.update s.openFiles key (some ⟨p, file, []⟩) }
  | none =>
      { s with
        plain := Function.update s.plain p (some s.nextFile)
        nextFile := s.nextFile + 1
        openFiles := Function.update s.openFiles key (some ⟨p, s.nextFile, []⟩) }

/-- `_file_for`. -/
def fileFor (names : Names) (s : Recorder) (key : FileKey) (date : Date) : Recorder :=
  match s.openFiles key with
  | some h =>
      if h.path.2 = date then s
      -- a tick of any other date, earlier ones included, is a rollover
      else (s.closeFile key h).openFile key (names.directory key, date)
  | none => s.openFile key (names.directory key, date)

/-- `handle.write`. -/
def write (s : Recorder) (key : FileKey) (line : Bytes) : Recorder :=
  match s.openFiles key with
  | some h =>
      { s with
        openFiles :=
          Function.update s.openFiles key (some { h with pending := h.pending ++ line }) }
  | none => s

/-- The line is one of those recorded for the path. -/
def note (s : Recorder) (p : DayPath) (line : Bytes) : Recorder :=
  { s with recorded := Function.update s.recorded p (s.recorded p ++ [line]) }

/-- The key of a tick's file. -/
def keyOf (names : Names) (tick : Tick) : FileKey := (tick.venue, names.lower tick.symbol)

/-- The path of a tick's file. -/
def pathOf (names : Names) (tick : Tick) (date : Date) : DayPath :=
  (names.directory (keyOf names tick), date)

/-- `record`, for `json.dumps`. A timestamp out of range raises before any file is touched. -/
def record (dumps : Tick → Bytes) (names : Names) (s : Recorder) (tick : Tick) : Recorder :=
  match utcDate tick.tradeTs with
  | .error _ => s
  | .ok date =>
      let key : FileKey := keyOf names tick
      let line : Bytes := dumps tick ++ [10]
      ((s.fileFor names key date).write key line).note (pathOf names tick date) line

/-! ## The buffers -/

/-- The first `n` bytes of a handle's buffer reach its file. -/
def spill (s : Recorder) (key : FileKey) (n : Nat) : Recorder :=
  match s.openFiles key with
  | some h =>
      { s with
        openFiles :=
          Function.update s.openFiles key (some { h with pending := h.pending.drop n })
        contents :=
          Function.update s.contents h.file (s.contents h.file ++ h.pending.take n) }
  | none => s

/-- One handle of `flush`. -/
def flushFile (s : Recorder) (key : FileKey) : Recorder :=
  match s.openFiles key with
  | some h => s.spill key h.pending.length
  | none => s

/-! ## `gzip_file` -/

/-- The next call of job `i`: `n` is the size of the chunk it reads when it copies. -/
def gzipStep (s : Recorder) (i n : Nat) : Option Recorder :=
  match s.jobs[i]? with
  | none => none
  | some job =>
      match job.stage with
      | .started =>
          match s.plain job.path with
          -- `OSError` is logged and ends the call
          | none => some { s with jobs := s.jobs.set i { job with stage := .finished } }
          | some file => some { s with
              gz := Function.update s.gz job.path (some [])
              jobs := s.jobs.set i { job with stage := .copying file [] } }
      | .copying file written =>
          let chunk := ((s.contents file).drop written.length).take n
          if chunk = [] then
            if n = 0 then none
            else some { s with jobs := s.jobs.set i { job with stage := .copied } }
          else some { s with
            gz := Function.update s.gz job.path (some (written ++ chunk))
            jobs := s.jobs.set i { job with stage := .copying file (written ++ chunk) } }
      | .copied => some { s with
          plain := Function.update s.plain job.path none
          jobs := s.jobs.set i { job with stage := .finished } }
      | .finished => none

/-! ## Runs -/

/-- What can happen next: a tick, the buffer of a handle written out in part or flushed, or the
next call of a background thread. -/
inductive Action where
  | record (tick : Tick)
  | spill (key : FileKey) (n : Nat)
  | flush (key : FileKey)
  | gzip (i n : Nat)

def step (dumps : Tick → Bytes) (names : Names) (s : Recorder) : Action → Option Recorder
  | .record tick => some (s.record dumps names tick)
  | .spill key n => some (s.spill key n)
  | .flush key => some (s.flushFile key)
  | .gzip i n => s.gzipStep i n

/-- All compressions have finished and the open files are flushed. -/
def Settled (s : Recorder) : Prop :=
  (∀ job ∈ s.jobs, job.stage = .finished)
    ∧ ∀ key h, s.openFiles key = some h → h.pending = []

/-- The text of `<date>.ndjson`, empty when there is no such file. -/
def plainText (s : Recorder) (p : DayPath) : Bytes := ((s.plain p).map s.contents).getD []

/-- The decompressed text of `<date>.ndjson.gz`. -/
def gzText (s : Recorder) (p : DayPath) : Bytes := (s.gz p).getD []

/-- The two files of a path consist of the lines recorded for it, each as often as it was
recorded. -/
def Kept (s : Recorder) : Prop :=
  ∀ p, ∃ zipped lines : List Bytes, (zipped ++ lines).Perm (s.recorded p)
    ∧ s.gzText p = zipped.flatten ∧ s.plainText p = lines.flatten

/-- The paths whose file was closed. -/
def closed (s : Recorder) : List DayPath := s.jobs.map Job.path

/-- A tick does not close a file that a rollover closed before, and is not recorded into a file
that is being compressed. -/
def Timely (names : Names) (s : Recorder) : Action → Prop
  | .record tick => ∀ date ∈ (utcDate tick.tradeTs).toOption,
      (∀ h ∈ s.openFiles (keyOf names tick), h.path.2 ≠ date → h.path ∉ s.closed)
      ∧ ∀ job ∈ s.jobs, job.path = pathOf names tick date → job.stage = .finished
  | _ => True

instance (names : Names) (s : Recorder) : ∀ a, Decidable (Timely names s a)
  | .record tick => inferInstanceAs (Decidable (∀ date ∈ (utcDate tick.tradeTs).toOption, _ ∧ _))
  | .spill _ _ => inferInstanceAs (Decidable True)
  | .flush _ => inferInstanceAs (Decidable True)
  | .gzip _ _ => inferInstanceAs (Decidable True)

/-- A tick is not recorded into a file that is open for another venue and symbol. -/
def Unshared (names : Names) (s : Recorder) : Action → Prop
  | .record tick => ∀ date ∈ (utcDate tick.tradeTs).toOption, ∀ key h,
      s.openFiles key = some h → h.path = pathOf names tick date → key = keyOf names tick
  | _ => True

/-- The ticks come in time for their files, and each has its file for itself. -/
def Orderly (names : Names) (s : Recorder) (a : Action) : Prop :=
  Timely names s a ∧ Unshared names s a

/-! ## The invariant -/

/-- The text recorded for a path. -/
def text (s : Recorder) (p : DayPath) : Bytes := (s.recorded p).flatten

/-- A file under compression is complete, and its copy is a part of it. -/
def JobInv (s : Recorder) (job : Job) : Prop :=
  match job.stage with
  | .started => s.gz job.path = none
      ∧ ∃ file, s.plain job.path = some file ∧ s.contents file = s.text job.path
  | .copying file written => s.plain job.path = some file ∧ s.contents file = s.text job.path
      ∧ s.gz job.path = some written ∧ written <+: s.text job.path
  | .copied => s.gz job.path = some (s.text job.path)
  | .finished => True

/-- No call is still at work on the path. -/
def Idle (s : Recorder) (p : DayPath) : Prop :=
  ∀ job ∈ s.jobs, job.path = p → job.stage = .finished

/-- The path is that of an open handle. -/
def IsOpen (s : Recorder) (p : DayPath) : Prop :=
  ∃ key h, s.openFiles key = some h ∧ h.path = p

/-- A handle has written, or still holds, all that was recorded for its path and is not
compressed yet. -/
structure HandleInv (names : Names) (s : Recorder) (key : FileKey) (h : Handle) : Prop where
  directory : h.path.1 = names.directory key
  idle : s.Idle h.path
  file_eq : s.plain h.path = some h.file
  complete : ∃ zipped lines, s.recorded h.path = zipped ++ lines
    ∧ s.gzText h.path = zipped.flatten ∧ s.contents h.file ++ h.pending = lines.flatten

structure Inv (names : Names) (s : Recorder) : Prop where
  opened : ∀ key h, s.openFiles key = some h → HandleInv names s key h
  alone : ∀ key key' h h', s.openFiles key = some h → s.openFiles key' = some h' →
    h'.path = h.path → key' = key
  jobs : ∀ job ∈ s.jobs, JobInv s job
  once : s.closed.Nodup
  at_rest : ∀ p, ¬ s.IsOpen p → s.Idle p → s.plain p = none ∧ s.gzText p = s.text p
  gz_closed : ∀ p, p ∉ s.closed → s.gz p = none
  separate : ∀ p q file, s.plain p = some file → s.plain q = some file → p = q
  allocated : ∀ p file, s.plain p = some file → file < s.nextFile
  empty : ∀ file, s.nextFile ≤ file → s.contents file = []

theorem inv_init {names : Names} : Inv names init where
  opened := fun _ _ h => by cases h
  alone := fun _ _ _ _ h => by cases h
  jobs := fun _ h => absurd h List.not_mem_nil
  once := List.nodup_nil
  at_rest := fun _ _ _ => ⟨rfl, rfl⟩
  gz_closed := fun _ _ => rfl
  separate := fun _ _ _ h => by cases h
  allocated := fun _ _ h => by cases h
  empty := fun _ _ => rfl

variable {names : Names} {s : Recorder} {key : FileKey} {h : Handle}

/-- A job's invariant reads the disk at its path and the text of its path. -/
theorem JobInv.congr {s' : Recorder} {job : Job} (hj : JobInv s job)
    (hgz : s'.gz job.path = s.gz job.path) (hplain : s'.plain job.path = s.plain job.path)
    (hfile : ∀ file, s.plain job.path = some file → s'.contents file = s.contents file)
    (htext : s'.text job.path = s.text job.path) : JobInv s' job := by
  unfold JobInv at hj ⊢
  rw [hgz, hplain, htext]
  split at hj
  · obtain ⟨hnone, file, hp, hc⟩ := hj
    exact ⟨hnone, file, hp, (hfile file hp).trans hc⟩
  · obtain ⟨hp, hc, hw⟩ := hj
    exact ⟨hp, (hfile _ hp).trans hc, hw⟩
  · exact hj
  · exact hj

theorem jobInv_finished {job : Job} (hfin : job.stage = .finished) : JobInv s job := by
  unfold JobInv
  rw [hfin]
  trivial

theorem HandleInv.congr {s' : Recorder} (hh : HandleInv names s key h)
    (hidle : s'.Idle h.path) (hplain : s'.plain h.path = s.plain h.path)
    (hfile : s'.contents h.file = s.contents h.file)
    (hrecorded : s'.recorded h.path = s.recorded h.path)
    (hgz : s'.gz h.path = s.gz h.path) : HandleInv names s' key h where
  directory := hh.directory
  idle := hidle
  file_eq := hplain.trans hh.file_eq
  complete := by
    rw [hfile, hrecorded, gzText, hgz]
    exact hh.complete

/-- A file that is reached from a path is not the file of a handle at another path. -/
theorem Inv.file_ne (hi : Inv names s) (hopen : s.openFiles key = some h) {p : DayPath} {file : Nat}
    (hp : s.plain p = some file) (hne : p ≠ h.path) : file ≠ h.file := by
  rintro rfl
  exact hne (hi.separate p h.path h.file hp (hi.opened key h hopen).file_eq)

/-- The file of a handle is one of those there are. -/
theorem Inv.file_lt (hi : Inv names s) (hopen : s.openFiles key = some h) : h.file < s.nextFile :=
  hi.allocated h.path h.file (hi.opened key h hopen).file_eq

/-- Where the handle of a key changes, the paths of the other handles stay open. -/
theorem IsOpen.update {s' : Recorder} {o : Option Handle} {p : DayPath} (hp : s.IsOpen p)
    (hopen : s'.openFiles = Function.update s.openFiles key o)
    (hold : ∀ h, s.openFiles key = some h → h.path ≠ p) : s'.IsOpen p := by
  obtain ⟨key', h', hopen', hpath⟩ := hp
  have hk : key' ≠ key := by
    rintro rfl
    exact hold h' hopen' hpath
  refine ⟨key', h', ?_, hpath⟩
  rw [hopen, Function.update_of_ne hk]
  exact hopen'

/-- **A rollover** that closes a file for the first time. -/
theorem inv_closeFile (hi : Inv names s) (hopen : s.openFiles key = some h)
    (hnew : h.path ∉ s.closed) : Inv names (s.closeFile key h) := by
  have hh := hi.opened key h hopen
  have hclosed : (s.closeFile key h).closed = s.closed ++ [h.path] := by
    simp [closeFile, closed]
  have hcontents : ∀ p file, s.plain p = some file → p ≠ h.path →
      (s.closeFile key h).contents file = s.contents file := fun p file hp hne =>
    Function.update_of_ne (hi.file_ne hopen hp hne) _ _
  have hgz : s.gz h.path = none := hi.gz_closed h.path hnew
  have hothers : ∀ key' h', (s.closeFile key h).openFiles key' = some h' →
      key' ≠ key ∧ s.openFiles key' = some h' := by
    intro key' h' hopen'
    have hopen' : Function.update s.openFiles key none key' = some h' := hopen'
    by_cases hk : key' = key
    · rw [hk, Function.update_self] at hopen'
      cases hopen'
    · rw [Function.update_of_ne hk] at hopen'
      exact ⟨hk, hopen'⟩
  constructor
  case opened =>
    intro key' h' hopen'
    obtain ⟨hk, hopen'⟩ := hothers key' h' hopen'
    have hh' := hi.opened key' h' hopen'
    have hne : h'.path ≠ h.path := fun heq => hk (hi.alone key key' h h' hopen hopen' heq)
    refine hh'.congr ?_ rfl (hcontents _ _ hh'.file_eq hne) rfl rfl
    intro job hjob hpath
    rcases List.mem_append.mp hjob with hjob | hjob
    · exact hh'.idle job hjob hpath
    · rw [List.mem_singleton.mp hjob] at hpath
      exact absurd hpath.symm hne
  case alone =>
    intro key₁ key₂ h₁ h₂ hopen₁ hopen₂ heq
    exact hi.alone key₁ key₂ h₁ h₂ (hothers key₁ h₁ hopen₁).2 (hothers key₂ h₂ hopen₂).2 heq
  case jobs =>
    intro job hjob
    rcases List.mem_append.mp hjob with hjob | hjob
    · have hne : job.path ≠ h.path := fun heq => hnew (heq ▸ List.mem_map_of_mem hjob)
      exact (hi.jobs job hjob).congr rfl rfl (fun file hp => hcontents _ file hp hne) rfl
    · -- the file closed is complete, and the new call is at its start
      rw [List.mem_singleton.mp hjob]
      refine ⟨hgz, h.file, hh.file_eq, ?_⟩
      obtain ⟨zipped, lines, hrecorded, hzipped, hlines⟩ := hh.complete
      have hnil : zipped.flatten = [] := by rw [← hzipped, gzText, hgz, Option.getD_none]
      show Function.update s.contents h.file (s.contents h.file ++ h.pending) h.file
        = (s.recorded h.path).flatten
      rw [Function.update_self, hlines, hrecorded, List.flatten_append, hnil, List.nil_append]
  case once =>
    rw [hclosed]
    exact List.nodup_append.mpr ⟨hi.once, List.nodup_singleton _, fun p hp q hq => by
      rw [List.mem_singleton.mp hq]
      exact fun heq => hnew (heq ▸ hp)⟩
  case at_rest =>
    intro p hp hidle
    have hne : p ≠ h.path := by
      rintro rfl
      have hfin := hidle ⟨h.path, .started⟩
        (List.mem_append_right _ (List.mem_singleton_self _)) rfl
      cases hfin
    refine hi.at_rest p (fun hp' => hp (hp'.update rfl (fun h' hopen' => ?_)))
      (fun job hjob => hidle job (List.mem_append_left _ hjob))
    rw [hopen] at hopen'
    cases hopen'
    exact hne.symm
  case gz_closed =>
    intro p hp
    rw [hclosed, List.mem_append, not_or] at hp
    exact hi.gz_closed p hp.1
  case separate => exact hi.separate
  case allocated => exact hi.allocated
  case empty =>
    intro file hfile
    have hne : file ≠ h.file := Nat.ne_of_gt (lt_of_lt_of_le (hi.file_lt hopen) hfile)
    exact (Function.update_of_ne hne _ _).trans (hi.empty file hfile)

/-- A path that is not open and not under compression has no file: opening it makes a new one. -/
theorem inv_openFile (hi : Inv names s) (hnone : s.openFiles key = none) {p : DayPath}
    (hdirectory : p.1 = names.directory key) (hfree : ¬s.IsOpen p) (hidle : s.Idle p) :
    Inv names (s.openFile key p) ∧ ∃ h, (s.openFile key p).openFiles key = some h ∧ h.path = p := by
  obtain ⟨hplain, hgz⟩ := hi.at_rest p hfree hidle
  unfold openFile
  rw [hplain]
  have hplain' : ∀ q, q ≠ p → Function.update s.plain p (some s.nextFile) q = s.plain q :=
    fun q hq => Function.update_of_ne hq _ _
  -- a handle is the new one, or was there before, at another path
  have hcases : ∀ {key' h'}, Function.update s.openFiles key (some ⟨p, s.nextFile, []⟩) key'
      = some h' → key' = key ∧ h' = ⟨p, s.nextFile, []⟩
        ∨ s.openFiles key' = some h' ∧ h'.path ≠ p := by
    intro key' h' hopen'
    by_cases hk : key' = key
    · subst hk
      rw [Function.update_self] at hopen'
      cases hopen'
      exact Or.inl ⟨rfl, rfl⟩
    · rw [Function.update_of_ne hk] at hopen'
      exact Or.inr ⟨hopen', fun heq => hfree ⟨key', h', hopen', heq⟩⟩
  refine ⟨?_, _, Function.update_self _ _ _, rfl⟩
  constructor
  case opened =>
    intro key' h' hopen'
    rcases hcases hopen' with ⟨rfl, rfl⟩ | ⟨hopen', hne⟩
    · refine ⟨hdirectory, hidle, Function.update_self _ _ _, s.recorded p, [],
        (List.append_nil _).symm, hgz, ?_⟩
      show s.contents s.nextFile ++ [] = []
      rw [hi.empty s.nextFile le_rfl, List.append_nil]
    · have hh' := hi.opened key' h' hopen'
      exact hh'.congr hh'.idle (hplain' _ hne) rfl rfl rfl
  case alone =>
    intro key₁ key₂ h₁ h₂ hopen₁ hopen₂ heq
    rcases hcases hopen₁ with ⟨rfl, rfl⟩ | ⟨hopen₁, hne₁⟩
    · rcases hcases hopen₂ with ⟨rfl, -⟩ | ⟨-, hne₂⟩
      · rfl
      · exact absurd heq hne₂
    · rcases hcases hopen₂ with ⟨rfl, rfl⟩ | ⟨hopen₂, -⟩
      · exact absurd heq.symm hne₁
      · exact hi.alone key₁ key₂ h₁ h₂ hopen₁ hopen₂ heq
  case jobs =>
    intro job hjob
    by_cases heq : job.path = p
    · exact jobInv_finished (hidle job hjob heq)
    · exact (hi.jobs job hjob).congr rfl (hplain' _ heq) (fun _ _ => rfl) rfl
  case once => exact hi.once
  case at_rest =>
    intro q hq hidle'
    have hne : q ≠ p := by
      rintro rfl
      exact hq ⟨key, _, Function.update_self _ _ _, rfl⟩
    have hq' : ¬s.IsOpen q := fun hopen => hq (hopen.update rfl (fun h' hopen' => by
      rw [hnone] at hopen'
      cases hopen'))
    obtain ⟨hq₁, hq₂⟩ := hi.at_rest q hq' hidle'
    exact ⟨(hplain' q hne).trans hq₁, hq₂⟩
  case gz_closed => exact hi.gz_closed
  case separate =>
    intro q q' file hq hq'
    have hq : Function.update s.plain p (some s.nextFile) q = some file := hq
    have hq' : Function.update s.plain p (some s.nextFile) q' = some file := hq'
    by_cases hqp : q = p
    · by_cases hqp' : q' = p
      · rw [hqp, hqp']
      · rw [hqp, Function.update_self] at hq
        rw [hplain' q' hqp'] at hq'
        cases hq
        exact absurd (hi.allocated q' _ hq') (lt_irrefl _)
    · rw [hplain' q hqp] at hq
      by_cases hqp' : q' = p
      · rw [hqp', Function.update_self] at hq'
        cases hq'
        exact absurd (hi.allocated q _ hq) (lt_irrefl _)
      · rw [hplain' q' hqp'] at hq'
        exact hi.separate q q' file hq hq'
  case allocated =>
    intro q file hq
    have hq : Function.update s.plain p (some s.nextFile) q = some file := hq
    by_cases hqp : q = p
    · rw [hqp, Function.update_self] at hq
      cases hq
      exact Nat.lt_succ_self _
    · rw [hplain' q hqp] at hq
      exact Nat.lt_succ_of_lt (hi.allocated q file hq)
  case empty => exact fun file hfile => hi.empty file (Nat.le_of_succ_le hfile)

/-- What changes only an open handle, its file and the text of its path, and gives the handle
what it adds to the text, keeps the invariant. -/
theorem inv_handle (hi : Inv names s) (hopen : s.openFiles key = some h) {s' : Recorder}
    {h' : Handle} (hopenFiles : s'.openFiles = Function.update s.openFiles key (some h'))
    (hpath : h'.path = h.path) (hfile : h'.file = h.file) (hjobs : s'.jobs = s.jobs)
    (hplain : s'.plain = s.plain) (hgz : s'.gz = s.gz) (hnext : s'.nextFile = s.nextFile)
    (hcontents : ∀ file, file ≠ h.file → s'.contents file = s.contents file)
    (hrecorded : ∀ p, p ≠ h.path → s'.recorded p = s.recorded p) {added : List Bytes}
    (hadded : s'.recorded h.path = s.recorded h.path ++ added)
    (htext : s'.contents h.file ++ h'.pending = s.contents h.file ++ h.pending ++ added.flatten) :
    Inv names s' := by
  have hh := hi.opened key h hopen
  have hclosed : s'.closed = s.closed := by rw [closed, closed, hjobs]
  have hidle : ∀ p, s'.Idle p ↔ s.Idle p := fun p => by rw [Idle, Idle, hjobs]
  have htext' : ∀ p, p ≠ h.path → s'.text p = s.text p := fun p hp => by
    rw [text, text, hrecorded p hp]
  -- a handle stands for one there was, of the same key and at the same path
  have hcases : ∀ {key₁ h₁}, s'.openFiles key₁ = some h₁ →
      key₁ = key ∧ h₁ = h' ∨ key₁ ≠ key ∧ s.openFiles key₁ = some h₁ := by
    intro key₁ h₁ hopen₁
    rw [hopenFiles] at hopen₁
    by_cases hk : key₁ = key
    · subst hk
      rw [Function.update_self] at hopen₁
      exact Or.inl ⟨rfl, (Option.some.inj hopen₁).symm⟩
    · rw [Function.update_of_ne hk] at hopen₁
      exact Or.inr ⟨hk, hopen₁⟩
  have hbefore : ∀ {key₁ h₁}, s'.openFiles key₁ = some h₁ →
      ∃ h₂, s.openFiles key₁ = some h₂ ∧ h₂.path = h₁.path := by
    intro key₁ h₁ hopen₁
    rcases hcases hopen₁ with ⟨rfl, rfl⟩ | ⟨-, hopen₁⟩
    · exact ⟨h, hopen, hpath.symm⟩
    · exact ⟨h₁, hopen₁, rfl⟩
  constructor
  case opened =>
    intro key₁ h₁ hopen₁
    rcases hcases hopen₁ with ⟨rfl, rfl⟩ | ⟨hk, hopen₁⟩
    · obtain ⟨zipped, lines, hrecorded, hzipped, hlines⟩ := hh.complete
      refine ⟨hpath ▸ hh.directory, ?_, ?_, zipped, lines ++ added, ?_, ?_, ?_⟩
      · rw [hidle, hpath]
        exact hh.idle
      · rw [hplain, hpath, hfile]
        exact hh.file_eq
      · rw [hpath, hadded, hrecorded, List.append_assoc]
      · rw [hpath, gzText, hgz]
        exact hzipped
      · rw [hfile, htext, hlines, List.flatten_append]
    · have hh₁ := hi.opened key₁ h₁ hopen₁
      have hne : h₁.path ≠ h.path := fun heq => hk (hi.alone key key₁ h h₁ hopen hopen₁ heq)
      exact hh₁.congr ((hidle _).mpr hh₁.idle) (by rw [hplain])
        (hcontents _ (hi.file_ne hopen hh₁.file_eq hne)) (hrecorded _ hne) (by rw [hgz])
  case alone =>
    intro key₁ key₂ h₁ h₂ hopen₁ hopen₂ heq
    obtain ⟨h₃, hopen₃, hpath₃⟩ := hbefore hopen₁
    obtain ⟨h₄, hopen₄, hpath₄⟩ := hbefore hopen₂
    exact hi.alone key₁ key₂ h₃ h₄ hopen₃ hopen₄ (by rw [hpath₃, hpath₄, heq])
  case jobs =>
    intro job hjob
    rw [hjobs] at hjob
    by_cases heq : job.path = h.path
    · exact jobInv_finished (hh.idle job hjob heq)
    · exact (hi.jobs job hjob).congr (by rw [hgz]) (by rw [hplain])
        (fun file hp => hcontents file (hi.file_ne hopen hp heq)) (htext' _ heq)
  case once => exact hclosed ▸ hi.once
  case at_rest =>
    intro p hp hidle'
    have hne : p ≠ h.path := by
      rintro rfl
      refine hp ⟨key, h', ?_, hpath⟩
      rw [hopenFiles, Function.update_self]
    have hp' : ¬s.IsOpen p := fun hopen' => hp (hopen'.update hopenFiles (fun h₁ hopen₁ => by
      rw [hopen] at hopen₁
      cases hopen₁
      exact hne.symm))
    rw [hplain, gzText, hgz, htext' p hne]
    exact hi.at_rest p hp' ((hidle p).mp hidle')
  case gz_closed =>
    rw [hclosed, hgz]
    exact hi.gz_closed
  case separate =>
    rw [hplain]
    exact hi.separate
  case allocated =>
    rw [hplain, hnext]
    exact hi.allocated
  case empty =>
    intro file hfile
    rw [hnext] at hfile
    rw [hcontents file (Nat.ne_of_gt (lt_of_lt_of_le (hi.file_lt hopen) hfile))]
    exact hi.empty file hfile

theorem inv_write (hi : Inv names s) (hopen : s.openFiles key = some h) (line : Bytes) :
    Inv names ((s.write key line).note h.path line) := by
  unfold write
  rw [hopen]
  refine inv_handle hi hopen rfl rfl rfl rfl rfl rfl rfl (fun _ _ => rfl)
    (fun p hp => Function.update_of_ne hp _ _) (Function.update_self _ _ _) ?_
  show s.contents h.file ++ (h.pending ++ line) = s.contents h.file ++ h.pending ++ [line].flatten
  rw [List.flatten_singleton, List.append_assoc]

theorem inv_spill (hi : Inv names s) (key : FileKey) (n : Nat) : Inv names (s.spill key n) := by
  cases hopen : s.openFiles key with
  | none =>
      unfold spill
      rw [hopen]
      exact hi
  | some h =>
      unfold spill
      rw [hopen]
      refine inv_handle hi hopen rfl rfl rfl rfl rfl rfl rfl
        (fun file hne => Function.update_of_ne hne _ _) (fun _ _ => rfl)
        (List.append_nil _).symm ?_
      show Function.update s.contents h.file (s.contents h.file ++ h.pending.take n) h.file
        ++ h.pending.drop n = s.contents h.file ++ h.pending ++ []
      rw [Function.update_self, List.append_assoc, List.take_append_drop, List.append_nil]

theorem inv_flushFile (hi : Inv names s) (key : FileKey) : Inv names (s.flushFile key) := by
  unfold flushFile
  split
  · exact inv_spill hi key _
  · exact hi

/-- The file of a tick is open and the invariant holds, whichever branch of `_file_for` ran. -/
theorem inv_fileFor (hi : Inv names s) {date : Date}
    (hnew : ∀ h, s.openFiles key = some h → h.path.2 ≠ date → h.path ∉ s.closed)
    (hidle : s.Idle (names.directory key, date))
    (hown : ∀ key' h, s.openFiles key' = some h → h.path = (names.directory key, date) →
      key' = key) :
    Inv names (s.fileFor names key date)
      ∧ ∃ h, (s.fileFor names key date).openFiles key = some h
        ∧ h.path = (names.directory key, date) := by
  unfold fileFor
  cases hopen : s.openFiles key with
  | none =>
      refine inv_openFile hi hopen rfl ?_ hidle
      rintro ⟨key', h', hopen', hpath⟩
      rw [hown key' h' hopen' hpath, hopen] at hopen'
      cases hopen'
  | some h =>
      dsimp only
      by_cases hsame : h.path.2 = date
      · rw [if_pos hsame]
        exact ⟨hi, h, hopen, Prod.ext (hi.opened key h hopen).directory hsame⟩
      · rw [if_neg hsame]
        have hclose : Inv names (s.closeFile key h) := inv_closeFile hi hopen (hnew h hopen hsame)
        have hnone : (s.closeFile key h).openFiles key = none := Function.update_self _ _ _
        refine inv_openFile hclose hnone rfl ?_ (fun job hjob hpath => ?_)
        · rintro ⟨key', h', hopen', hpath⟩
          have hk : key' ≠ key := by
            rintro rfl
            rw [hnone] at hopen'
            cases hopen'
          have hopen' : Function.update s.openFiles key none key' = some h' := hopen'
          rw [Function.update_of_ne hk] at hopen'
          exact hk (hown key' h' hopen' hpath)
        · rcases List.mem_append.mp hjob with hjob | hjob
          · exact hidle job hjob hpath
          · -- the file just closed is one of another date
            rw [List.mem_singleton.mp hjob] at hpath
            have hdate : h.path.2 = date := congrArg Prod.snd hpath
            exact absurd hdate hsame

/-- **A tick** that closes no file again, reopens none that is being compressed, and shares none
with another key. -/
theorem inv_record (hi : Inv names s) {dumps : Tick → Bytes} {tick : Tick}
    (horderly : Orderly names s (.record tick)) : Inv names (s.record dumps names tick) := by
  unfold record
  cases hdate : utcDate tick.tradeTs with
  | error e => exact hi
  | ok date =>
      have hmem : date ∈ (utcDate tick.tradeTs).toOption := by
        rw [hdate]
        rfl
      obtain ⟨hnew, hidle⟩ := horderly.1 date hmem
      obtain ⟨hinv, h, hopen, hpath⟩ := inv_fileFor hi hnew hidle (horderly.2 date hmem)
      have hwritten := inv_write hinv hopen (dumps tick ++ [10])
      rw [hpath] at hwritten
      exact hwritten

/-! ### A background call -/

/-- The paths of the jobs do not change when one of them moves on. -/
theorem closed_set {i : Nat} {job : Job} (hjob : s.jobs[i]? = some job) (stage : Stage) :
    (s.jobs.set i { job with stage := stage }).map Job.path = s.closed := by
  rw [closed, List.map_set]
  obtain ⟨hlt, rfl⟩ := List.getElem?_eq_some_iff.mp hjob
  refine List.ext_getElem (by simp) (fun k _ _ => ?_)
  by_cases hk : i = k
  · subst hk
    simp
  · simp [hk]

/-- A job other than the one that moves on is at another path. -/
theorem mem_set_job (hi : Inv names s) {i : Nat} {job job' : Job} (hjob : s.jobs[i]? = some job)
    {stage : Stage} (hmem : job' ∈ s.jobs.set i { job with stage := stage }) :
    job' = { job with stage := stage } ∨ job' ∈ s.jobs ∧ job'.path ≠ job.path := by
  obtain ⟨k, hk, rfl⟩ := List.getElem_of_mem hmem
  have hk' : k < s.jobs.length := by simpa using hk
  by_cases hik : i = k
  · subst hik
    left
    simp
  · right
    rw [List.getElem_set_ne hik]
    refine ⟨List.getElem_mem hk', fun heq => hik ?_⟩
    obtain ⟨hlt, rfl⟩ := List.getElem?_eq_some_iff.mp hjob
    have hmap : ∀ j, j < s.jobs.length → j < s.closed.length := fun j hj => by
      rwa [closed, List.length_map]
    have hget : s.closed.get ⟨i, hmap i hlt⟩ = s.closed.get ⟨k, hmap k hk'⟩ := by
      simpa [closed] using heq.symm
    exact congrArg Fin.val (hi.once.get_inj_iff.mp hget)

/-- A job that moves on changes the disk at its own path only. -/
theorem inv_job (hi : Inv names s) {i : Nat} {job : Job} (hjob : s.jobs[i]? = some job)
    (hbusy : job.stage ≠ .finished) {s' : Recorder} {stage : Stage}
    (hjobs : s'.jobs = s.jobs.set i { job with stage := stage })
    (hopen : s'.openFiles = s.openFiles) (hcontents : s'.contents = s.contents)
    (hnext : s'.nextFile = s.nextFile) (hrecorded : s'.recorded = s.recorded)
    (hgz : ∀ p, p ≠ job.path → s'.gz p = s.gz p)
    (hplain : ∀ p, p ≠ job.path → s'.plain p = s.plain p)
    (hfiles : ∀ p file, s'.plain p = some file → s.plain p = some file)
    (hnew : JobInv s' { job with stage := stage })
    (hdone : stage = .finished →
      s'.plain job.path = none ∧ s'.gzText job.path = s.text job.path) : Inv names s' := by
  have hclosed : s'.closed = s.closed := by
    rw [closed, hjobs, closed_set hjob]
  have hmem : job ∈ s.jobs := List.mem_of_getElem? hjob
  have htext : ∀ p, s'.text p = s.text p := fun p => by rw [text, text, hrecorded]
  have hisOpen : ∀ p, s'.IsOpen p ↔ s.IsOpen p := fun p => by rw [IsOpen, IsOpen, hopen]
  constructor
  case opened =>
    intro key h hh
    rw [hopen] at hh
    have hh := hi.opened key h hh
    have hne : h.path ≠ job.path := fun heq => hbusy (hh.idle job hmem heq.symm)
    refine hh.congr (fun job' hjob' hpath => ?_) (hplain _ hne) (by rw [hcontents])
      (by rw [hrecorded]) (hgz _ hne)
    rw [hjobs] at hjob'
    rcases mem_set_job hi hjob hjob' with rfl | ⟨hold, -⟩
    · exact absurd hpath.symm hne
    · exact hh.idle job' hold hpath
  case alone =>
    rw [hopen]
    exact hi.alone
  case jobs =>
    intro job' hjob'
    rw [hjobs] at hjob'
    rcases mem_set_job hi hjob hjob' with rfl | ⟨hold, hne⟩
    · exact hnew
    · exact (hi.jobs job' hold).congr (hgz _ hne) (hplain _ hne) (fun _ _ => by rw [hcontents])
        (htext _)
  case once => exact hclosed ▸ hi.once
  case at_rest =>
    intro p hp hidle
    rw [hisOpen] at hp
    rw [htext]
    by_cases hpj : p = job.path
    · subst hpj
      have hlt : i < s.jobs.length := (List.getElem?_eq_some_iff.mp hjob).1
      exact hdone (hidle { job with stage := stage } (hjobs ▸ List.mem_set hlt _) rfl)
    · rw [gzText, hgz p hpj, hplain p hpj]
      refine hi.at_rest p hp (fun job' hjob' hpath => ?_)
      -- the other jobs are in the list as they were
      have hstays : job' ∈ s'.jobs := by
        obtain ⟨k, hk, rfl⟩ := List.getElem_of_mem hjob'
        have hik : i ≠ k := by
          rintro rfl
          obtain ⟨hlt, rfl⟩ := List.getElem?_eq_some_iff.mp hjob
          exact hpj hpath.symm
        rw [hjobs]
        refine List.mem_of_getElem? (i := k) ?_
        rw [List.getElem?_set_ne hik, List.getElem?_eq_getElem hk]
      exact hidle job' hstays hpath
  case gz_closed =>
    intro p hp
    rw [hclosed] at hp
    have hne : p ≠ job.path := fun heq => hp (heq ▸ List.mem_map_of_mem hmem)
    rw [hgz p hne]
    exact hi.gz_closed p hp
  case separate =>
    exact fun p q file hp hq => hi.separate p q file (hfiles p file hp) (hfiles q file hq)
  case allocated =>
    intro p file hp
    rw [hnext]
    exact hi.allocated p file (hfiles p file hp)
  case empty =>
    rw [hnext, hcontents]
    exact hi.empty

/-- **One call of a background thread.** -/
theorem inv_gzipStep (hi : Inv names s) {i n : Nat} {s' : Recorder}
    (hs : s.gzipStep i n = some s') : Inv names s' := by
  unfold gzipStep at hs
  cases hjob : s.jobs[i]? with
  | none =>
      rw [hjob] at hs
      cases hs
  | some job =>
      have hinv := hi.jobs job (List.mem_of_getElem? hjob)
      rw [hjob] at hs
      dsimp only at hs
      unfold JobInv at hinv
      cases hstage : job.stage with
      | started =>
          rw [hstage] at hs hinv
          obtain ⟨-, file, hplain, htext⟩ := hinv
          simp only [hplain] at hs
          cases hs
          refine inv_job hi hjob (by rw [hstage]; nofun) rfl rfl rfl rfl rfl
            (fun p hp => Function.update_of_ne hp _ _) (fun _ _ => rfl) (fun _ _ hp => hp) ?_ nofun
          exact ⟨hplain, htext, Function.update_self _ _ _, List.nil_prefix⟩
      | copying file written =>
          rw [hstage] at hs hinv
          obtain ⟨hplain, htext, hgz, rest, hrest⟩ := hinv
          -- what is still to be copied is the rest of the text
          have hdrop : (s.contents file).drop written.length = rest := by
            rw [htext, ← hrest, List.drop_left]
          dsimp only at hs
          rw [hdrop] at hs
          split at hs
          · rename_i hchunk
            split at hs
            · cases hs
            · rename_i hn
              cases hs
              refine inv_job hi hjob (by rw [hstage]; nofun) rfl rfl rfl rfl rfl (fun _ _ => rfl)
                (fun _ _ => rfl) (fun _ _ hp => hp) ?_ nofun
              show s.gz job.path = some (s.text job.path)
              have hnil : rest = [] := by
                rcases List.take_eq_nil_iff.mp hchunk with h0 | h0
                · exact absurd h0 hn
                · exact h0
              rw [hgz, ← hrest, hnil, List.append_nil]
          · cases hs
            refine inv_job hi hjob (by rw [hstage]; nofun) rfl rfl rfl rfl rfl
              (fun p hp => Function.update_of_ne hp _ _) (fun _ _ => rfl) (fun _ _ hp => hp) ?_
              nofun
            refine ⟨hplain, htext, Function.update_self _ _ _, rest.drop n, ?_⟩
            rw [List.append_assoc, List.take_append_drop]
            exact hrest
      | copied =>
          rw [hstage] at hs hinv
          cases hs
          refine inv_job hi hjob (by rw [hstage]; nofun) rfl rfl rfl rfl rfl (fun _ _ => rfl)
            (fun p hp => Function.update_of_ne hp _ _) (fun p file hp => ?_) (jobInv_finished rfl)
            (fun _ => ⟨Function.update_self _ _ _, congrArg (Option.getD · []) hinv⟩)
          by_cases hpj : p = job.path
          · subst hpj
            have hp : Function.update s.plain job.path none job.path = some file := hp
            rw [Function.update_self] at hp
            cases hp
          · exact (Function.update_of_ne hpj _ _).symm.trans hp
      | finished =>
          rw [hstage] at hs
          cases hs

/-! ## No recorded line is lost -/

theorem inv_step {dumps : Tick → Bytes} {a : Action} {s' : Recorder} (hi : Inv names s)
    (horderly : Orderly names s a) (hs : step dumps names s a = some s') : Inv names s' := by
  cases a with
  | record tick =>
      cases hs
      exact inv_record hi horderly
  | spill key n =>
      cases hs
      exact inv_spill hi key n
  | flush key =>
      cases hs
      exact inv_flushFile hi key
  | gzip i n => exact inv_gzipStep hi hs

/-- A settled state holds every line. -/
theorem Inv.kept (hi : Inv names s) (hsettled : s.Settled) : s.Kept := by
  intro p
  by_cases hopen : s.IsOpen p
  · obtain ⟨key, h, hopen, rfl⟩ := hopen
    have hh := hi.opened _ h hopen
    obtain ⟨zipped, lines, hrecorded, hzipped, hlines⟩ := hh.complete
    refine ⟨zipped, lines, List.Perm.of_eq hrecorded.symm, hzipped, ?_⟩
    rw [hsettled.2 key h hopen, List.append_nil] at hlines
    rw [plainText, hh.file_eq]
    exact hlines
  · obtain ⟨hplain, hgz⟩ := hi.at_rest p hopen (fun job hjob _ => hsettled.1 job hjob)
    refine ⟨s.recorded p, [], List.Perm.of_eq (List.append_nil _), hgz, ?_⟩
    rw [plainText, hplain]
    rfl

/-- **The recorder.** -/
theorem kept_of_orderly {dumps : Tick → Bytes} {as : List Action}
    (horderly : AllSteps (step dumps names) (Orderly names) init as) :
    Always (step dumps names) (fun s => s.Settled → s.Kept) init as := by
  have hinv : Always (step dumps names) (Inv names) init as :=
    Runs.always_of_allSteps (fun s a t hi hok ht => inv_step hi hok ht) inv_init horderly
  exact hinv.imp (fun s hi hsettled => hi.kept hsettled)

/-! ## What an action leaves alone -/

/-- The key of the handle an action works on; a background thread works on none. -/
def Action.key? (names : Names) : Action → Option FileKey
  | .record tick => some (keyOf names tick)
  | .spill key _ => some key
  | .flush key => some key
  | .gzip _ _ => none

theorem jobs_openFile (key : FileKey) (p : DayPath) : (s.openFile key p).jobs = s.jobs := by
  unfold openFile
  split
  · rfl
  · rfl

theorem recorded_openFile (key : FileKey) (p : DayPath) :
    (s.openFile key p).recorded = s.recorded := by
  unfold openFile
  split
  · rfl
  · rfl

/-- The handle that was opened is at the path, with nothing to write. -/
theorem openFiles_openFile (s : Recorder) (key : FileKey) (p : DayPath) :
    ∃ file, (s.openFile key p).openFiles
      = Function.update s.openFiles key (some ⟨p, file, []⟩) := by
  unfold openFile
  split
  · exact ⟨_, rfl⟩
  · exact ⟨_, rfl⟩

section

variable {key' : FileKey} (hne : key' ≠ key)

include hne

theorem openFiles_openFile_of_ne (s : Recorder) (p : DayPath) :
    (s.openFile key p).openFiles key' = s.openFiles key' := by
  obtain ⟨file, hopen⟩ := s.openFiles_openFile key p
  rw [hopen]
  exact Function.update_of_ne hne _ _

theorem openFiles_fileFor_of_ne (s : Recorder) (date : Date) :
    (s.fileFor names key date).openFiles key' = s.openFiles key' := by
  unfold fileFor
  split
  · split
    · rfl
    · rw [openFiles_openFile_of_ne hne]
      exact Function.update_of_ne hne _ _
  · exact openFiles_openFile_of_ne hne s _

theorem openFiles_write_of_ne (s : Recorder) (line : Bytes) :
    (s.write key line).openFiles key' = s.openFiles key' := by
  unfold write
  split
  · exact Function.update_of_ne hne _ _
  · rfl

theorem openFiles_spill_of_ne (s : Recorder) (n : Nat) :
    (s.spill key n).openFiles key' = s.openFiles key' := by
  unfold spill
  split
  · exact Function.update_of_ne hne _ _
  · rfl

theorem openFiles_flushFile_of_ne (s : Recorder) :
    (s.flushFile key).openFiles key' = s.openFiles key' := by
  unfold flushFile
  split
  · exact openFiles_spill_of_ne hne s _
  · rfl

end

theorem openFiles_gzipStep {i n : Nat} {s' : Recorder} (h : s.gzipStep i n = some s') :
    s'.openFiles = s.openFiles := by
  unfold gzipStep at h
  split at h
  · cases h
  · split at h
    · split at h
      · cases h
        rfl
      · cases h
        rfl
    · dsimp only at h
      split at h
      · split at h
        · cases h
        · cases h
          rfl
      · cases h
        rfl
    · cases h
      rfl
    · cases h

/-- **Frame.** The other handles stay what they are. -/
theorem openFiles_step_of_ne {dumps : Tick → Bytes} {a : Action} {s' : Recorder}
    (hs : step dumps names s a = some s') (hne : a.key? names ≠ some key) :
    s'.openFiles key = s.openFiles key := by
  cases a with
  | record tick =>
      cases hs
      have hkey : key ≠ keyOf names tick := fun h => hne (congrArg some h.symm)
      unfold record
      split
      · rfl
      · exact (openFiles_write_of_ne hkey _ _).trans (openFiles_fileFor_of_ne hkey _ _)
  | spill k n =>
      cases hs
      exact openFiles_spill_of_ne (fun h => hne (congrArg some h.symm)) s n
  | flush k =>
      cases hs
      exact openFiles_flushFile_of_ne (fun h => hne (congrArg some h.symm)) s
  | gzip i n => rw [openFiles_gzipStep hs]

theorem openFiles_exec_of_ne {dumps : Tick → Bytes} {as : List Action} {s' : Recorder}
    (hexec : exec (step dumps names) s as = some s')
    (hne : ∀ a ∈ as, a.key? names ≠ some key) : s'.openFiles key = s.openFiles key := by
  have halways : Always (step dumps names) (fun t => t.openFiles key = s.openFiles key) s as :=
    always_of_allSteps (fun t a t' h ha ht => (openFiles_step_of_ne ht ha).trans h) rfl
      (allSteps_of_forall hne s)
  exact halways.last hexec

/-- A run whose actions work on handles of `keys` leaves the other keys without one. -/
theorem openFiles_of_keys {dumps : Tick → Bytes} {as : List Action} {s' : Recorder}
    {keys : List FileKey} (hkeys : ∀ a ∈ as, ∀ k ∈ a.key? names, k ∈ keys)
    (hexec : exec (step dumps names) init as = some s') (hkey : key ∉ keys) :
    s'.openFiles key = none :=
  openFiles_exec_of_ne hexec (fun a ha heq => hkey (hkeys a ha key heq))

theorem settled_of_keys {dumps : Tick → Bytes} {as : List Action} {s' : Recorder}
    (keys : List FileKey) (hkeys : ∀ a ∈ as, ∀ k ∈ a.key? names, k ∈ keys)
    (hexec : exec (step dumps names) init as = some s')
    (hjobs : ∀ job ∈ s'.jobs, job.stage = .finished)
    (hpending : ∀ k ∈ keys, ∀ h ∈ s'.openFiles k, h.pending = []) : s'.Settled := by
  refine ⟨hjobs, fun key h hopen => ?_⟩
  by_cases hkey : key ∈ keys
  · exact hpending key hkey h hopen
  · rw [openFiles_of_keys hkeys hexec hkey] at hopen
    cases hopen

/-- **Ticks of one venue and symbol** share their files with no other. -/
theorem unshared_of_key {dumps : Tick → Bytes} {as : List Action}
    (hkeys : ∀ a ∈ as, ∀ k ∈ a.key? names, k = key)
    (hnone : ∀ k, k ≠ key → s.openFiles k = none) :
    AllSteps (step dumps names) (Unshared names) s as := by
  induction as generalizing s with
  | nil => trivial
  | cons a as ih =>
      intro t ht
      have hfirst := hkeys a List.mem_cons_self
      refine ⟨?_, ih (fun b hb => hkeys b (List.mem_cons_of_mem a hb)) (fun k hk => ?_)⟩
      · cases a with
        | record tick =>
            intro date _ key' h hopen _
            rw [hfirst (keyOf names tick) rfl]
            by_contra hne
            rw [hnone key' hne] at hopen
            cases hopen
        | spill _ _ => trivial
        | flush _ => trivial
        | gzip _ _ => trivial
      · rw [openFiles_step_of_ne ht (fun heq => hk (hfirst k heq))]
        exact hnone k hk

/-- The calls of a background thread that copies its file in one chunk. -/
def gzipAll (i n : Nat) : List Action := [.gzip i 0, .gzip i n, .gzip i 1, .gzip i 0]

/-- A tick of `btcusdt`; in the runs below its text is one byte. -/
def btcTick (tradeId tradeTs : Int) : Tick where
  venue := "binance"
  symbol := "btcusdt"
  tradeId := tradeId
  price := 1
  qty := 1
  eventTs := tradeTs
  tradeTs := tradeTs
  isBuyerMaker := false

def byteOf (tick : Tick) : Bytes := [UInt8.ofNat tick.tradeId.toNat]

/-- The names below a directory `data`. -/
def dataNames : Names := namesIn id ["data"]

/-- Two days, and a late tick of the first one after it was compressed. -/
def lateRun : List Action :=
  [.record (btcTick 1 0), .record (btcTick 2 86400000)] ++ gzipAll 0 2
    ++ [.record (btcTick 3 1)] ++ gzipAll 1 2 ++ [.flush ("binance", "btcusdt")]

theorem lateRun_kept :
    Always (step byteOf dataNames) (fun s => s.Settled → s.Kept) init lateRun := by
  have htimely : AllSteps (step byteOf dataNames) (Timely dataNames) init lateRun := by
    decide +kernel
  have hkeys : ∀ a ∈ lateRun, ∀ k ∈ a.key? dataNames, k = ("binance", "btcusdt") := by
    decide +kernel
  exact kept_of_orderly (htimely.and (unshared_of_key hkeys (fun _ _ => rfl)))

/-- The run goes on with a tick of a third day, and the first one is compressed again. -/
def overwritingRun : List Action :=
  lateRun ++ [.record (btcTick 4 172800000)] ++ gzipAll 2 2 ++ [.flush ("binance", "btcusdt")]

def overwritten : Recorder := (exec (step byteOf dataNames) init overwritingRun).getD init

theorem exec_overwritingRun : exec (step byteOf dataNames) init overwritingRun = some overwritten :=
  rfl

theorem overwritten_settled : overwritten.Settled :=
  settled_of_keys [("binance", "btcusdt")] (by decide +kernel) exec_overwritingRun
    (by decide +kernel) (by decide +kernel)

theorem Kept.length {s : Recorder} (hk : s.Kept) (p : DayPath) :
    (s.gzText p).length + (s.plainText p).length = (s.text p).length := by
  obtain ⟨zipped, lines, hperm, hgz, hplain⟩ := hk p
  rw [hgz, hplain, text, ← List.length_append, ← List.flatten_append]
  exact hperm.flatten.length_eq

/-- The line of the first tick is in no file: its `.gz` was written over. -/
theorem not_kept :
    ¬ ∀ (dumps : Tick → Bytes) (names : Names) (as : List Action),
      Always (step dumps names) (fun s => s.Settled → s.Kept) init as := by
  intro hall
  have hkept : overwritten.Kept :=
    (hall byteOf dataNames overwritingRun).last exec_overwritingRun overwritten_settled
  have hlength := hkept.length (["data", "binance", "btcusdt"], 0)
  revert hlength
  decide +kernel

/-- A tick of the venue `a` and the symbol `b/c`, one of `a/b` and `c`, and the next day of the
first two: the second tick is in the buffer of its handle when the file is compressed. -/
def sharedRun : List Action :=
  [.record { btcTick 1 0 with venue := "a", symbol := "b/c" },
    .record { btcTick 2 0 with venue := "a/b", symbol := "c" },
    .record { btcTick 3 86400000 with venue := "a", symbol := "b/c" }] ++ gzipAll 0 2
    ++ [.flush ("a", "b/c"), .flush ("a/b", "c")]

def sharedEnd : Recorder := (exec (step byteOf dataNames) init sharedRun).getD init

theorem exec_sharedRun : exec (step byteOf dataNames) init sharedRun = some sharedEnd := rfl

theorem sharedEnd_settled : sharedEnd.Settled :=
  settled_of_keys [("a", "b/c"), ("a/b", "c")] (by decide +kernel) exec_sharedRun
    (by decide +kernel) (by decide +kernel)

/-- **Why a file must not be shared**: every tick comes in time, and the second one is lost. -/
theorem shared_not_kept : AllSteps (step byteOf dataNames) (Timely dataNames) init sharedRun
    ∧ ¬Always (step byteOf dataNames) (fun s => s.Settled → s.Kept) init sharedRun := by
  refine ⟨by decide +kernel, fun hall => ?_⟩
  have hkept : sharedEnd.Kept := hall.last exec_sharedRun sharedEnd_settled
  have hlength := hkept.length (["data", "a", "b", "c"], 0)
  revert hlength
  decide +kernel

end Recorder

end NanoTick

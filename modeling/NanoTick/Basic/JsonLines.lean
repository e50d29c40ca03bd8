import NanoTick.Basic.JsonText
import Mathlib.Tactic

set_option autoImplicit false

/-! # JSON in bytes, one value a line

`dumps` is `json.dumps(...).encode()`, `loadsBytes` is `json.loads` of bytes in UTF-8. What
`dumps` writes has no newline byte, so lines of it can be told apart however the bytes arrive:
the complete lines of any part received from the start are the first values (`readLines_jsonLines`).
-/

namespace JsonText

open Python

/-! ## Bytes -/

/-- `str.encode`. -/
def bytes (t : List Char) : List UInt8 := t.flatMap String.utf8EncodeChar

def decodeUtf8 (b : List UInt8) : Option (List Char) := b.toByteArray.utf8Decode?.map Array.toList

theorem decodeUtf8_bytes (t : List Char) : decodeUtf8 (bytes t) = some t := by
  have h : (bytes t).toByteArray.utf8Decode? = some t.toArray := List.utf8Decode?_utf8Encode
  rw [decodeUtf8, h]
  rfl

theorem bytes_append (t u : List Char) : bytes (t ++ u) = bytes t ++ bytes u :=
  List.flatMap_append

/-- Printable text is one byte a character, and no newline. -/
theorem newline_notMem_bytes {t : List Char} (ht : Printable t) : 10 ∉ bytes t := by
  intro h
  obtain ⟨c, hc, hbyte⟩ := List.mem_flatMap.mp h
  obtain ⟨hlow, hhigh⟩ := ht c hc
  have hval : c.val.toNat = c.toNat := rfl
  have hascii : String.utf8EncodeChar c = [UInt8.ofNat c.toNat] := by
    unfold String.utf8EncodeChar
    exact if_pos (show c.val.toNat ≤ 0x7f by omega)
  rw [hascii, List.mem_singleton] at hbyte
  have hten := congrArg UInt8.toNat hbyte
  rw [UInt8.toNat_ofNat', show (10 : UInt8).toNat = 10 from rfl] at hten
  omega

/-- The style `json.dumps` has by itself. -/
def standard : Style := { ascii := true, spaced := true, closed := false }

section

variable (N : Numerals)

/-- `json.dumps(v).encode()`. -/
def dumps (v : Json) : List UInt8 := bytes (text N standard v)

/-- `json.loads` of bytes. -/
def loadsBytes (b : List UInt8) : Except PyErr Json :=
  match decodeUtf8 b with
  | none => .error .unicodeDecodeError
  | some t =>
      match loads N t with
      | some v => .ok v
      | none => .error .jsonDecodeError

end

section

variable {N : Numerals} {v : Json}

theorem newline_notMem_dumps (hv : AllNumbers N.Reads v) : 10 ∉ dumps N v :=
  newline_notMem_bytes (printable_text rfl hv)

/-- **A value in bytes** is read back. -/
theorem loadsBytes_dumps (hv : AllNumbers N.Reads v) : loadsBytes N (dumps N v) = .ok v := by
  have h := loads_text (S := standard) hv (t := []) (fun c hc => absurd hc List.not_mem_nil)
  rw [List.append_nil] at h
  rw [loadsBytes, dumps, decodeUtf8_bytes]
  simp only [h]

/-- A newline after it makes no difference. -/
theorem loadsBytes_line (hv : AllNumbers N.Reads v) :
    loadsBytes N (dumps N v ++ [10]) = .ok v := by
  have hspace : ∀ c ∈ ['\n'], isSpace c = true := by
    intro c hc
    rw [List.mem_singleton.mp hc]
    rfl
  have h := loads_text (S := standard) hv hspace
  have hbytes : dumps N v ++ [10] = bytes (text N standard v ++ ['\n']) := by
    rw [bytes_append]
    rfl
  rw [loadsBytes, hbytes, decodeUtf8_bytes]
  simp only [h]

end

/-! ## Lines -/

/-- The complete lines of what was received, each with its newline, and the rest. -/
def readLines : List UInt8 → List (List UInt8) × List UInt8
  | [] => ([], [])
  | b :: t =>
      if b = 10 then ([10] :: (readLines t).1, (readLines t).2)
      else
        match readLines t with
        | ([], rest) => ([], b :: rest)
        | (l :: ls, rest) => ((b :: l) :: ls, rest)

theorem readLines_rest {t : List UInt8} (ht : 10 ∉ t) : readLines t = ([], t) := by
  induction t with
  | nil => rfl
  | cons b t ih =>
      have hb : b ≠ 10 := fun h => ht (h ▸ List.mem_cons_self)
      rw [readLines, if_neg hb, ih (fun h => ht (List.mem_cons_of_mem b h))]

theorem readLines_cons {l : List UInt8} (hl : 10 ∉ l) (t : List UInt8) :
    readLines (l ++ 10 :: t) = ((l ++ [10]) :: (readLines t).1, (readLines t).2) := by
  induction l with
  | nil => rw [List.nil_append, readLines, if_pos rfl, List.nil_append]
  | cons b l ih =>
      have hb : b ≠ 10 := fun h => hl (h ▸ List.mem_cons_self)
      rw [List.cons_append, readLines, if_neg hb, ih (fun h => hl (List.mem_cons_of_mem b h))]
      rfl

/-- **Lines cut anywhere**: what is received from the start has the first lines complete. -/
theorem readLines_prefix {ls : List (List UInt8)} (hls : ∀ l ∈ ls, 10 ∉ l) {p : List UInt8}
    (hp : p <+: ls.flatMap (· ++ [10])) :
    ∃ k, (readLines p).1 = (ls.take k).map (· ++ [10]) := by
  induction ls generalizing p with
  | nil =>
      rw [List.flatMap_nil, List.prefix_nil] at hp
      subst hp
      exact ⟨0, rfl⟩
  | cons l ls ih =>
      obtain ⟨hl, hls⟩ := List.forall_mem_cons.mp hls
      rw [List.flatMap_cons] at hp
      rcases List.prefix_or_prefix_of_prefix hp (List.prefix_append (l ++ [10]) _) with
        hshort | ⟨p', rfl⟩
      · rcases List.prefix_concat_iff.mp hshort with rfl | hpart
        · exact ⟨1, by rw [readLines_cons hl []]; rfl⟩
        · -- the first line is not complete
          exact ⟨0, by rw [readLines_rest (fun h => hl (hpart.subset h))]; rfl⟩
      · obtain ⟨k, hk⟩ := ih hls ((List.prefix_append_right_inj _).mp hp)
        refine ⟨k + 1, ?_⟩
        rw [List.append_assoc, List.singleton_append, readLines_cons hl, hk, List.take_succ_cons,
          List.map_cons]

section

variable {N : Numerals}

/-- One value a line. -/
def jsonLines (N : Numerals) (vs : List Json) : List UInt8 :=
  vs.flatMap (fun v => dumps N v ++ [10])

/-- **Values on lines**: the complete lines of what was received from the start are read as the
first values. -/
theorem readLines_jsonLines {vs : List Json} (hvs : ∀ v ∈ vs, AllNumbers N.Reads v)
    {p : List UInt8} (hp : p <+: jsonLines N vs) :
    ∃ k, (readLines p).1.map (loadsBytes N) = (vs.take k).map Except.ok := by
  have hlines : jsonLines N vs = (vs.map (dumps N)).flatMap (· ++ [10]) := by
    rw [List.flatMap_map]
    rfl
  have hnewline : ∀ l ∈ vs.map (dumps N), 10 ∉ l := by
    intro l hl
    obtain ⟨v, hv, rfl⟩ := List.mem_map.mp hl
    exact newline_notMem_dumps (hvs v hv)
  rw [hlines] at hp
  obtain ⟨k, hk⟩ := readLines_prefix hnewline hp
  refine ⟨k, ?_⟩
  rw [hk, ← List.map_take, List.map_map, List.map_map]
  exact List.map_congr_left (fun v hv => loadsBytes_line (hvs v (List.mem_of_mem_take hv)))

/-- Of everything, all of them. -/
theorem readLines_all {vs : List Json} (hvs : ∀ v ∈ vs, AllNumbers N.Reads v) :
    (readLines (jsonLines N vs)).1.map (loadsBytes N) = vs.map Except.ok := by
  induction vs with
  | nil => rfl
  | cons v vs ih =>
      obtain ⟨hv, hvs⟩ := List.forall_mem_cons.mp hvs
      have hline : jsonLines N (v :: vs) = dumps N v ++ 10 :: jsonLines N vs := by
        rw [jsonLines, List.flatMap_cons, List.append_assoc]
        rfl
      rw [hline, readLines_cons (newline_notMem_dumps hv), List.map_cons, ih hvs,
        loadsBytes_line hv, List.map_cons]

end

end JsonText

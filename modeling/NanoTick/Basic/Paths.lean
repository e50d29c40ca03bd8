import Mathlib.Tactic

set_option autoImplicit false

/-! # Paths

A path is the list of its components from the root. `join` is `directory / part` of Python's
`pathlib`, and `resolve` what a file system without links makes of the components `..`. Different
texts may lead to one path: the parts `a`, `b/c` and the parts `a/b`, `c` do. A part that is one
plain name is one component (`resolve_join`), so two such names lead to different paths.
-/

namespace Paths

/-- The components of a path, from the root. -/
abbrev Path : Type := List String

/-- The components of a text: empty ones and `.` are dropped. -/
def components (part : String) : List String :=
  ((part.toList.splitOn '/').map String.ofList).filter (fun c => c ≠ "" ∧ c ≠ ".")

/-- `directory / part`: an absolute part starts over at the root. -/
def join (directory : Path) (part : String) : Path :=
  if part.toList.head? = some '/' then components part else directory ++ components part

/-- The component `..` goes one up. -/
def resolve (path : Path) : Path :=
  path.foldl (fun above c => if c = ".." then above.dropLast else above ++ [c]) []

/-- A name that is one component. -/
structure Plain (name : String) : Prop where
  not_empty : name ≠ ""
  not_dot : name ≠ "."
  not_up : name ≠ ".."
  no_slash : '/' ∉ name.toList

theorem components_plain {name : String} (h : Plain name) : components name = [name] := by
  -- without a slash there is nothing to split
  have hsplit : name.toList.splitOn '/' = [name.toList] := by
    refine List.splitOnP_eq_singleton (fun c hc => beq_eq_false_iff_ne.mpr ?_)
    rintro rfl
    exact h.no_slash hc
  unfold components
  rw [hsplit, List.map_singleton, String.ofList_toList]
  simp [h.not_empty, h.not_dot]

theorem join_plain {name : String} (h : Plain name) (directory : Path) :
    join directory name = directory ++ [name] := by
  unfold join
  rw [components_plain h, if_neg]
  intro hhead
  exact h.no_slash (List.mem_of_mem_head? hhead)

theorem resolve_concat {name : String} (h : name ≠ "..") (path : Path) :
    resolve (path ++ [name]) = resolve path ++ [name] := by
  unfold resolve
  rw [List.foldl_concat, if_neg h]

/-- **A plain name** is one component more. -/
theorem resolve_join {name : String} (h : Plain name) (directory : Path) :
    resolve (join directory name) = resolve directory ++ [name] := by
  rw [join_plain h, resolve_concat h.not_up]

/-- Two plain names lead to different paths. -/
theorem resolve_join_join_inj {directory : Path} {a b a' b' : String} (ha : Plain a) (hb : Plain b)
    (ha' : Plain a') (hb' : Plain b')
    (h : resolve (join (join directory a) b) = resolve (join (join directory a') b')) :
    a = a' ∧ b = b' := by
  rw [resolve_join hb, resolve_join hb', resolve_join ha, resolve_join ha', List.append_assoc,
    List.append_assoc, List.append_cancel_left_eq] at h
  obtain ⟨hfirst, hsecond⟩ := List.cons_eq_cons.mp h
  exact ⟨hfirst, List.singleton_inj.mp hsecond⟩

end Paths

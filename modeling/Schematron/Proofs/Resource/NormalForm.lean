import Mathlib.Data.List.Basic
import Schematron.Proofs.Runs
import Schematron.Resource.Path

/-!
# Normal forms of paths

The segments of a path are added to a stack one after the other. The stack holds names on top of
steps outwards at any time (`IsStack`), since a step outwards takes the last name away as long as
there is one. What a normal form adds to a stack is what the path itself adds to it
(`foldl_normalSegments`): so normal forms are their own normal forms, and a path can be brought to
its normal form part by part.
-/

namespace Schematron.Resource

/-- A segment that names something in a folder. -/
structure IsName (segment : String) : Prop where
  ne_empty : segment ≠ ""
  ne_dot : segment ≠ "."
  ne_dots : segment ≠ ".."
  noSlash : '/' ∉ segment.toList

instance (segment : String) : Decidable (IsName segment) :=
  decidable_of_iff (segment ≠ "" ∧ segment ≠ "." ∧ segment ≠ ".." ∧ '/' ∉ segment.toList)
    ⟨fun h => ⟨h.1, h.2.1, h.2.2.1, h.2.2.2⟩, fun h => ⟨h.1, h.2, h.3, h.4⟩⟩

/-! ## Segments -/

theorem segments_eq (path : String) : segments path = (path.toList.splitOn '/').map String.ofList := by
  rw [segments, Text.splitAt_eq_splitOn]

/-- A slash separates segments. -/
theorem segments_append (first second : String) :
    segments (first ++ "/" ++ second) = segments first ++ segments second := by
  have hlist : (first ++ "/" ++ second).toList = first.toList ++ '/' :: second.toList := by
    simp [String.append_assoc]
  simp only [segments_eq, hlist, List.splitOn_append_cons_self, List.map_append]

theorem segments_of_noSlash {segment : String} (h : '/' ∉ segment.toList) :
    segments segment = [segment] := by
  rw [segments_eq, List.splitOn_eq_singleton h, List.map_singleton, String.ofList_toList]

theorem noSlash_of_mem_segments {path segment : String} (h : segment ∈ segments path) :
    '/' ∉ segment.toList := by
  rw [segments_eq] at h
  obtain ⟨piece, hpiece, rfl⟩ := List.mem_map.mp h
  rw [String.toList_ofList]
  exact Text.not_mem_of_mem_splitOn hpiece

/-- Segments that are joined with slashes are found again. -/
theorem segments_intercalate {parts : List String} (hne : parts ≠ [])
    (h : ∀ segment ∈ parts, '/' ∉ segment.toList) :
    segments (String.intercalate "/" parts) = parts := by
  have hsplit : (String.intercalate "/" parts).toList.splitOn '/' = parts.map String.toList := by
    rw [String.toList_intercalate]
    exact List.splitOn_intercalate '/' (by simpa using h) (by simpa using hne)
  rw [segments_eq, hsplit, List.map_map]
  simp [Function.comp_def]

/-! ## Adding segments -/

section
variable {path : List String} {segment : String}

theorem addSegment_of_stay (h : segment = "" ∨ segment = ".") : addSegment path segment = path := by
  rcases h with rfl | rfl <;> rfl

theorem addSegment_of_isName (h : IsName segment) : addSegment path segment = segment :: path := by
  simp [addSegment, h.ne_empty, h.ne_dot, h.ne_dots]

/-- A step outwards takes a name away. -/
theorem addSegment_dots_name (h : IsName segment) : addSegment (segment :: path) ".." = path := by
  simp [addSegment, h.ne_dots]

/-- Outside of all names a step outwards stays. -/
theorem addSegment_dots (steps : Nat) :
    addSegment (List.replicate steps "..") ".." = List.replicate (steps + 1) ".." := by
  cases steps <;> rfl

theorem segment_cases (h : '/' ∉ segment.toList) :
    (segment = "" ∨ segment = ".") ∨ segment = ".." ∨ IsName segment := by
  by_cases hempty : segment = ""
  · exact .inl (.inl hempty)
  by_cases hdot : segment = "."
  · exact .inl (.inr hdot)
  by_cases hdots : segment = ".."
  · exact .inr (.inl hdots)
  exact .inr (.inr ⟨hempty, hdot, hdots, h⟩)

end

/-! ## Stacks -/

/-- Names on top of steps outwards: the segments of a normal form, the last one first. -/
def IsStack (path : List String) : Prop :=
  ∃ (steps : Nat) (names : List String), (∀ name ∈ names, IsName name) ∧
    path = names ++ List.replicate steps ".."

theorem isStack_nil : IsStack [] := ⟨0, [], nofun, rfl⟩

/-- What a segment does to a stack, and what the stack with it does to any other one. -/
theorem addSegment_isStack {path : List String} (h : IsStack path) {segment : String}
    (hsegment : '/' ∉ segment.toList) :
    IsStack (addSegment path segment) ∧ ∀ start : List String,
      (addSegment path segment).reverse.foldl addSegment start =
        addSegment (path.reverse.foldl addSegment start) segment := by
  obtain ⟨steps, names, hnames, rfl⟩ := h
  obtain hstay | rfl | hname := segment_cases hsegment
  · rw [addSegment_of_stay hstay]
    exact ⟨⟨steps, names, hnames, rfl⟩, fun start => (addSegment_of_stay hstay).symm⟩
  · cases names with
    | nil =>
        rw [List.nil_append, addSegment_dots]
        refine ⟨⟨steps + 1, [], nofun, rfl⟩, fun start => ?_⟩
        rw [List.reverse_replicate, List.reverse_replicate, List.replicate_succ', List.foldl_concat]
    | cons name names =>
        obtain ⟨hname, hnames⟩ := List.forall_mem_cons.mp hnames
        rw [List.cons_append, addSegment_dots_name hname]
        refine ⟨⟨steps, names, hnames, rfl⟩, fun start => ?_⟩
        -- the name is put on the other stack too, and taken away again
        rw [List.reverse_cons, List.foldl_concat, addSegment_of_isName hname,
          addSegment_dots_name hname]
  · rw [addSegment_of_isName hname]
    refine ⟨⟨steps, segment :: names, List.forall_mem_cons.mpr ⟨hname, hnames⟩, rfl⟩,
      fun start => ?_⟩
    rw [List.reverse_cons, List.foldl_concat]

theorem foldl_isStack {parts : List String} (h : ∀ segment ∈ parts, '/' ∉ segment.toList) :
    ∀ {path : List String}, IsStack path →
      IsStack (parts.foldl addSegment path) ∧ ∀ start : List String,
        (parts.foldl addSegment path).reverse.foldl addSegment start =
          parts.foldl addSegment (path.reverse.foldl addSegment start) := by
  induction parts with
  | nil => exact fun hpath => ⟨hpath, fun _ => rfl⟩
  | cons segment rest ih =>
      intro path hpath
      obtain ⟨hsegment, hrest⟩ := List.forall_mem_cons.mp h
      obtain ⟨hstack, hsame⟩ := addSegment_isStack hpath hsegment
      obtain ⟨hwhole, hall⟩ := ih hrest hstack
      refine ⟨hwhole, fun start => ?_⟩
      rw [List.foldl_cons, List.foldl_cons, hall, hsame]

/-! ## Normal forms -/

/-- A normal form goes outwards first, and then along names. -/
theorem exists_normalSegments (path : String) :
    ∃ (steps : Nat) (names : List String), (∀ name ∈ names, IsName name) ∧
      normalSegments path = List.replicate steps ".." ++ names := by
  obtain ⟨steps, names, hnames, hstack⟩ :=
    (foldl_isStack (fun _ => noSlash_of_mem_segments) isStack_nil).1
  refine ⟨steps, names.reverse, fun name hname => hnames name (List.mem_reverse.mp hname), ?_⟩
  rw [normalSegments, hstack, List.reverse_append, List.reverse_replicate]

theorem noSlash_of_mem_normalSegments {path segment : String} (h : segment ∈ normalSegments path) :
    '/' ∉ segment.toList := by
  obtain ⟨steps, names, hnames, hpath⟩ := exists_normalSegments path
  rw [hpath] at h
  rcases List.mem_append.mp h with hdots | hname
  · rw [List.eq_of_mem_replicate hdots]
    decide
  · exact (hnames segment hname).noSlash

/-- The normal form of a path does to a stack what the path does. -/
theorem foldl_normalSegments (path : String) (start : List String) :
    (normalSegments path).foldl addSegment start = (segments path).foldl addSegment start :=
  (foldl_isStack (fun _ => noSlash_of_mem_segments) isStack_nil).2 start

theorem foldl_segments_normalizePath (path : String) (start : List String) :
    (segments (normalizePath path)).foldl addSegment start =
      (segments path).foldl addSegment start := by
  rw [← foldl_normalSegments path, normalizePath]
  by_cases hnil : normalSegments path = []
  · rw [hnil]
    rfl
  · rw [segments_intercalate hnil fun _ => noSlash_of_mem_normalSegments]

theorem normalSegments_normalizePath (path : String) :
    normalSegments (normalizePath path) = normalSegments path := by
  rw [normalSegments, foldl_segments_normalizePath, normalSegments]

@[simp] theorem normalizePath_normalizePath (path : String) :
    normalizePath (normalizePath path) = normalizePath path := by
  rw [normalizePath, normalSegments_normalizePath, normalizePath]

/-- The parts of a path can be brought to their normal forms first. -/
theorem normalizePath_append (first second : String) :
    normalizePath (normalizePath first ++ "/" ++ normalizePath second) =
      normalizePath (first ++ "/" ++ second) := by
  have hsegments : normalSegments (normalizePath first ++ "/" ++ normalizePath second) =
      normalSegments (first ++ "/" ++ second) := by
    rw [normalSegments, normalSegments, segments_append, segments_append, List.foldl_append,
      List.foldl_append, foldl_segments_normalizePath, foldl_segments_normalizePath]
  rw [normalizePath, hsegments, normalizePath]

example : normalizePath "/a//./b/../../../c" = "../c" := by decide +kernel

/-! ## Paths that lead inside -/

/-- The path leads from a folder to something in it, at any depth. -/
def LeadsInside (path : String) : Prop :=
  ∃ names : List String, names ≠ [] ∧ (∀ name ∈ names, IsName name) ∧
    path = String.intercalate "/" names

theorem normalSegments_intercalate {names : List String} (hne : names ≠ [])
    (h : ∀ name ∈ names, IsName name) : normalSegments (String.intercalate "/" names) = names := by
  have hpush : ∀ start, names.foldl addSegment start = names.reverse ++ start := by
    clear hne
    induction names with
    | nil => exact fun _ => rfl
    | cons name rest ih =>
        obtain ⟨hname, hrest⟩ := List.forall_mem_cons.mp h
        intro start
        rw [List.foldl_cons, addSegment_of_isName hname, ih hrest, List.reverse_cons,
          List.append_assoc]
        rfl
  rw [normalSegments, segments_intercalate hne fun name hname => (h name hname).noSlash, hpush,
    List.append_nil, List.reverse_reverse]

theorem intercalate_ne_empty {names : List String} (hne : names ≠ []) (h : ∀ name ∈ names, IsName name) :
    String.intercalate "/" names ≠ "" := by
  intro hempty
  have hsegments := segments_intercalate hne fun name hname => (h name hname).noSlash
  rw [hempty] at hsegments
  exact (h "" (by rw [← hsegments]; decide)).ne_empty rfl

theorem LeadsInside.ne_empty {key : String} (h : LeadsInside key) : key ≠ "" := by
  obtain ⟨names, hne, hnames, rfl⟩ := h
  exact intercalate_ne_empty hne hnames

theorem LeadsInside.normalizePath_eq {path : String} (h : LeadsInside path) :
    normalizePath path = path := by
  obtain ⟨names, hne, hnames, rfl⟩ := h
  rw [normalizePath, normalSegments_intercalate hne hnames]

/-- A normal form that is not empty and does not begin with two dots leads inside. -/
theorem leadsInside_normalizePath {path : String} (hne : normalizePath path ≠ "")
    (hdots : (normalizePath path).startsWith ".." = false) :
    (∀ name ∈ normalSegments path, IsName name) ∧ normalSegments path ≠ [] := by
  obtain ⟨steps, names, hnames, hsegments⟩ := exists_normalSegments path
  cases steps with
  | zero =>
      rw [hsegments]
      refine ⟨hnames, fun hnil => hne ?_⟩
      rw [normalizePath, hsegments, hnil]
      rfl
  | succ steps =>
      -- a normal form that goes outwards begins with the two dots of its first step
      have hstart : (normalizePath path).startsWith ".." = true := by
        rw [String.startsWith_string_iff, normalizePath, hsegments, List.replicate_succ,
          List.cons_append]
        cases List.replicate steps ".." ++ names with
        | nil => exact List.prefix_rfl
        | cons next rest =>
            rw [String.intercalate_cons_cons, String.append_assoc, String.toList_append]
            exact List.prefix_append _ _
      rw [hdots] at hstart
      cases hstart

end Schematron.Resource

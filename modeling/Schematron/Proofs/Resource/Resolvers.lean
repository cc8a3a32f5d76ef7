import Mathlib
import Schematron.Proofs.Outcome
import Schematron.Proofs.Resource.NormalForm
import Schematron.Resource.Bundle
import Schematron.Resource.Volume

/-!
# Resolvers and normal forms

All resolvers look at the normal form of a path only (`Provided.normalizePath`), and the resolver
of a folder opens nothing but files in it, whether they can be read or not: what it opens stands at
a path that leads from the folder along names (`staysInside`), so neither a step outwards nor an
absolute path gets out of the folder (`normalizePath_canonical`).

A resolver that is given the files of a folder with their paths answers as the folder does, with one
exception: the folder takes a normal form that begins with two dots for a path that goes outwards.
That is more than it should, as the name of a file can begin so (`resolver_eq_ofFiles_iff`,
`resolver_dottedName`).
-/

namespace Schematron.Resource

/-! ## Trees of files -/

namespace FileTree

/-- What is below a tree along names. -/
def below? : FileTree → List String → Option FileTree
  | tree, [] => some tree
  | folder entries, name :: names => (entries.lookup name).bind (·.below? names)
  | file _, _ :: _ => none

/-- What reading a file gives; a folder is not read. -/
def content? : FileTree → Option (Except FileFault ByteArray)
  | file content => some content
  | folder _ => none

end FileTree

/-! ## Following paths -/

namespace Volume

/-- What a way through a volume comes to along segments. -/
def reach? (way : List FileTree) (parts : List String) : Option FileTree :=
  (parts.foldlM follow way).toOption.bind List.head?

theorem follow_name {name : String} (h : IsName name) (tree : FileTree) (outer : List FileTree) :
    follow (tree :: outer) name =
      match tree with
      | .folder entries =>
        match entries.lookup name with
        | some found => .ok (found :: tree :: outer)
        | none => .error .missing
      | .file _ => .error .throughFile := by
  cases tree with
  | file content => rfl
  | folder entries =>
      cases hfound : entries.lookup name <;>
        simp [follow, h.ne_empty, h.ne_dot, h.ne_dots, hfound]

/-- Names lead downwards. -/
theorem reach?_names {names : List String} (hne : names ≠ []) (h : ∀ name ∈ names, IsName name)
    (way : List FileTree) : reach? way names = way.head?.bind (·.below? names) := by
  have hdown : ∀ {names : List String}, (∀ name ∈ names, IsName name) →
      ∀ (tree : FileTree) (outer : List FileTree),
        reach? (tree :: outer) names = tree.below? names := by
    intro names
    induction names with
    | nil => exact fun _ _ _ => by simp [reach?, FileTree.below?, pure, Except.pure, Except.toOption]
    | cons name rest ih =>
        intro h tree outer
        obtain ⟨hname, hrest⟩ := List.forall_mem_cons.mp h
        rw [reach?, List.foldlM_cons, follow_name hname]
        cases tree with
        | file content => rfl
        | folder entries =>
            dsimp only
            rw [FileTree.below?]
            cases entries.lookup name with
            | none => rfl
            | some found => exact ih hrest found _
  cases way with
  | cons tree outer => exact hdown h tree outer
  | nil =>
      obtain ⟨name, rest, rfl⟩ := List.exists_cons_of_ne_nil hne
      rfl

/-- Names lead downwards from wherever other segments lead to. -/
theorem reach?_append {names : List String} (hne : names ≠ []) (h : ∀ name ∈ names, IsName name)
    (way : List FileTree) (parts : List String) :
    reach? way (parts ++ names) = (reach? way parts).bind (·.below? names) := by
  rw [reach?, List.foldlM_append, reach?]
  cases parts.foldlM follow way with
  | error fault => rfl
  | ok middle => exact reach?_names hne h middle

/-- A segment that stays where it is makes no difference in front of names. -/
theorem reach?_stay {names : List String} (hne : names ≠ []) {stay : String}
    (hstay : stay = "" ∨ stay = ".") (way : List FileTree) (parts : List String) :
    (reach? way (parts ++ [stay])).bind (·.below? names) =
      (reach? way parts).bind (·.below? names) := by
  obtain ⟨name, rest, rfl⟩ := List.exists_cons_of_ne_nil hne
  rw [reach?, List.foldlM_append, reach?]
  cases parts.foldlM follow way with
  | error fault => rfl
  | ok middle =>
      show (reach? middle [stay]).bind _ = middle.head?.bind _
      -- it does not stay in a file, but nothing is below a file
      cases middle with
      | nil => rfl
      | cons tree outer => cases tree <;> rcases hstay with rfl | rfl <;> rfl

/-! ## Looking at paths -/

/-- Where a path starts from. -/
def start (volume : Volume) (path : String) : List String :=
  if isAbsolute path then [] else volume.workingFolder

theorem toOption_look (volume : Volume) {path : String} (hne : path ≠ "") :
    (volume.look path).toOption = reach? [volume.top] (volume.start path ++ segments path) := by
  have hempty : path.isEmpty = false := by simpa using hne
  rw [look, hempty, if_neg Bool.false_ne_true, reach?, start]
  dsimp only
  cases (_ ++ segments path).foldlM follow [volume.top] with
  | error fault => rfl
  | ok way => cases way <;> rfl

theorem file?_eq (volume : Volume) (path : String) :
    volume.file? path = (volume.look path).toOption.bind (·.content?) := by
  rw [file?]
  cases volume.look path with
  | error fault => rfl
  | ok tree => cases tree <;> rfl

theorem isAbsolute_append {first : String} (hne : first ≠ "") (second : String) :
    isAbsolute (first ++ second) = isAbsolute first := by
  obtain ⟨c, cs, hlist⟩ := List.exists_cons_of_ne_nil (mt String.toList_eq_nil_iff.mp hne)
  rw [Bool.eq_iff_iff, isAbsolute, isAbsolute, String.startsWith_string_iff,
    String.startsWith_string_iff, String.toList_append, hlist]
  simp

/-- The tree at the path of a folder; the empty path is that of the working folder. -/
def tree? (volume : Volume) (root : String) : Option FileTree :=
  (volume.look (if root.isEmpty then "." else root)).toOption

section
variable {names : List String}

theorem isAbsolute_intercalate (hne : names ≠ []) (h : ∀ name ∈ names, IsName name) :
    isAbsolute (String.intercalate "/" names) = false := by
  obtain ⟨name, rest, rfl⟩ := List.exists_cons_of_ne_nil hne
  have hname := h name List.mem_cons_self
  have hfirst : isAbsolute name = false := by
    rw [isAbsolute, String.startsWith_string_eq_false_iff]
    exact fun hstart => hname.noSlash (hstart.subset (by decide))
  by_cases hnil : rest = []
  · rw [hnil, String.intercalate_singleton, hfirst]
  · rw [String.intercalate_cons_of_ne_nil hnil, String.append_assoc,
      isAbsolute_append hname.ne_empty, hfirst]

/-- A path along names from a folder leads to what is below the tree of the folder. -/
theorem toOption_look_join (volume : Volume) (root : String) (hne : names ≠ [])
    (h : ∀ name ∈ names, IsName name) :
    (volume.look (join root (String.intercalate "/" names))).toOption =
      (volume.tree? root).bind (·.below? names) := by
  have hkey := intercalate_ne_empty hne h
  have hrelative := isAbsolute_intercalate hne h
  have hsegments := segments_intercalate hne fun name hname => (h name hname).noSlash
  rw [join, hrelative, Bool.or_false, tree?]
  by_cases hroot : root = ""
  · have hempty : root.isEmpty = true := by simpa using hroot
    have hdot : segments "." = ["."] := segments_of_noSlash (by decide)
    have hwork : isAbsolute "." = false := String.startsWith_string_eq_false_iff.mpr (by decide)
    rw [hempty, if_pos rfl, if_pos rfl, volume.toOption_look hkey, hsegments,
      volume.toOption_look (by decide), hdot, reach?_append hne h, reach?_stay hne (.inr rfl), start,
      start, hrelative, hwork]
  · have hempty : root.isEmpty = false := by simpa using hroot
    rw [hempty, if_neg Bool.false_ne_true, if_neg Bool.false_ne_true, volume.toOption_look hroot]
    split
    · next hends =>
        -- the slash at the end of the root is followed by an empty segment
        obtain ⟨outer, houter⟩ : ∃ outer, root = outer ++ "/" := by
          rw [← String.endsWith_toSlice, String.Slice.endsWith_string_iff] at hends
          obtain ⟨cs, hcs⟩ := hends
          refine ⟨String.ofList cs, String.toList_inj.mp ?_⟩
          rw [String.toList_append, String.toList_ofList, hcs, String.copy_toSlice]
        have hparts : segments root = segments outer ++ [""] := by
          rw [houter, ← String.append_empty (s := outer ++ "/"), segments_append]
          rfl
        rw [volume.toOption_look (by simp [hroot]), start, isAbsolute_append hroot, ← start, hparts,
          ← List.append_assoc, reach?_stay hne (.inl rfl), houter, segments_append, hsegments,
          ← List.append_assoc, reach?_append hne h]
    · rw [volume.toOption_look (by simp [hroot]), start, String.append_assoc, isAbsolute_append hroot,
        ← start, ← String.append_assoc, segments_append, hsegments, ← List.append_assoc,
        reach?_append hne h]

/-- The file at a path along names from a folder. -/
theorem file?_join (volume : Volume) (root : String) (hne : names ≠ [])
    (h : ∀ name ∈ names, IsName name) :
    volume.file? (join root (String.intercalate "/" names)) =
      ((volume.tree? root).bind (·.below? names)).bind (·.content?) := by
  rw [file?_eq, toOption_look_join volume root hne h]

end

end Volume

/-! ## Resolvers and normal forms -/

namespace Resolver

theorem ofFiles_normalizePath (files : List (String × ByteArray)) (path : String) :
    ofFiles files (normalizePath path) = ofFiles files path := by
  simp only [ofFiles, normalizePath_normalizePath]

section

variable (file? : List String → Option (Except FileFault ByteArray)) {path : String}

theorem ofDirectory_normalizePath :
    ofDirectory file? (normalizePath path) = ofDirectory file? path := by
  simp only [ofDirectory, normalizePath_normalizePath, normalSegments_normalizePath]

/-- A directory in which a path is not looked for. -/
theorem ofDirectory_of_outside
    (h : normalizePath path = "" ∨ (normalizePath path).startsWith ".." = true) :
    ofDirectory file? path = .error (.notFound (normalizePath path)) := by
  have hskip : ((normalizePath path).isEmpty || (normalizePath path).startsWith "..") = true := by
    rwa [Bool.or_eq_true, String.isEmpty_iff]
  simp only [ofDirectory, hskip, if_true, answer]

/-- A directory in which a path is looked for. -/
theorem ofDirectory_of_inside (hne : normalizePath path ≠ "")
    (hdots : (normalizePath path).startsWith ".." = false) :
    ofDirectory file? path = answer (normalizePath path) (file? (normalSegments path)) := by
  have hlook : ((normalizePath path).isEmpty || (normalizePath path).startsWith "..") = false := by
    rw [hdots, Bool.or_false, String.isEmpty_eq_false_iff]
    exact hne
  simp only [ofDirectory, hlook, if_neg Bool.false_ne_true]

end

theorem chain_normalizePath {resolvers : List Resolver}
    (h : ∀ resolver ∈ resolvers, ∀ path, resolver (normalizePath path) = resolver path)
    (path : String) : chain resolvers (normalizePath path) = chain resolvers path := by
  induction resolvers with
  | nil => simp only [chain, normalizePath_normalizePath]
  | cons first rest ih =>
      obtain ⟨hfirst, hrest⟩ := List.forall_mem_cons.mp h
      simp only [chain, hfirst, ih hrest]

/-- What is known from an answer. -/
theorem answer_eq_ok {key : String} {found : Option (Except FileFault ByteArray)}
    {bytes : ByteArray} (h : answer key found = .ok bytes) : found = some (.ok bytes) := by
  rw [answer.eq_def] at h
  split at h
  · cases h
    rfl
  · cases h
  · cases h

theorem answer_eq_unreadable {key path : String} {found : Option (Except FileFault ByteArray)}
    {cause : FileFault} (h : answer key found = .error (.unreadable path cause)) :
    path = key ∧ found = some (.error cause) := by
  rw [answer.eq_def] at h
  split at h
  · cases h
  · cases h
    exact ⟨rfl, rfl⟩
  · cases h

end Resolver

/-- The resolvers that there are. -/
inductive Provided : Resolver → Prop
  | files (files : List (String × ByteArray)) : Provided (.ofFiles files)
  | folder (volume : Volume) (root : String) : Provided (volume.resolver root)
  | bundle : Provided Bundle.resolver
  | chain {resolvers : List Resolver} (h : ∀ resolver ∈ resolvers, Provided resolver) :
      Provided (.chain resolvers)

theorem Provided.normalizePath {resolver : Resolver} (h : Provided resolver) (path : String) :
    resolver (Resource.normalizePath path) = resolver path := by
  induction h generalizing path with
  | files files => exact Resolver.ofFiles_normalizePath files path
  | folder volume root => exact Resolver.ofDirectory_normalizePath _
  | bundle => exact Resolver.ofFiles_normalizePath _ path
  | chain _ ih => exact Resolver.chain_normalizePath ih path

/-! ## Folders -/

namespace Volume

/-- The resolver of a folder opens nothing but files in the folder. -/
structure StaysInside (volume : Volume) (root : String) : Prop where
  /-- What it gives is the content of a file, whose path leads from the folder along the names of
  the normal form. -/
  opened : ∀ path bytes, volume.resolver root path = .ok bytes →
    LeadsInside (normalizePath path) ∧
      volume.file? (join root (normalizePath path)) = some (.ok bytes)
  /-- So does the path of what it cannot read. -/
  unreadable : ∀ path key cause, volume.resolver root path = .error (.unreadable key cause) →
    key = normalizePath path ∧ LeadsInside key ∧
      volume.file? (join root key) = some (.error cause)
  /-- Other files of the volume do not matter, nor whether they are there. -/
  others : ∀ other : Volume,
    (∀ key, LeadsInside key → other.file? (join root key) = volume.file? (join root key)) →
      other.resolver root = volume.resolver root
  /-- A path along names leads to what is below the tree of the folder. -/
  below : ∀ names : List String, names ≠ [] → (∀ name ∈ names, IsName name) →
    volume.file? (join root (String.intercalate "/" names)) =
      ((volume.tree? root).bind (·.below? names)).bind (·.content?)

theorem leadsInside_of_looked {path : String} (hne : normalizePath path ≠ "")
    (hdots : (normalizePath path).startsWith ".." = false) : LeadsInside (normalizePath path) :=
  ⟨normalSegments path, (leadsInside_normalizePath hne hdots).2,
    (leadsInside_normalizePath hne hdots).1, rfl⟩

/-- A folder in which a path is looked for. -/
theorem resolver_of_inside (volume : Volume) (root : String) {path : String}
    (hne : normalizePath path ≠ "") (hdots : (normalizePath path).startsWith ".." = false) :
    volume.resolver root path =
      Resolver.answer (normalizePath path) (volume.file? (join root (normalizePath path))) :=
  Resolver.ofDirectory_of_inside _ hne hdots

/-- A folder in which a path is not looked for. -/
theorem resolver_of_outside (volume : Volume) (root : String) {path : String}
    (h : normalizePath path = "" ∨ (normalizePath path).startsWith ".." = true) :
    volume.resolver root path = .error (.notFound (normalizePath path)) :=
  Resolver.ofDirectory_of_outside _ h

theorem outside_or_inside (path : String) :
    (normalizePath path = "" ∨ (normalizePath path).startsWith ".." = true) ∨
      normalizePath path ≠ "" ∧ (normalizePath path).startsWith ".." = false := by
  rw [← Bool.not_eq_true, ← not_or]
  exact em _

theorem staysInside (volume : Volume) (root : String) : volume.StaysInside root where
  opened path bytes hok := by
    rcases outside_or_inside path with hout | ⟨hne, hdots⟩
    · rw [volume.resolver_of_outside root hout] at hok
      cases hok
    · rw [volume.resolver_of_inside root hne hdots] at hok
      exact ⟨leadsInside_of_looked hne hdots, Resolver.answer_eq_ok hok⟩
  unreadable path key cause herror := by
    rcases outside_or_inside path with hout | ⟨hne, hdots⟩
    · rw [volume.resolver_of_outside root hout] at herror
      cases herror
    · rw [volume.resolver_of_inside root hne hdots] at herror
      obtain ⟨rfl, hfound⟩ := Resolver.answer_eq_unreadable herror
      exact ⟨rfl, leadsInside_of_looked hne hdots, hfound⟩
  others other hfiles := by
    funext path
    rcases outside_or_inside path with hout | ⟨hne, hdots⟩
    · rw [resolver_of_outside _ _ hout, resolver_of_outside _ _ hout]
    · rw [resolver_of_inside _ _ hne hdots, resolver_of_inside _ _ hne hdots,
        hfiles _ (leadsInside_of_looked hne hdots)]
  below _ hne h := volume.file?_join root hne h

end Volume

/-- **Normal forms of paths.** The normal form of a path is some steps outwards and then names, which
slashes join. It is its own normal form, and a path of two parts has the normal form that the normal
forms of its parts have together. Every resolver answers a path as it answers the normal form of the
path, the fault and the path in it included, and the one of a folder opens nothing but files in the
folder. -/
theorem normalizePath_canonical :
    (∀ path, ∃ (steps : Nat) (names : List String), (∀ name ∈ names, IsName name) ∧
      normalizePath path = String.intercalate "/" (List.replicate steps ".." ++ names)) ∧
    (∀ path, normalizePath (normalizePath path) = normalizePath path) ∧
    (∀ first second, normalizePath (first ++ "/" ++ second) =
      normalizePath (normalizePath first ++ "/" ++ normalizePath second)) ∧
    (∀ resolver, Provided resolver → ∀ path, resolver path = resolver (normalizePath path)) ∧
    ∀ volume root, Volume.StaysInside volume root := by
  refine ⟨fun path => ?_, normalizePath_normalizePath,
    fun first second => (normalizePath_append first second).symm,
    fun _ h path => (h.normalizePath path).symm, Volume.staysInside⟩
  obtain ⟨steps, names, hnames, hsegments⟩ := exists_normalSegments path
  exact ⟨steps, names, hnames, congrArg _ hsegments⟩

/-- A volume with one file, at the path of the names from the top. -/
def Volume.single (names : List String) (content : Except FileFault ByteArray) : Volume :=
  ⟨FileTree.empty.insert names (.file content), []⟩

/-- A file without permission. -/
def denied : FileFault := ⟨13, "Permission denied"⟩

/-- A folder with a file that cannot be read, and the bundle behind it. -/
def deniedWithBundle : Resolver :=
  ((Volume.single ["sch", "a.sch"] (.error denied)).resolver "sch").withBundle

theorem normalizePath_canonical_withBundle :
    Provided deniedWithBundle ∧ normalizePath "./x//../a.sch" = "a.sch" ∧
      deniedWithBundle "a.sch" = .error (.unreadable "a.sch" denied) ∧
      deniedWithBundle "./x//../a.sch" = .error (.unreadable "a.sch" denied) := by
  have hprovided : Provided deniedWithBundle := by
    refine .chain fun resolver hresolver => ?_
    rcases List.mem_pair.mp hresolver with rfl | rfl
    · exact .folder _ _
    · exact .bundle
  have hnormal : normalizePath "./x//../a.sch" = "a.sch" := by decide +kernel
  have hself : normalizePath "a.sch" = "a.sch" := by decide +kernel
  have hfile : (Volume.single ["sch", "a.sch"] (.error denied)).file? "sch/a.sch" =
      some (.error denied) := by cbv
  have hfolder : (Volume.single ["sch", "a.sch"] (.error denied)).resolver "sch" "a.sch" =
      .error (.unreadable "a.sch" denied) := by
    rw [Volume.resolver_of_inside _ _ (by decide +kernel) (by decide +kernel), hself,
      show Volume.join "sch" "a.sch" = "sch/a.sch" by decide +kernel, hfile]
    rfl
  have hanswer : deniedWithBundle "a.sch" = .error (.unreadable "a.sch" denied) := by
    simp only [deniedWithBundle, Resolver.withBundle, Resolver.chain, hfolder]
  obtain ⟨-, -, -, hanswers, -⟩ := normalizePath_canonical
  refine ⟨hprovided, hnormal, hanswer, ?_⟩
  rw [hanswers _ hprovided, hnormal, hanswer]

/-! ## Files of folders -/

namespace Volume

/-- The folder holds files with the given paths in it, which can be read, and no others; of two with
one path the later one is there. -/
structure Holds (volume : Volume) (root : String) (files : List (String × ByteArray)) : Prop where
  inside : ∀ file ∈ files, LeadsInside file.1
  content : ∀ key, LeadsInside key →
    volume.file? (join root key) = (files.reverse.lookup key).map .ok

theorem lookup_eq_none_iff_forall {files : List (String × ByteArray)} {key : String} :
    files.reverse.lookup key = none ↔ ∀ file ∈ files, file.1 ≠ key := by
  rw [List.lookup_eq_none_iff]
  simp only [List.mem_reverse, bne_iff_ne, ne_comm]

variable {volume : Volume} {root : String} {files : List (String × ByteArray)}

theorem Holds.ofFiles_eq (h : volume.Holds root files) (path : String) :
    Resolver.ofFiles files path = Resolver.answer (normalizePath path)
      ((files.reverse.lookup (normalizePath path)).map .ok) := by
  have hknown : (files.map fun file => (normalizePath file.1, file.2)) = files := by
    conv_rhs => rw [← List.map_id files]
    exact List.map_congr_left fun file hfile =>
      Prod.ext (h.inside file hfile).normalizePath_eq rfl
  cases hlookup : files.reverse.lookup (normalizePath path) <;>
    simp only [Resolver.ofFiles, hknown, hlookup, Option.map, Resolver.answer]

/-- **Folders and lists of files.** The resolver of a folder gives the answer of the list of the
files in the folder, the same bytes or the same fault, just if the normal form of the path is not
that of a file whose own path begins with two dots. -/
theorem resolver_eq_ofFiles_iff (h : volume.Holds root files) (path : String) :
    volume.resolver root path = Resolver.ofFiles files path ↔
      ∀ file ∈ files, file.1 = normalizePath path → file.1.startsWith ".." = false := by
  rw [h.ofFiles_eq path]
  rcases outside_or_inside path with hout | ⟨hne, hdots⟩
  · -- the folder does not look for the file, so that there must be none
    have hnone : volume.resolver root path = Resolver.answer (normalizePath path)
        ((files.reverse.lookup (normalizePath path)).map .ok) ↔
          files.reverse.lookup (normalizePath path) = none := by
      rw [volume.resolver_of_outside root hout]
      cases files.reverse.lookup (normalizePath path) <;> simp [Resolver.answer]
    rw [hnone, lookup_eq_none_iff_forall]
    refine forall₂_congr fun file hfile => imp_congr_right fun hkey => ?_
    have hstart := hout.resolve_left (hkey ▸ (h.inside file hfile).ne_empty)
    rw [hkey, hstart]
    simp
  · rw [volume.resolver_of_inside root hne hdots, h.content _ (leadsInside_of_looked hne hdots)]
    exact iff_of_true rfl fun file _ hkey => hkey ▸ hdots

/-- A file that was put into an empty folder is the only one there. -/
theorem below?_insert (names : List String) (content : Except FileFault ByteArray)
    (others : List String) :
    ((FileTree.empty.insert names (.file content)).below? others).bind (·.content?) =
      if others = names then some content else none := by
  induction names generalizing others with
  | nil => cases others <;> rfl
  | cons name names ih =>
      cases others with
      | nil => rfl
      | cons other others =>
          have hentry : FileTree.empty.insert (name :: names) (.file content) =
              .folder [(name, FileTree.empty.insert names (.file content))] := rfl
          rw [hentry, FileTree.below?, List.lookup_cons]
          by_cases hname : other = name
          · subst hname
            simp [ih others]
          · simp [beq_eq_false_iff_ne.mpr hname, hname]

/-- A folder into which one file was put holds this file. -/
theorem holds_insert (names : List String) (hne : names ≠ []) (h : ∀ name ∈ names, IsName name)
    {bytes : ByteArray}
    (htree : volume.tree? root = some (FileTree.empty.insert names (.file (.ok bytes)))) :
    volume.Holds root [(String.intercalate "/" names, bytes)] where
  inside file hfile := by
    rw [List.mem_singleton.mp hfile]
    exact ⟨names, hne, h, rfl⟩
  content key hkey := by
    obtain ⟨others, hothers, hnames, rfl⟩ := hkey
    rw [volume.file?_join root hothers hnames, htree, Option.bind_some, below?_insert]
    by_cases hsame : others = names
    · simp [hsame]
    · have hkeys : String.intercalate "/" others ≠ String.intercalate "/" names := fun heq =>
        hsame (by rw [← normalSegments_intercalate hothers hnames, heq,
          normalSegments_intercalate hne h])
      simp [hsame, List.lookup_cons, beq_eq_false_iff_ne.mpr hkeys]

theorem resolver_eq_ofFiles_single :
    (single ["rules", "sub", "..a.sch"] (.ok ⟨#[60]⟩)).Holds "/rules" [("sub/..a.sch", ⟨#[60]⟩)] ∧
      (single ["rules", "sub", "..a.sch"] (.ok ⟨#[60]⟩)).resolver "/rules" "./sub//../sub/..a.sch" =
        Resolver.ofFiles [("sub/..a.sch", ⟨#[60]⟩)] "./sub//../sub/..a.sch" := by
  have hholds : (single ["rules", "sub", "..a.sch"] (.ok ⟨#[60]⟩)).Holds "/rules"
      [("sub/..a.sch", ⟨#[60]⟩)] :=
    holds_insert ["sub", "..a.sch"] (by decide) (by decide) (by cbv)
  exact ⟨hholds, (resolver_eq_ofFiles_iff hholds _).mpr (by decide +kernel)⟩

/-- A file in a folder whose name begins with two dots is not found there. -/
theorem resolver_dottedName :
    (single ["rules", "..base.sch"] (.ok ⟨#[60]⟩)).Holds "/rules" [("..base.sch", ⟨#[60]⟩)] ∧
      Resolver.ofFiles [("..base.sch", ⟨#[60]⟩)] "..base.sch" = .ok ⟨#[60]⟩ ∧
      (single ["rules", "..base.sch"] (.ok ⟨#[60]⟩)).resolver "/rules" "..base.sch" =
        .error (.notFound "..base.sch") :=
  ⟨holds_insert ["..base.sch"] (by decide) (by decide) (by cbv), by cbv,
    Resolver.ofDirectory_of_outside _ (.inr (by decide +kernel))⟩

end Volume
end Schematron.Resource

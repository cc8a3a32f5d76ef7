import Mathlib.Data.List.Nodup
import Schematron.Proofs.Xml.Escaping
import Schematron.Proofs.Xml.Naming

/-!
# The content of tags

What the writer puts between the name of a tag and its end is read back as the pairs of keys and
values that were written (`tagAttributes_written`). Pairs that were read have keys, and no two the
same (`Pairs.of_tagAttributes`).
-/

namespace Schematron.Xml

/-! ## Written pairs -/

theorem toList_writeAttribute (key value : String) :
    (Tree.writeAttribute key value).toList =
      ' ' :: (key.toList ++ '=' :: '"' :: (Reference.escaped value.toList ++ ['"'])) := by
  simp [Tree.writeAttribute, Reference.toList_escape]

/-- Keys and values as they stand in a tag. -/
def writtenPairs (pairs : List (String × String)) : List Char :=
  pairs.flatMap fun p => (Tree.writeAttribute p.1 p.2).toList

/-- Keys that a reader could have found in one tag. -/
structure Pairs (keys : List (List Char)) : Prop where
  nodup : keys.Nodup
  ne_nil : ∀ key ∈ keys, key ≠ []

namespace Attributes

open Markup

/-- The keys of attributes that were read. -/
def keys (attributes : List Written) : List (List Char) := attributes.map (·.key)

/-- The key that is being read is there, and once it is complete, no attribute has it. -/
def Reading.Fresh (keys : List (List Char)) : Reading → Prop
  | .key _ seen => seen ≠ []
  | .afterKey _ whole => whole ≠ []
  | .beforeValue _ whole | .value _ whole _ _ => whole ≠ [] ∧ whole ∉ keys
  | .between | .failed _ => True

namespace Machine

/-! ## Reading what was written -/

/-- Characters that are only added to what was seen. -/
theorem foldl_seen {R : List Char → Reading} {attributes : List Written} {cs : List Char}
    (hstep : ∀ c ∈ cs, ∀ offset seen, step ⟨offset, attributes, R seen⟩ c =
      ⟨offset + c.utf8Size, attributes, R (c :: seen)⟩) (offset : Nat) (seen : List Char) :
    ∃ offset', cs.foldl step ⟨offset, attributes, R seen⟩ =
      ⟨offset', attributes, R (cs.reverse ++ seen)⟩ := by
  induction cs generalizing offset seen with
  | nil => exact ⟨offset, rfl⟩
  | cons c cs ih =>
      rw [List.foldl_cons, hstep c List.mem_cons_self, List.reverse_cons, List.append_assoc]
      exact ih (fun d hd => hstep d (List.mem_cons_of_mem _ hd)) _ _

theorem foldl_key {cs : List Char} (h : Legible cs) (offset position : Nat)
    (attributes : List Written) (seen : List Char) :
    ∃ offset', cs.foldl step ⟨offset, attributes, .key position seen⟩ =
      ⟨offset', attributes, .key position (cs.reverse ++ seen)⟩ := by
  refine foldl_seen (R := .key position) (fun c hc offset seen => ?_) offset seen
  have hequals : c ≠ '=' := ne_of_mem_of_not_mem hc (h.not_mem (by decide))
  simp [step, read, hequals, h.not_isSpace hc]

theorem foldl_value {cs : List Char} (h : '"' ∉ cs) (offset position : Nat)
    (attributes : List Written) (key seen : List Char) :
    ∃ offset', cs.foldl step ⟨offset, attributes, .value position key '"' seen⟩ =
      ⟨offset', attributes, .value position key '"' (cs.reverse ++ seen)⟩ := by
  refine foldl_seen (R := .value position key '"') (fun c hc offset seen => ?_) offset seen
  have hquote : c ≠ '"' := ne_of_mem_of_not_mem hc h
  simp [step, read, hquote]

/-- One written attribute is read whole. -/
theorem foldl_writeAttribute {key : String} (hne : key.toList ≠ []) (hkey : Legible key.toList)
    (value : String) {attributes : List Written} (hnew : key.toList ∉ keys attributes)
    (offset : Nat) :
    ∃ position offset', (Tree.writeAttribute key value).toList.foldl step
        ⟨offset, attributes, .between⟩ =
      ⟨offset', ⟨position, key.toList, Reference.escaped value.toList⟩ :: attributes,
        .between⟩ := by
  obtain ⟨first, rest, hsplit⟩ := List.exists_cons_of_ne_nil hne
  have hspace : isSpace first = false := hkey.not_isSpace (by rw [hsplit]; exact List.mem_cons_self)
  have hrest : Legible rest := fun c hc => hkey c (by rw [hsplit]; exact List.mem_cons_of_mem _ hc)
  have hunseen : attributes.find? (·.key == key.toList) = none := by
    rw [List.find?_eq_none]
    intro a ha hsame
    exact hnew (List.mem_map.mpr ⟨a, ha, beq_iff_eq.mp hsame⟩)
  have hbetween : step ⟨offset + ' '.utf8Size, attributes, .between⟩ first =
      ⟨offset + ' '.utf8Size + first.utf8Size, attributes,
        .key (offset + ' '.utf8Size) [first]⟩ := by
    simp [step, read, hspace]
  obtain ⟨afterKey, hafterKey⟩ := foldl_key hrest
    (offset + ' '.utf8Size + first.utf8Size) (offset + ' '.utf8Size) attributes [first]
  have hequals : step ⟨afterKey, attributes, .key (offset + ' '.utf8Size)
        (rest.reverse ++ [first])⟩ '=' =
      ⟨afterKey + '='.utf8Size, attributes, .beforeValue (offset + ' '.utf8Size) key.toList⟩ := by
    have hseen : (rest.reverse ++ [first]).reverse = key.toList := by rw [hsplit]; simp
    simp only [step, read, equals, hseen, hunseen, beq_self_eq_true, if_true]
  obtain ⟨afterValue, hafterValue⟩ := foldl_value
    (Reference.not_mem_escaped (.inr rfl) value.toList) (afterKey + '='.utf8Size + '"'.utf8Size)
    (offset + ' '.utf8Size) attributes key.toList []
  refine ⟨offset + ' '.utf8Size, afterValue + '"'.utf8Size, ?_⟩
  have hquote : step ⟨afterKey + '='.utf8Size, attributes,
        .beforeValue (offset + ' '.utf8Size) key.toList⟩ '"' =
      ⟨afterKey + '='.utf8Size + '"'.utf8Size, attributes,
        .value (offset + ' '.utf8Size) key.toList '"' []⟩ := rfl
  have hfirst : step ⟨offset, attributes, .between⟩ ' ' =
      ⟨offset + ' '.utf8Size, attributes, .between⟩ := rfl
  rw [toList_writeAttribute, List.foldl_cons, hfirst, List.foldl_append]
  have hkeyRead : key.toList.foldl step ⟨offset + ' '.utf8Size, attributes, .between⟩ =
      ⟨afterKey, attributes, .key (offset + ' '.utf8Size) (rest.reverse ++ [first])⟩ := by
    rw [hsplit, List.foldl_cons, hbetween, hafterKey]
  rw [hkeyRead, List.foldl_cons, hequals, List.foldl_cons, hquote, List.foldl_append, hafterValue]
  simp [step, read]

/-- Written pairs are read whole, one after the other. -/
theorem foldl_writtenPairs {pairs : List (String × String)} {attributes : List Written}
    (hkeys : Pairs (keys attributes ++ pairs.map (·.1.toList)))
    (hlegible : ∀ p ∈ pairs, Legible p.1.toList) (offset : Nat) :
    ∃ (read : List Written) (offset' : Nat),
      (writtenPairs pairs).foldl step ⟨offset, attributes, .between⟩ =
        ⟨offset', read.reverse ++ attributes, .between⟩ ∧
      read.map (fun a => (a.key, a.value)) =
        pairs.map fun p => (p.1.toList, Reference.escaped p.2.toList) := by
  induction pairs generalizing offset attributes with
  | nil => exact ⟨[], offset, rfl, rfl⟩
  | cons p rest ih =>
      have hne := hkeys.ne_nil p.1.toList (by simp)
      have hnew : p.1.toList ∉ keys attributes := fun hmem =>
        List.disjoint_of_nodup_append hkeys.nodup hmem (by simp)
      obtain ⟨position, middle, hfirst⟩ :=
        foldl_writeAttribute hne (hlegible p List.mem_cons_self) p.2 hnew offset
      have hmoved : Pairs (keys (⟨position, p.1.toList, Reference.escaped p.2.toList⟩ :: attributes)
          ++ rest.map (·.1.toList)) :=
        ⟨(List.nodup_middle.mp hkeys.nodup), fun key hkey => hkeys.ne_nil key (by
          simp only [keys, List.map_cons, List.mem_append, List.mem_cons] at hkey ⊢
          tauto)⟩
      obtain ⟨read, offset', hrest, hread⟩ :=
        ih hmoved (fun q hq => hlegible q (List.mem_cons_of_mem _ hq)) middle
      refine ⟨⟨position, p.1.toList, Reference.escaped p.2.toList⟩ :: read, offset', ?_, ?_⟩
      · rw [writtenPairs, List.flatMap_cons, List.foldl_append, hfirst, ← writtenPairs, hrest]
        simp
      · rw [List.map_cons, List.map_cons, hread]

/-! ## What was read -/

/-- No two attributes that were read have one key, and each has one. -/
structure Apart (m : Machine) : Prop where
  read : Pairs (keys m.attributes)
  reading : m.reading.Fresh (keys m.attributes)

theorem Apart.fresh {m : Machine} (h : m.Apart) {reading : Reading}
    (hreading : m.reading = reading) : reading.Fresh (keys m.attributes) := hreading ▸ h.reading

theorem Apart.equals {m : Machine} (h : m.Apart) (position : Nat) {key : List Char}
    (hkey : key ≠ []) : (m.equals position key).Apart := by
  rw [Machine.equals]
  split
  · exact ⟨h.read, trivial⟩
  · next hnone =>
      refine ⟨h.read, hkey, fun hmem => ?_⟩
      obtain ⟨a, ha, hsame⟩ := List.mem_map.mp hmem
      exact List.find?_eq_none.mp hnone a ha (beq_iff_eq.mpr hsame)

/-- Each character keeps the keys apart. -/
theorem Apart.step {m : Machine} (h : m.Apart) (c : Char) : (m.step c).Apart := by
  suffices hread : (m.read c).Apart from ⟨hread.read, hread.reading⟩
  rw [Machine.read]
  split
  · exact h
  · split
    · exact h
    · exact ⟨h.read, List.cons_ne_nil _ _⟩
  · next position seen hreading =>
      have hseen : seen ≠ [] := h.fresh hreading
      have hkey : seen.reverse ≠ [] := by simpa using hseen
      split
      · exact h.equals position hkey
      · split
        · exact ⟨h.read, hkey⟩
        · exact ⟨h.read, List.cons_ne_nil _ _⟩
  · next position key hreading =>
      have hkey : key ≠ [] := h.fresh hreading
      split
      · exact h.equals position hkey
      · split
        · exact h
        · exact ⟨h.read, trivial⟩
  · next position key hreading =>
      have hkey : key ≠ [] ∧ key ∉ keys m.attributes := h.fresh hreading
      split
      · exact h
      · split
        · exact ⟨h.read, hkey⟩
        · exact ⟨h.read, trivial⟩
  · next position key quote seen hreading =>
      have hkey : key ≠ [] ∧ key ∉ keys m.attributes := h.fresh hreading
      split
      · refine ⟨⟨List.nodup_cons.mpr ⟨hkey.2, h.read.nodup⟩, fun other hother => ?_⟩, trivial⟩
        rcases List.mem_cons.mp hother with rfl | hother
        · exact hkey.1
        · exact h.read.ne_nil other hother
      · exact ⟨h.read, hkey⟩

end Machine

theorem pairs_of_read (content : List Char) : Pairs (keys (read content).1) := by
  have hstart : Machine.Apart { offset := byteLength (nameOf content) } :=
    ⟨⟨List.nodup_nil, by simp [keys]⟩, trivial⟩
  have hread := (List.foldlRecOn (content.dropWhile (!isSpace ·)) Machine.step hstart
    fun m hm c _ => hm.step c).read
  refine ⟨?_, fun key hkey => hread.ne_nil key ?_⟩
  · rw [read, Machine.finish, keys, List.map_reverse]
    exact List.nodup_reverse.mpr hread.nodup
  · rw [read, Machine.finish, keys, List.map_reverse] at hkey
    exact List.mem_reverse.mp hkey

/-- The name at the beginning of a written tag. -/
theorem nameOf_written {name : List Char} (hname : Legible name) (pairs : List (String × String)) :
    nameOf (name ++ writtenPairs pairs) = name ∧
      (name ++ writtenPairs pairs).dropWhile (!isSpace ·) = writtenPairs pairs := by
  have hkept : ∀ c ∈ name, (!isSpace c) = true := fun c hc => by simp [hname.not_isSpace hc]
  have hstop : (writtenPairs pairs).takeWhile (!isSpace ·) = [] ∧
      (writtenPairs pairs).dropWhile (!isSpace ·) = writtenPairs pairs := by
    cases pairs with
    | nil => exact ⟨rfl, rfl⟩
    | cons p rest =>
        simp only [writtenPairs, List.flatMap_cons, toList_writeAttribute, List.cons_append]
        exact ⟨rfl, rfl⟩
  rw [nameOf, List.takeWhile_append_of_pos hkept, List.dropWhile_append_of_pos hkept, hstop.1,
    hstop.2, List.append_nil]
  exact ⟨rfl, rfl⟩

end Attributes

open Attributes

/-- The pairs of a written tag are read back. -/
theorem tagAttributes_written (position : Nat) {name : List Char} (hname : Legible name)
    {pairs : List (String × String)} (hkeys : Pairs (pairs.map (·.1.toList)))
    (hlegible : ∀ p ∈ pairs, Legible p.1.toList) :
    tagAttributes position (name ++ writtenPairs pairs) =
      .ok (pairs.map fun p => (p.1.toList, p.2)) := by
  obtain ⟨written, offset, hfold, hwritten⟩ := @Machine.foldl_writtenPairs _ [] hkeys hlegible
    (Markup.byteLength name)
  have hread : Attributes.read (name ++ writtenPairs pairs) = (written, none) := by
    rw [Attributes.read, (nameOf_written hname pairs).1, (nameOf_written hname pairs).2, hfold,
      Machine.finish, List.append_nil, List.reverse_reverse]
  have hpairs : List.Forall₂ (fun (a : Written) (p : String × String) =>
      (a.key, a.value) = (p.1.toList, Reference.escaped p.2.toList)) written pairs := by
    rw [← List.forall₂_map_right_iff, ← List.forall₂_map_left_iff, List.forall₂_eq_eq_eq]
    exact hwritten
  rw [tagAttributes, hread]
  refine bind_eq_ok.mpr ⟨_, mapM_eq_ok.mpr (List.forall₂_map_right_iff.mpr (hpairs.imp ?_)), rfl⟩
  intro a p hsame
  obtain ⟨hkey, hvalue⟩ := Prod.mk.inj hsame
  rw [hkey, hvalue, Reference.unescape_escaped]
  exact congrArg (fun value => Except.ok (p.1.toList, value)) String.ofList_toList

/-- Each pair has the key and the value, references replaced, of an attribute in the tag. -/
theorem forall₂_of_tagAttributes {position : Nat} {content : List Char}
    {attributes : List (List Char × String)}
    (h : tagAttributes position content = .ok attributes) :
    List.Forall₂ (fun a p => p.1 = a.key ∧ Reference.unescape a.value = .ok p.2.toList)
      (Attributes.read content).1 attributes := by
  obtain ⟨read, hmap, hread⟩ := bind_eq_ok.mp h
  have hsame : read = attributes := by
    split at hread
    · cases hread
    · cases hread
      rfl
  rw [← hsame]
  refine (mapM_eq_ok.mp hmap).imp fun a p hp => ?_
  split at hp
  · next value hvalue =>
      cases hp
      exact ⟨rfl, by rw [hvalue, String.toList_ofList]⟩
  · cases hp

/-- The keys of the pairs are the keys in the tag. -/
theorem keys_of_tagAttributes {position : Nat} {content : List Char}
    {attributes : List (List Char × String)}
    (h : tagAttributes position content = .ok attributes) :
    keys (Attributes.read content).1 = attributes.map (·.1) := by
  rw [keys, ← List.forall₂_eq_eq_eq, List.forall₂_map_left_iff, List.forall₂_map_right_iff]
  exact (forall₂_of_tagAttributes h).imp fun a p hp => hp.1.symm

/-- Pairs that were read from a tag have keys, and no two the same. -/
theorem Pairs.of_tagAttributes {position : Nat} {content : List Char}
    {attributes : List (List Char × String)}
    (h : tagAttributes position content = .ok attributes) : Pairs (attributes.map (·.1)) :=
  keys_of_tagAttributes h ▸ pairs_of_read content

/-- Whether a tag can be read does not depend on where it stands. -/
theorem tagAttributes_of_position {position : Nat} {content : List Char}
    {pairs : List (List Char × String)} (h : tagAttributes position content = .ok pairs)
    (position' : Nat) : tagAttributes position' content = .ok pairs := by
  unfold tagAttributes at h ⊢
  obtain ⟨attributes, hattributes, hend⟩ := bind_eq_ok.mp h
  refine bind_eq_ok.mpr ⟨attributes, ?_, ?_⟩
  · rw [mapM_eq_ok] at hattributes ⊢
    refine hattributes.imp fun a pair hpair => ?_
    split at hpair
    · exact hpair
    · cases hpair
  · split at hend
    · cases hend
    · exact hend

end Schematron.Xml

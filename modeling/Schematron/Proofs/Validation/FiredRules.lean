import Schematron.Proofs.Outcome
import Schematron.Proofs.Validation.Records

/-!
# Fired rules

In a pattern the first rule that selects a node fires on it. A run finds the rules with a table
that it fills from the last rule to the first; here the table is left out (`firedRules_eq`).
-/

namespace Schematron.Validation

open Schema
open Xml (Document NodeId)

/-- The rules that fire on the nodes of a document, in document order: on each node the first one
that selects it. -/
def firstSelecting (size : Nat) (selected : List (Rule × List NodeId)) : List (Rule × NodeId) :=
  (List.range size).filterMap fun node =>
    (selected.find? (·.2.contains node)).map fun (rule, _) => (rule, node)

theorem size_setAll (rule : Rule) (ids : List NodeId) (table : Array (Option Rule)) :
    (ids.foldl (fun table id => table.setIfInBounds id (some rule)) table).size = table.size := by
  induction ids generalizing table with
  | nil => rfl
  | cons id rest ih => rw [List.foldl_cons, ih, Array.size_setIfInBounds]

theorem getElem?_setAll (rule : Rule) (ids : List NodeId) (table : Array (Option Rule))
    {node : Nat} (hnode : node < table.size) :
    (ids.foldl (fun table id => table.setIfInBounds id (some rule)) table)[node]? =
      if ids.contains node then some (some rule) else table[node]? := by
  induction ids generalizing table with
  | nil => rfl
  | cons id rest ih =>
      rw [List.foldl_cons, ih _ (by simpa using hnode), Array.getElem?_setIfInBounds,
        List.contains_cons]
      by_cases hid : id = node
      · subst hid
        simp [hnode]
      · have hne : (node == id) = false := by simpa using fun h : node = id => hid h.symm
        rw [if_neg hid, hne, Bool.false_or]

theorem size_firstRules (size : Nat) (selected : List (Rule × List NodeId)) :
    (firstRules size selected).size = size := by
  induction selected with
  | nil => exact Array.size_replicate
  | cons head rest ih => exact (size_setAll head.1 head.2 _).trans ih

/-- A rule later in the list is overwritten by the rules before it. -/
theorem firstRules_getElem? (size : Nat) (selected : List (Rule × List NodeId)) {node : Nat}
    (hnode : node < size) :
    (firstRules size selected)[node]? =
      some ((selected.find? (·.2.contains node)).map (·.1)) := by
  induction selected with
  | nil => simp [firstRules, hnode]
  | cons head rest ih =>
      -- the head of the list is written last
      have hset := getElem?_setAll head.1 head.2 (firstRules size rest)
        (by rwa [size_firstRules])
      rw [ih] at hset
      refine hset.trans ?_
      rw [List.find?_cons]
      cases head.2.contains node <;> rfl

theorem firstRules_toList (size : Nat) (selected : List (Rule × List NodeId)) :
    (firstRules size selected).toList =
      (List.range size).map fun node => (selected.find? (·.2.contains node)).map (·.1) := by
  refine List.ext_getElem? fun node => ?_
  rw [Array.getElem?_toList, List.getElem?_map]
  by_cases hnode : node < size
  · rw [firstRules_getElem? size selected hnode, List.getElem?_range hnode]
    rfl
  · rw [Array.getElem?_eq_none (by rw [size_firstRules]; omega),
      List.getElem?_eq_none (by simpa using hnode)]
    rfl

/-- The table of first rules, which is filled from the last rule to the first, fires on each node
the first rule that selects it. -/
theorem firedRules_eq (size : Nat) (selected : List (Rule × List NodeId)) :
    firedRules size selected = firstSelecting size selected := by
  have hindices : (List.range size).zipIdx = (List.range size).map fun i => (i, i) := by
    refine List.ext_getElem (by simp) fun i h _ => ?_
    simp
  rw [firedRules, firstRules_toList, List.zipIdx_map, hindices, List.map_map, List.filterMap_map,
    firstSelecting]
  refine List.filterMap_congr fun node _ => ?_
  simp [Function.comp_def]

/-- A rule that fires is a rule of its pattern. -/
theorem mem_rules_of_fired [Regex.Engine] {doc : Document} {bindings : Bindings} {pattern : Pattern}
    {selected : List (Rule × List NodeId)} (h : selectNodes doc bindings pattern = .ok selected)
    {rule : Rule} {node : NodeId} (hfired : (rule, node) ∈ firedRules doc.size selected) :
    rule ∈ pattern.rules := by
  rw [firedRules_eq, firstSelecting] at hfired
  obtain ⟨_, -, hfound⟩ := List.mem_filterMap.mp hfired
  obtain ⟨⟨rule', ids⟩, hfind, heq⟩ := Option.map_eq_some_iff.mp hfound
  cases heq
  have hmem := List.mem_of_find?_eq_some hfind
  exact forall_of_mapM (P := fun x : Rule × List NodeId => x.1 ∈ pattern.rules) h
    (fun rule hrule x hx => by
      obtain ⟨ids, -, hx⟩ := bind_eq_ok.mp hx
      cases hx
      exact hrule) _ hmem

end Schematron.Validation

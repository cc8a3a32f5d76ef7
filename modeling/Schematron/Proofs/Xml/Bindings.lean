import Mathlib.Data.List.TakeWhile
import Schematron.Proofs.Xml.Opening

/-!
# The declarations of the open elements

The declarations that hold at a place of a text are those of the tags that are open there, the
innermost first (`Growth.scope_eq`). They can be kept on one flat stack, each with the depth of the
element that makes it: at the end of an element, the declarations made at its depth or deeper are
released, which are just those of the element (`Growth.scope_eq_bindings`).
-/

namespace Schematron.Xml

/-! ## Open tags -/

/-- The declarations that a tag makes; none if its attributes cannot be read. -/
def declaredBy (content : List Char) : List Declaration :=
  match tagAttributes 0 content with
  | .ok pairs => declarationsOf pairs
  | .error _ => []

theorem declaredBy_eq {position : Nat} {content : List Char} {pairs : List (List Char × String)}
    (h : tagAttributes position content = .ok pairs) : declaredBy content = declarationsOf pairs := by
  rw [declaredBy, tagAttributes_of_position h 0]

namespace Markup

/-- The tags that are open behind a unit, the innermost first. -/
def openTag (tags : List (List Char)) (unit : Markup) : List (List Char) :=
  match unit with
  | .startTag content => content :: tags
  | .endTag _ => tags.tail
  | _ => tags

/-- The tags that are open behind units. -/
def openTags (units : List Located) : List (List Char) :=
  units.foldl (fun tags u => openTag tags u.unit) []

end Markup

namespace Growth

open Markup

/-- The elements are those that the tags have opened. -/
inductive Opens : List OpenElement → List (List Char) → Prop
  | nil : Opens [] []
  | cons {o : OpenElement} {opened : List OpenElement} {content : List Char}
      {tags : List (List Char)} {pairs : List (List Char × String)} (h : Opens opened tags)
      (hpairs : tagAttributes 0 content = .ok pairs)
      (hscope : o.scope = (content :: tags).flatMap fun tag => (declaredBy tag).reverse) :
      Opens (o :: opened) (content :: tags)

variable {g g' : Growth} {tags : List (List Char)}

namespace Opens

theorem scope_eq (h : Opens g.opened tags) :
    g.scope = tags.flatMap fun tag => (declaredBy tag).reverse := by
  rw [scope]
  generalize g.opened = opened at h
  cases h with
  | nil => rfl
  | cons _ _ hscope => exact hscope

theorem readable {opened : List OpenElement} (h : Opens opened tags) :
    ∀ tag ∈ tags, ∃ pairs, tagAttributes 0 tag = .ok pairs := by
  induction h with
  | nil => nofun
  | cons _ hpairs _ ih => exact List.forall_mem_cons.mpr ⟨⟨_, hpairs⟩, ih⟩

theorem tail {opened : List OpenElement} (h : Opens opened tags) : Opens opened.tail tags.tail := by
  cases h with
  | nil => exact .nil
  | cons h _ _ => exact h

theorem openElement (h : Opens g.opened tags) {position : Nat} {content : List Char}
    (hopen : g.openElement position content = .ok g') : Opens g'.opened (content :: tags) := by
  obtain ⟨-, pairs, hpairs, name, -, attributes, -, rfl⟩ := openElement_eq_ok.mp hopen
  refine .cons h (tagAttributes_of_position hpairs 0) ?_
  rw [List.flatMap_cons, declaredBy_eq hpairs, ← h.scope_eq]

theorem addText {position : Nat} {text : String} (hadd : g.addText position text = .ok g') :
    g'.opened = g.opened := by
  rw [Growth.addText] at hadd
  split at hadd
  · cases hadd
    rfl
  · split at hadd
    · cases hadd
      rfl
    · cases hadd

/-- A unit opens and closes its tag. -/
theorem add (h : Opens g.opened tags) {u : Located} (hadd : g.add u = .ok g') :
    Opens g'.opened (openTag tags u.unit) := by
  rw [Growth.add] at hadd
  split at hadd
  · next raw hunit =>
      rw [hunit]
      split at hadd
      · exact addText hadd ▸ h
      · cases hadd
  · next content hunit =>
      rw [hunit]
      exact addText hadd ▸ h
  · next content hunit =>
      rw [hunit]
      cases hadd
      exact h
  · next content hunit =>
      rw [hunit]
      exact h.openElement hadd
  · next content hunit =>
      rw [hunit]
      obtain ⟨opened, hopen, rfl⟩ := map_eq_ok.mp hadd
      exact (h.openElement hopen).tail
  · next name hunit =>
      rw [hunit]
      rw [endElement] at hadd
      split at hadd
      · cases hadd
      · split at hadd
        · cases hadd
          exact h.tail
        · cases hadd

theorem foldlM {units : List Located} (h : Opens g.opened tags)
    (hunits : units.foldlM Growth.add g = .ok g') :
    Opens g'.opened (units.foldl (fun tags u => openTag tags u.unit) tags) := by
  induction units generalizing g tags with
  | nil =>
      cases hunits
      exact h
  | cons u units ih =>
      rw [List.foldlM_cons, bind_eq_ok] at hunits
      obtain ⟨mid, hadd, hrest⟩ := hunits
      exact ih (h.add hadd) hrest

end Opens

/-- Behind units that were read, the open tags have opened the open elements. -/
theorem opens_of_foldlM {units : List Located} (hunits : units.foldlM add {} = .ok g) :
    Opens g.opened (openTags units) := Opens.foldlM .nil hunits

/-- The declarations of the open tags hold, those of the innermost first. -/
theorem scope_eq {units : List Located} (hunits : units.foldlM add {} = .ok g) :
    g.scope = (openTags units).flatMap fun tag => (declaredBy tag).reverse :=
  (opens_of_foldlM hunits).scope_eq

end Growth

/-! ## The flat stack -/

/-- Declarations, the innermost first, each with the number of the elements around its own. -/
abbrev Bindings := List (Declaration × Nat)

namespace Bindings

open Markup

/-- The declarations of a tag come onto the stack. -/
def push (bindings : Bindings) (depth : Nat) (content : List Char) : Bindings :=
  (declaredBy content).reverse.map (·, depth) ++ bindings

/-- The declarations made at the depth or deeper go. -/
def release (bindings : Bindings) (depth : Nat) : Bindings :=
  bindings.dropWhile fun binding => decide (depth ≤ binding.2)

/-- What a unit does to the number of open elements and the stack. -/
def step (state : Nat × Bindings) (unit : Markup) : Nat × Bindings :=
  match unit with
  | .startTag content => (state.1 + 1, state.2.push state.1 content)
  | .emptyTag content => (state.1, (state.2.push state.1 content).release state.1)
  | .endTag _ => (state.1 - 1, state.2.release (state.1 - 1))
  | _ => state

/-- The stack behind units. -/
def after (units : List Located) : Bindings :=
  (units.foldl (fun state u => step state u.unit) (0, [])).2

/-- The stack of open tags. -/
def ofTags : List (List Char) → Bindings
  | [] => []
  | content :: tags => (ofTags tags).push tags.length content

theorem lt_of_mem_ofTags {tags : List (List Char)} :
    ∀ binding ∈ ofTags tags, binding.2 < tags.length := by
  induction tags with
  | nil => nofun
  | cons content tags ih =>
      intro binding hbinding
      rw [List.length_cons]
      obtain hown | hrest := List.mem_append.mp hbinding
      · obtain ⟨d, -, rfl⟩ := List.mem_map.mp hown
        exact Nat.lt_succ_self _
      · exact Nat.lt_succ_of_lt (ih binding hrest)

/-- At the end of an element just its own declarations are released. -/
theorem release_push (tags : List (List Char)) (content : List Char) :
    ((ofTags tags).push tags.length content).release tags.length = ofTags tags := by
  have hkept : (ofTags tags).dropWhile (fun binding => decide (tags.length ≤ binding.2)) =
      ofTags tags := by
    refine List.dropWhile_eq_self_iff.mpr fun hpos => ?_
    have hlt := lt_of_mem_ofTags _ (List.getElem_mem hpos)
    simpa using hlt
  rw [release, push, List.dropWhile_append_of_pos, hkept]
  intro binding hbinding
  obtain ⟨d, -, rfl⟩ := List.mem_map.mp hbinding
  exact decide_eq_true (Nat.le_refl _)

theorem step_eq (tags : List (List Char)) (unit : Markup) :
    step (tags.length, ofTags tags) unit =
      ((openTag tags unit).length, ofTags (openTag tags unit)) := by
  cases unit with
  | startTag content => rfl
  | emptyTag content =>
      show (tags.length, _) = (tags.length, ofTags tags)
      rw [release_push]
  | endTag name =>
      cases tags with
      | nil => rfl
      | cons content tags =>
          show (tags.length, release _ tags.length) = (tags.length, ofTags tags)
          rw [ofTags, release_push]
  | _ => rfl

theorem after_eq (units : List Located) : after units = ofTags (openTags units) := by
  have hrun : ∀ tags : List (List Char),
      units.foldl (fun state u => step state u.unit) (tags.length, ofTags tags) =
        ((units.foldl (fun tags u => openTag tags u.unit) tags).length,
          ofTags (units.foldl (fun tags u => openTag tags u.unit) tags)) := by
    induction units with
    | nil => exact fun _ => rfl
    | cons u units ih =>
        intro tags
        rw [List.foldl_cons, step_eq, ih]
        rfl
  exact congrArg Prod.snd (hrun [])

theorem map_ofTags (tags : List (List Char)) :
    (ofTags tags).map (·.1) = tags.flatMap fun tag => (declaredBy tag).reverse := by
  induction tags with
  | nil => rfl
  | cons content tags ih =>
      rw [ofTags, push, List.map_append, ih, List.map_map, List.flatMap_cons]
      exact congrArg (· ++ _) (List.map_id _)

end Bindings

/-- Behind units that were read, the declarations that hold are those on the flat stack. -/
theorem Growth.scope_eq_bindings {g : Growth} {units : List Markup.Located}
    (hunits : units.foldlM Growth.add {} = .ok g) :
    g.scope = (Bindings.after units).map (·.1) := by
  rw [Growth.scope_eq hunits, Bindings.after_eq, Bindings.map_ofTags]

end Schematron.Xml

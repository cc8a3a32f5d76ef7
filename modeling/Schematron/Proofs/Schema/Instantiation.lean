import Mathlib.Data.Set.Finite.Lattice
import Mathlib.Logic.Relation
import Mathlib.Order.WellFounded
import Schematron.Proofs.Outcome
import Schematron.Schema.Abstraction
import Schematron.Xml.Reader

/-!
# Loops of instances

Whether an expansion of abstract patterns comes to an end depends on the patterns only: neither
the parameters of an instance nor the instances completed before it play a part
(`ending_unfold`). A deeper unfolding ends as a shallower one does, if that one ends at all
(`patternEnding_deepens`), and as deep as there are abstract patterns nothing changes any more
(`patternEnding_add`). So an expansion without end at that depth has none at any depth, and it
meets a pattern whose content leads back to it (`exists_loop`).
-/

namespace Schematron.Schema.Abstraction

open Relation (ReflTransGen TransGen)
open Xml (Declaration Document Name Tree)

variable {α : Type} {setting : Setting}

/-! ## Meeting patterns -/

/-- Copying the tree comes upon an instance of the pattern. -/
inductive Meets (setting : Setting) : Tree → AbstractPattern → Prop
  /-- An instance, which takes the content of the pattern over. -/
  | taken {tree patternName pattern} : setting.leavesOut tree = false →
      Setting.instanceOf? tree = some patternName → setting.pattern? patternName = some pattern →
      Meets setting tree pattern
  /-- An instance keeps its own children, except for its parameters. -/
  | own {tree patternName child pattern} : setting.leavesOut tree = false →
      Setting.instanceOf? tree = some patternName → child ∈ tree.children →
      child.isSchemaElement "param" = false → Meets setting child pattern →
      Meets setting tree pattern
  | inside {tree child pattern} : setting.leavesOut tree = false →
      Setting.instanceOf? tree = none → child ∈ tree.children → Meets setting child pattern →
      Meets setting tree pattern

/-- The content of the first pattern holds an instance of the second. -/
def Setting.Instantiates (setting : Setting) (outer inner : AbstractPattern) : Prop :=
  ∃ tree ∈ outer.content, Meets setting tree inner

theorem Setting.mem_of_pattern? {patternName : String} {pattern : AbstractPattern}
    (h : setting.pattern? patternName = some pattern) : pattern ∈ setting.abstracts :=
  List.mem_reverse.mp (List.mem_of_find?_eq_some h)

theorem Meets.mem {tree : Tree} {pattern : AbstractPattern} (h : Meets setting tree pattern) :
    pattern ∈ setting.abstracts := by
  induction h with
  | taken _ _ hfound => exact Setting.mem_of_pattern? hfound
  | own _ _ _ _ _ ih => exact ih
  | inside _ _ _ _ ih => exact ih

theorem Setting.Instantiates.mem {outer inner : AbstractPattern}
    (h : setting.Instantiates outer inner) : inner ∈ setting.abstracts := by
  obtain ⟨tree, -, hmeets⟩ := h
  exact hmeets.mem

theorem Setting.pattern_of_readInstance {patternName : String} {tree : Tree} {found : Instance}
    (h : setting.readInstance patternName tree = .ok found) :
    setting.pattern? patternName = some found.pattern := by
  unfold Setting.readInstance at h
  split at h
  case h_1 pattern hpattern =>
    obtain ⟨parameters, -, hfound⟩ := bind_eq_ok.mp h
    cases hfound
    exact hpattern
  case h_2 =>
    split at h <;> cases h

/-! ## Endings -/

/-- The fault that a part of an expansion ends with, if it does not complete. -/
def ending (m : Expansion α) (done : List Instance) : Option StageFault :=
  match m.run done with
  | .ok _ => none
  | .error fault => some fault

theorem ending_bind_of_ok {β : Type} {m : Expansion α} {f : α → Expansion β}
    {done done' : List Instance} {x : α} (h : m.run done = .ok (x, done')) :
    ending (m >>= f) done = ending (f x) done' := by
  unfold ending
  rw [StateT.run_bind, h]
  rfl

theorem ending_bind_of_error {β : Type} {m : Expansion α} {f : α → Expansion β}
    {done : List Instance} {fault : StageFault} (h : m.run done = .error fault) :
    ending (m >>= f) done = some fault := by
  unfold ending
  rw [StateT.run_bind, h]
  rfl

/-- A relation between the endings of two expansions that need only hold of their parts. -/
structure Sequential (R : Option StageFault → Option StageFault → Prop) : Prop where
  completed : R none none
  stopped (d : Diagnostic) : R (some (.diagnostic d)) (some (.diagnostic d))
  andThen {a b a' b' : Option StageFault} : R a b → R a' b' → R (a <|> a') (b <|> b')

/-- The two end in related ways, whatever instances were completed before. -/
def Alike (R : Option StageFault → Option StageFault → Prop) (m n : Expansion α) : Prop :=
  ∀ done done', R (ending m done) (ending n done')

namespace Alike

variable {R : Option StageFault → Option StageFault → Prop} {m n : Expansion α}

theorem pure (hR : Sequential R) (x y : α) : Alike R (Pure.pure x) (Pure.pure y) :=
  fun _ _ => hR.completed

theorem throw (hR : Sequential R) (d : Diagnostic) :
    Alike R (MonadExcept.throw (.diagnostic d) : Expansion α)
      (MonadExcept.throw (.diagnostic d)) :=
  fun _ _ => hR.stopped d

theorem bind {β : Type} [Inhabited α] (hR : Sequential R) {f g : α → Expansion β}
    (hm : Alike R m n) (hf : ∀ x y, Alike R (f x) (g y)) : Alike R (m >>= f) (n >>= g) := by
  intro done done'
  have first : R (ending m done) (ending n done') := hm done done'
  -- a part that ends with a fault takes the place of whatever would have come after it
  cases hx : m.run done with
  | error fault =>
      rw [ending_bind_of_error hx]
      cases hy : n.run done' with
      | error fault' =>
          rw [ending_bind_of_error hy]
          simpa [ending, hx, hy] using first
      | ok y =>
          rw [ending_bind_of_ok hy]
          have second := hf default y.1 done y.2
          simpa [ending, hx, hy] using hR.andThen first second
  | ok x =>
      rw [ending_bind_of_ok hx]
      cases hy : n.run done' with
      | error fault' =>
          rw [ending_bind_of_error hy]
          have second := hf x.1 default x.2 done'
          simpa [ending, hx, hy] using hR.andThen first second
      | ok y =>
          rw [ending_bind_of_ok hy]
          have second := hf x.1 y.1 x.2 y.2
          simpa [ending, hx, hy] using hR.andThen first second

end Alike

/-! ## Copies

Two copies of a tree end in related ways if what their instances take over does, whatever the
parameters and the namespaces around them are.
-/

section Copy

variable {R : Option StageFault → Option StageFault → Prop}
  {taken taken' : Instance → Expansion (List Tree)}

mutual

theorem copy_alike (hR : Sequential R) (parameters parameters' : Option Parameters)
    (scope scope' : List Declaration) :
    (tree : Tree) →
    (∀ found, Meets setting tree found.pattern → Alike R (taken found) (taken' found)) →
    Alike R (copy setting taken parameters scope tree)
      (copy setting taken' parameters' scope' tree)
  | .text value, _ => Alike.pure hR _ _
  | .comment value, _ => Alike.pure hR _ _
  | .element name declarations attributes children, h => by
    rw [copy.eq_1, copy.eq_1]
    cases hleft : setting.leavesOut (.element name declarations attributes children) with
    | true => exact Alike.pure hR _ _
    | false =>
      cases hinstance : Setting.instanceOf? (.element name declarations attributes children) with
      | none =>
        refine Alike.bind hR ?_ fun _ _ => Alike.pure hR _ _
        exact copyAll_alike hR _ _ _ _ children fun found child hchild hmeets =>
          h found (.inside hleft hinstance hchild hmeets)
      | some patternName =>
        simp only
        cases hread : setting.readInstance patternName
            (.element name declarations attributes children) with
        | error d => exact Alike.throw hR d
        | ok found =>
          have hown : Alike R (copyOwn setting taken (declarations ++ scope) children)
              (copyOwn setting taken' (declarations ++ scope') children) :=
            copyOwn_alike hR _ _ children fun found child hchild hparam hmeets =>
              h found (.own hleft hinstance hchild hparam hmeets)
          have htaken : Alike R (taken found) (taken' found) :=
            h found (.taken hleft hinstance (Setting.pattern_of_readInstance hread))
          refine hown.bind hR fun own own' => htaken.bind hR fun content content' => ?_
          exact Alike.bind hR (fun _ _ => hR.completed) fun _ _ => Alike.pure hR _ _

theorem copyAll_alike (hR : Sequential R) (parameters parameters' : Option Parameters)
    (scope scope' : List Declaration) :
    (trees : List Tree) →
    (∀ found, ∀ tree ∈ trees, Meets setting tree found.pattern →
      Alike R (taken found) (taken' found)) →
    Alike R (copyAll setting taken parameters scope trees)
      (copyAll setting taken' parameters' scope' trees)
  | [], _ => Alike.pure hR _ _
  | tree :: rest, h => by
    have htree := copy_alike hR parameters parameters' scope scope' tree fun found =>
      h found tree List.mem_cons_self
    have hrest := copyAll_alike hR parameters parameters' scope scope' rest
      fun found other hother => h found other (List.mem_cons_of_mem _ hother)
    exact htree.bind hR fun _ _ => hrest.bind hR fun _ _ => Alike.pure hR _ _

theorem copyOwn_alike (hR : Sequential R) (scope scope' : List Declaration) :
    (trees : List Tree) →
    (∀ found, ∀ tree ∈ trees, tree.isSchemaElement "param" = false →
      Meets setting tree found.pattern → Alike R (taken found) (taken' found)) →
    Alike R (copyOwn setting taken scope trees) (copyOwn setting taken' scope' trees)
  | [], _ => Alike.pure hR _ _
  | tree :: rest, h => by
    have hrest := copyOwn_alike hR scope scope' rest
      fun found other hother => h found other (List.mem_cons_of_mem _ hother)
    rw [copyOwn.eq_2, copyOwn.eq_2]
    cases hparam : tree.isSchemaElement "param" with
    | true =>
      refine (Alike.pure hR [] []).bind hR fun _ _ => ?_
      exact hrest.bind hR fun _ _ => Alike.pure hR _ _
    | false =>
      have htree := copy_alike hR none none scope scope' tree fun found =>
        h found tree List.mem_cons_self hparam
      exact htree.bind hR fun _ _ => hrest.bind hR fun _ _ => Alike.pure hR _ _

end

end Copy

/-! ## Patterns

The parameters of an instance do not change how its pattern unfolds, so that is a matter of the
pattern and the depth.
-/

theorem Sequential.eq : Sequential Eq where
  completed := rfl
  stopped _ := rfl
  andThen := by
    rintro a _ a' _ rfl rfl
    rfl

/-- How the unfolding of a pattern to a depth ends. -/
def Setting.patternEnding (setting : Setting) (depth : Nat) (pattern : AbstractPattern) :
    Option StageFault :=
  ending (unfold setting depth ⟨"", pattern, []⟩) []

theorem unfold_alike (depth : Nat) {found found' : Instance}
    (h : found.pattern = found'.pattern) :
    Alike Eq (unfold setting depth found) (unfold setting depth found') := by
  induction depth generalizing found found' with
  | zero => exact fun _ _ => rfl
  | succ depth ih =>
      unfold unfold
      rw [h]
      exact copyAll_alike .eq _ _ _ _ _ fun _ _ _ _ => ih rfl

theorem ending_unfold (depth : Nat) (found : Instance) (done : List Instance) :
    ending (unfold setting depth found) done = setting.patternEnding depth found.pattern :=
  unfold_alike depth (by rfl) done []

/-- A copy ends alike at two depths if all patterns do. -/
theorem ending_copyAll_congr {depth depth' : Nat}
    (h : ∀ pattern ∈ setting.abstracts,
      setting.patternEnding depth pattern = setting.patternEnding depth' pattern)
    (parameters parameters' : Option Parameters) (scope scope' : List Declaration)
    (trees : List Tree) (done done' : List Instance) :
    ending (copyAll setting (unfold setting depth) parameters scope trees) done =
      ending (copyAll setting (unfold setting depth') parameters' scope' trees) done' := by
  refine copyAll_alike .eq _ _ _ _ _ (fun found tree _ hmeets done done' => ?_) done done'
  rw [ending_unfold, ending_unfold]
  exact h found.pattern hmeets.mem

/-! ## Depths -/

/-- The first gives what the second does unless it does not come to an end. -/
def Approximates (m n : Expansion α) : Prop :=
  ∀ done, m.run done = .error .endless ∨ m.run done = n.run done

theorem Approximates.refl (m : Expansion α) : Approximates m m := fun _ => .inr rfl

theorem Approximates.bind {β : Type} {m n : Expansion α} {f g : α → Expansion β}
    (hm : Approximates m n) (hf : ∀ x, Approximates (f x) (g x)) :
    Approximates (m >>= f) (n >>= g) := by
  intro done
  rw [StateT.run_bind, StateT.run_bind]
  rcases hm done with hend | heq
  · rw [hend]
    exact .inl rfl
  · rw [← heq]
    cases m.run done with
    | error fault => exact .inr rfl
    | ok x => exact hf x.1 x.2

section Copy

variable {taken taken' : Instance → Expansion (List Tree)}

mutual

theorem copy_approximates (h : ∀ found, Approximates (taken found) (taken' found))
    (parameters : Option Parameters) (scope : List Declaration) :
    (tree : Tree) →
    Approximates (copy setting taken parameters scope tree)
      (copy setting taken' parameters scope tree)
  | .text value => .refl _
  | .comment value => .refl _
  | .element name declarations attributes children => by
    rw [copy.eq_1, copy.eq_1]
    cases setting.leavesOut (.element name declarations attributes children) with
    | true => exact .refl _
    | false =>
      cases Setting.instanceOf? (.element name declarations attributes children) with
      | none => exact (copyAll_approximates h _ _ children).bind fun _ => .refl _
      | some patternName =>
        cases hread : setting.readInstance patternName
            (.element name declarations attributes children) with
        | error d => simpa only [hread] using Approximates.refl _
        | ok found =>
          simp only [hread]
          refine (copyOwn_approximates h _ children).bind fun own => ?_
          exact (h found).bind fun content => .refl _

theorem copyAll_approximates (h : ∀ found, Approximates (taken found) (taken' found))
    (parameters : Option Parameters) (scope : List Declaration) :
    (trees : List Tree) →
    Approximates (copyAll setting taken parameters scope trees)
      (copyAll setting taken' parameters scope trees)
  | [] => .refl _
  | tree :: rest =>
    (copy_approximates h parameters scope tree).bind fun _ =>
      (copyAll_approximates h parameters scope rest).bind fun _ => .refl _

theorem copyOwn_approximates (h : ∀ found, Approximates (taken found) (taken' found))
    (scope : List Declaration) :
    (trees : List Tree) →
    Approximates (copyOwn setting taken scope trees) (copyOwn setting taken' scope trees)
  | [] => .refl _
  | tree :: rest => by
    have hrest := copyOwn_approximates h scope rest
    rw [copyOwn.eq_2, copyOwn.eq_2]
    cases tree.isSchemaElement "param" with
    | true => exact (Approximates.refl _).bind fun _ => hrest.bind fun _ => .refl _
    | false =>
      exact (copy_approximates h none scope tree).bind fun _ => hrest.bind fun _ => .refl _

end

end Copy

theorem unfold_approximates (setting : Setting) (depth : Nat) (found : Instance) :
    Approximates (unfold setting depth found) (unfold setting (depth + 1) found) := by
  induction depth generalizing found with
  | zero => exact fun _ => .inl rfl
  | succ depth ih => exact copyAll_approximates ih _ _ found.pattern.content

theorem patternEnding_deepens (setting : Setting) (depth : Nat) (pattern : AbstractPattern) :
    setting.patternEnding depth pattern = some .endless ∨
      setting.patternEnding depth pattern = setting.patternEnding (depth + 1) pattern := by
  unfold Setting.patternEnding ending
  rcases unfold_approximates setting depth ⟨"", pattern, []⟩ [] with hend | heq
  · exact .inl (by rw [hend])
  · exact .inr (by rw [heq])

/-- Going one deeper changes the ending of no pattern. -/
def Setting.Settled (setting : Setting) (depth : Nat) : Prop :=
  ∀ pattern ∈ setting.abstracts,
    setting.patternEnding (depth + 1) pattern = setting.patternEnding depth pattern

theorem Setting.Settled.succ {depth : Nat} (h : setting.Settled depth) :
    setting.Settled (depth + 1) :=
  fun pattern _ => ending_copyAll_congr h _ _ _ _ pattern.content [] []

theorem Setting.Settled.add {depth : Nat} (h : setting.Settled depth) (k : Nat) :
    setting.Settled (depth + k) := by
  induction k with
  | zero => exact h
  | succ k ih => exact ih.succ

/-- The patterns that do not come to an end within a depth. -/
def Setting.unended (setting : Setting) (depth : Nat) : List AbstractPattern :=
  setting.abstracts.filter fun pattern => setting.patternEnding depth pattern = some .endless

/-- Until the patterns are settled there are fewer of them that do not end, one deeper. -/
theorem settled_or_unended_lt (setting : Setting) (depth : Nat) :
    setting.Settled depth ∨
      (setting.unended (depth + 1)).length < (setting.unended depth).length := by
  have hsub : (setting.unended (depth + 1)).Sublist (setting.unended depth) := by
    refine List.monotone_filter_right _ fun pattern hpattern => ?_
    rcases patternEnding_deepens setting depth pattern with hended | hended
    · simpa using hended
    · simpa [hended] using hpattern
  rcases Nat.lt_or_ge (setting.unended (depth + 1)).length (setting.unended depth).length with
    hlt | hge
  · exact .inr hlt
  · have heq : setting.unended (depth + 1) = setting.unended depth := hsub.eq_of_length_le hge
    refine .inl fun pattern hmem => ?_
    rcases patternEnding_deepens setting depth pattern with hended | hended
    · have hin : pattern ∈ setting.unended (depth + 1) :=
        heq ▸ List.mem_filter.mpr ⟨hmem, by simpa using hended⟩
      rw [hended]
      simpa using (List.mem_filter.mp hin).2
    · exact hended.symm

/-- A depth of as many patterns as there are settles them. -/
theorem Setting.settled_length (setting : Setting) : setting.Settled setting.abstracts.length := by
  -- each depth that is not settled has left one more of the patterns behind
  have hcount : ∀ depth, (∀ k < depth, ¬ setting.Settled k) →
      (setting.unended depth).length + depth ≤ setting.abstracts.length := by
    intro depth
    induction depth with
    | zero => exact fun _ => List.length_filter_le _ _
    | succ depth ih =>
        intro hunsettled
        have hbelow := ih fun k hk => hunsettled k (Nat.lt_succ_of_lt hk)
        have hlt := (settled_or_unended_lt setting depth).resolve_left
          (hunsettled depth (Nat.lt_succ_self depth))
        omega
  obtain ⟨depth, hle, hsettled⟩ : ∃ depth ≤ setting.abstracts.length, setting.Settled depth := by
    by_contra hnone
    have := hcount (setting.abstracts.length + 1) fun k hk hsettled =>
      hnone ⟨k, Nat.le_of_lt_succ hk, hsettled⟩
    omega
  obtain ⟨k, hk⟩ := Nat.exists_eq_add_of_le hle
  exact hk ▸ hsettled.add k

theorem patternEnding_add {pattern : AbstractPattern} (hmem : pattern ∈ setting.abstracts)
    (k : Nat) :
    setting.patternEnding (setting.abstracts.length + k) pattern =
      setting.patternEnding setting.abstracts.length pattern := by
  induction k with
  | zero => rfl
  | succ k ih => rw [← ih]; exact setting.settled_length.add k pattern hmem

/-! ## Loops -/

theorem Sequential.ends : Sequential fun ended _ => ended ≠ some .endless where
  completed := nofun
  stopped _ := nofun
  andThen := by
    rintro a - a' - ha ha'
    cases a with
    | none => exact ha'
    | some fault => exact ha

/-- A copy without end comes upon a pattern without end. -/
theorem exists_meets_of_endless {depth : Nat} {parameters : Option Parameters}
    {scope : List Declaration} {trees : List Tree} {done : List Instance}
    (h : ending (copyAll setting (unfold setting depth) parameters scope trees) done =
      some .endless) :
    ∃ pattern, (∃ tree ∈ trees, Meets setting tree pattern) ∧
      setting.patternEnding depth pattern = some .endless := by
  by_contra hnone
  have hends : Alike (fun ended _ => ended ≠ some .endless)
      (copyAll setting (unfold setting depth) parameters scope trees)
      (copyAll setting (unfold setting depth) parameters scope trees) := by
    refine copyAll_alike .ends _ _ _ _ trees fun found tree htree hmeets done _ => ?_
    rw [ending_unfold]
    exact fun hendless => hnone ⟨found.pattern, ⟨tree, htree, hmeets⟩, hendless⟩
  exact hends done done h

/-- The content of a pattern without end holds an instance of another, or the same, such
pattern. -/
theorem exists_instantiates_of_endless {pattern : AbstractPattern}
    (hmem : pattern ∈ setting.abstracts)
    (h : setting.patternEnding setting.abstracts.length pattern = some .endless) :
    ∃ inner, setting.Instantiates pattern inner ∧
      setting.patternEnding setting.abstracts.length inner = some .endless := by
  rw [← patternEnding_add hmem 1] at h
  exact exists_meets_of_endless h

/-- From a pattern without end a loop of instances is reached. -/
theorem exists_loop {first : AbstractPattern} (hmem : first ∈ setting.abstracts)
    (h : setting.patternEnding setting.abstracts.length first = some .endless) :
    ∃ pattern, ReflTransGen setting.Instantiates first pattern ∧
      TransGen setting.Instantiates pattern pattern := by
  by_contra hnone
  -- without a loop the patterns that are reached are well-founded, as there are finitely many
  let Reached := {pattern // pattern ∈ setting.abstracts ∧
    ReflTransGen setting.Instantiates first pattern}
  let leadsTo (inner outer : Reached) : Prop := TransGen setting.Instantiates outer.1 inner.1
  have : Finite Reached := (setting.abstracts.finite_toSet.inter_of_left _).to_subtype
  have : IsTrans Reached leadsTo := ⟨fun _ _ _ h h' => h'.trans h⟩
  have : Std.Irrefl leadsTo := ⟨fun pattern hself => hnone ⟨pattern.1, pattern.2.2, hself⟩⟩
  have hfounded : WellFounded leadsTo := Finite.wellFounded_of_trans_of_irrefl leadsTo
  have hends : ∀ pattern : Reached,
      setting.patternEnding setting.abstracts.length pattern.1 ≠ some .endless := by
    intro pattern
    induction pattern using hfounded.induction with
    | _ pattern ih =>
        intro hendless
        obtain ⟨inner, hinner, hinnerEndless⟩ :=
          exists_instantiates_of_endless pattern.2.1 hendless
        have hreached := pattern.2.2.tail hinner
        exact ih ⟨inner, hinner.mem, hreached⟩ (.single hinner) hinnerEndless
  exact hends ⟨first, hmem, .refl⟩ h

/-! ## Expansions -/

/-- The trees with their instances expanded, in which patterns are unfolded to a depth. -/
def Setting.expansion (setting : Setting) (trees : List Tree) (depth : Nat) :
    Except StageFault (List Tree × List Instance) :=
  (copyAll setting (unfold setting depth) none [] trees).run []

theorem expansion_eq_endless {trees : List Tree} {depth : Nat} :
    setting.expansion trees depth = .error .endless ↔
      ending (copyAll setting (unfold setting depth) none [] trees) [] = some .endless := by
  unfold Setting.expansion ending
  cases (copyAll setting (unfold setting depth) none [] trees).run [] with
  | ok result => simp
  | error fault => simp

theorem expansion_deepens (setting : Setting) (trees : List Tree) (depth : Nat) :
    setting.expansion trees depth = .error .endless ∨
      setting.expansion trees depth = setting.expansion trees (depth + 1) :=
  copyAll_approximates (unfold_approximates setting depth) none [] trees []

/-- A depth of as many patterns as there are is enough for every schema: no greater depth gives
another expansion, and an expansion without end has none at any depth. -/
theorem expansion_add (setting : Setting) (trees : List Tree) (k : Nat) :
    setting.expansion trees (setting.abstracts.length + k) =
      setting.expansion trees setting.abstracts.length := by
  induction k with
  | zero => rfl
  | succ k ih =>
      rw [← ih]
      rcases expansion_deepens setting trees (setting.abstracts.length + k) with
        hend | heq
      · rw [hend, expansion_eq_endless, ← expansion_eq_endless.mp hend]
        exact ending_copyAll_congr (setting.settled_length.add k) _ _ _ _ trees [] []
      · exact heq.symm

theorem expansion_endless_of_le {trees : List Tree} {depth depth' : Nat} (hle : depth' ≤ depth)
    (h : setting.expansion trees depth = .error .endless) :
    setting.expansion trees depth' = .error .endless := by
  induction hle with
  | refl => exact h
  | step _ ih =>
      rename_i depth _
      rcases expansion_deepens setting trees depth with hend | heq
      · exact ih hend
      · exact ih (heq.trans h)

/-- The expansion of the trees has no end, however deep patterns are unfolded: an instance in them
leads to a pattern whose content leads back to it. -/
structure Setting.Endless (setting : Setting) (trees : List Tree) : Prop where
  everyDepth (depth : Nat) : setting.expansion trees depth = .error .endless
  loop : ∃ first pattern, (∃ tree ∈ trees, Meets setting tree first) ∧
    ReflTransGen setting.Instantiates first pattern ∧
    TransGen setting.Instantiates pattern pattern

theorem endless_of_expansion {trees : List Tree}
    (h : setting.expansion trees setting.abstracts.length = .error .endless) :
    setting.Endless trees where
  everyDepth depth := by
    refine expansion_endless_of_le (Nat.le_add_left depth setting.abstracts.length) ?_
    rw [expansion_add]
    exact h
  loop := by
    obtain ⟨first, ⟨tree, htree, hmeets⟩, hendless⟩ :=
      exists_meets_of_endless (expansion_eq_endless.mp h)
    obtain ⟨pattern, hreached, hloop⟩ := exists_loop hmeets.mem hendless
    exact ⟨first, pattern, ⟨tree, htree, hmeets⟩, hreached, hloop⟩

/-- Adding warnings keeps those there are, and always completes. -/
theorem run_warnings (messages : List String) (sink : Sink) :
    (messages.forM StageRun.warn).run sink = .ok ((), ⟨sink.warnings ++ messages⟩) := by
  induction messages generalizing sink with
  | nil => rw [List.append_nil]; rfl
  | cons message rest ih =>
      refine (ih (sink.warn message)).trans ?_
      rw [Sink.warn, List.append_assoc]
      rfl

theorem warnings_complete (messages : List String) (sink : Sink) :
    ∃ sink', (messages.forM StageRun.warn).run sink = .ok ((), sink') :=
  ⟨_, run_warnings messages sink⟩

/-- The schema is expanded as far as there are abstract patterns, and then only warnings are
added. -/
theorem run_expandAbstractions {options : AbstractionOptions} {schema : Document}
    (hsetting : settingOf options schema = .ok setting) (sink : Sink) :
    (expandAbstractions options schema).run sink =
      setting.expansion schema.forest setting.abstracts.length >>= fun (trees, instances) =>
        ((instances.flatMap setting.instanceWarnings ++ setting.unusedWarnings instances).forM
          StageRun.warn >>= fun _ => pure (Document.ofForest trees)).run sink := by
  simp only [expandAbstractions, hsetting, StageRun.ofExcept, pure_bind, StateT.run_bind]
  unfold Setting.expansion
  cases (copyAll setting (unfold setting setting.abstracts.length) none []
    schema.forest).run [] with
  | ok result => rfl
  | error fault => rfl

/-- The expansion of a schema gives a document or ends with a diagnostic, except on schemas whose
instances lead back to the pattern they stand in, where it has no end. -/
theorem expandAbstractions_outcome (options : AbstractionOptions) (schema : Document)
    (sink : Sink) :
    (∃ doc sink', (expandAbstractions options schema).run sink = .ok (doc, sink')) ∨
    (∃ d, (expandAbstractions options schema).run sink = .error (.diagnostic d)) ∨
    (expandAbstractions options schema).run sink = .error .endless ∧
      ∃ setting, settingOf options schema = .ok setting ∧ setting.Endless schema.forest := by
  cases hsetting : settingOf options schema with
  | error d =>
      refine .inr (.inl ⟨d, ?_⟩)
      unfold expandAbstractions
      rw [hsetting]
      rfl
  | ok setting =>
      rw [run_expandAbstractions hsetting]
      cases hexpansion : setting.expansion schema.forest setting.abstracts.length with
      | ok result =>
          obtain ⟨trees, instances⟩ := result
          obtain ⟨sink', hwarn⟩ := warnings_complete
            (instances.flatMap setting.instanceWarnings ++ setting.unusedWarnings instances) sink
          refine .inl ⟨Document.ofForest trees, sink', ?_⟩
          refine bind_eq_ok.mpr ⟨(trees, instances), rfl, ?_⟩
          simp only [StateT.run_bind]
          exact bind_eq_ok.mpr ⟨((), sink'), hwarn, rfl⟩
      | error fault =>
          cases fault with
          | diagnostic d => exact .inr (.inl ⟨d, rfl⟩)
          | endless => exact .inr (.inr ⟨rfl, setting, rfl, endless_of_expansion hexpansion⟩)

/-- An abstract pattern that holds an instance of itself, and an instance of that. -/
def loopSource : String :=
  "<schema xmlns='http://purl.oclc.org/dsdl/schematron'>" ++
    "<pattern abstract='true' id='a'><pattern is-a='a'/></pattern>" ++
    "<pattern is-a='a'/></schema>"

/-- That schema has neither an expansion nor a diagnostic: no depth is enough for it. -/
theorem expandAbstractions_loopSource : ∃ schema setting,
    Document.parse loopSource = .ok schema ∧ settingOf {} schema = .ok setting ∧
    (∀ depth, setting.expansion schema.forest depth = .error .endless) ∧
    ∀ sink, (expandAbstractions {} schema).run sink = .error .endless := by
  have hends : (do
      let schema ← (Document.parse loopSource).toOption
      let setting ← (settingOf {} schema).toOption
      pure (ending (copyAll setting (unfold setting setting.abstracts.length) none []
        schema.forest) [])) = some (some .endless) := by decide +kernel
  cases hschema : Document.parse loopSource with
  | error fault => simp [hschema, Except.toOption] at hends
  | ok schema =>
      cases hsetting : settingOf {} schema with
      | error d => simp [hschema, hsetting, Except.toOption] at hends
      | ok setting =>
          have hexpansion : setting.expansion schema.forest setting.abstracts.length =
              .error .endless := by
            rw [expansion_eq_endless]
            simpa [hschema, hsetting, Except.toOption] using hends
          refine ⟨schema, setting, rfl, hsetting, (endless_of_expansion hexpansion).everyDepth, ?_⟩
          intro sink
          rw [run_expandAbstractions hsetting, hexpansion]
          rfl

end Schematron.Schema.Abstraction

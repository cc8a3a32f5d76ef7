import Schematron.Proofs.Xml.Building
import Schematron.Proofs.Xml.Layout

/-!
# Content that is made one

Text appended after text makes one text of both (`appendText_appendText`), and an attribute whose
expanded name is there already gives that one its value (`putAttribute`). A document that is built
piece by piece is therefore one onto which trees were grafted that have all this behind them
(`graftAll_extendWith`, `opened_putAttributes`).
-/

namespace Schematron.Xml

theorem Name.sameExpanded_iff {a b : Name} :
    a.sameExpanded b = true ↔ a.localPart = b.localPart ∧ a.uri = b.uri := by
  simp [sameExpanded]

namespace Tree

/-! ## Attributes -/

/-- The attributes after one more was set: the first of its expanded name takes the value. -/
def putAttribute : List (Name × String) → Name × String → List (Name × String)
  | [], a => [a]
  | other :: rest, a =>
    if other.1.sameExpanded a.1 then (other.1, a.2) :: rest else other :: putAttribute rest a

/-- The attributes after some more were set, one after the other. -/
def putAttributes (done attributes : List (Name × String)) : List (Name × String) :=
  attributes.foldl putAttribute done

/-- Either the attribute is a new one, or it gives its value to one that is there. -/
theorem putAttribute_cases (done : List (Name × String)) (a : Name × String) :
    ((∀ other ∈ done, other.1.sameExpanded a.1 = false) ∧ putAttribute done a = done ++ [a]) ∨
      ∃ before other after, done = before ++ other :: after ∧
        (∀ earlier ∈ before, earlier.1.sameExpanded a.1 = false) ∧
          other.1.sameExpanded a.1 = true ∧
            putAttribute done a = before ++ (other.1, a.2) :: after := by
  induction done with
  | nil => exact .inl ⟨by simp, rfl⟩
  | cons first rest ih =>
      cases hsame : first.1.sameExpanded a.1 with
      | true => exact .inr ⟨[], first, rest, rfl, by simp, hsame, by simp [putAttribute, hsame]⟩
      | false =>
          rcases ih with ⟨hnew, hput⟩ | ⟨before, other, after, rfl, hbefore, hother, hput⟩
          · exact .inl ⟨by simpa [hsame] using hnew, by simp [putAttribute, hsame, hput]⟩
          · exact .inr ⟨first :: before, other, after, rfl, by simpa [hsame] using hbefore, hother,
              by simp [putAttribute, hsame, hput]⟩

theorem putAttribute_of_new {done : List (Name × String)} {a : Name × String}
    (h : ∀ other ∈ done, other.1.sameExpanded a.1 = false) :
    putAttribute done a = done ++ [a] := by
  rcases putAttribute_cases done a with ⟨-, hput⟩ | ⟨before, other, after, rfl, -, hsame, -⟩
  · exact hput
  · rw [h other (List.mem_append_right _ List.mem_cons_self)] at hsame
    cases hsame

/-- Attributes of distinct names are set as they are. -/
theorem putAttributes_of_distinct {done attributes : List (Name × String)}
    (h : (done ++ attributes).Pairwise fun a b => a.1.sameExpanded b.1 = false) :
    putAttributes done attributes = done ++ attributes := by
  induction attributes generalizing done with
  | nil => exact (List.append_nil done).symm
  | cons a rest ih =>
      have hnew : ∀ other ∈ done, other.1.sameExpanded a.1 = false := fun other hother =>
        (List.pairwise_append.mp h).2.2 other hother a List.mem_cons_self
      rw [List.append_cons] at h ⊢
      rw [← ih h, putAttributes, putAttributes, List.foldl_cons, putAttribute_of_new hnew]

/-- The names stay, but for a new one at the end. -/
theorem map_fst_putAttribute (done : List (Name × String)) (a : Name × String) :
    (putAttribute done a).map (·.1) = done.map (·.1) ∨
      (∀ other ∈ done, other.1.sameExpanded a.1 = false) ∧
        (putAttribute done a).map (·.1) = done.map (·.1) ++ [a.1] := by
  rcases putAttribute_cases done a with ⟨hnew, hput⟩ | ⟨before, other, after, rfl, -, -, hput⟩
  · exact .inr ⟨hnew, by simp [hput]⟩
  · exact .inl (by simp [hput])

/-- The names of attributes that were set are the names that were given. -/
theorem forall_putAttributes {P : Name → Prop} {done attributes : List (Name × String)}
    (hdone : ∀ a ∈ done, P a.1) (hattributes : ∀ a ∈ attributes, P a.1) :
    ∀ a ∈ putAttributes done attributes, P a.1 := by
  induction attributes generalizing done with
  | nil => exact hdone
  | cons a rest ih =>
      refine ih (fun b hb => ?_) fun b hb => hattributes b (List.mem_cons_of_mem _ hb)
      have hname := List.mem_map_of_mem (f := Prod.fst) hb
      have hold : b.1 ∈ done.map (·.1) → P b.1 := by
        intro hmem
        obtain ⟨c, hc, hcb⟩ := List.mem_map.mp hmem
        exact hcb ▸ hdone c hc
      rcases map_fst_putAttribute done a with heq | ⟨-, heq⟩
      · exact hold (heq ▸ hname)
      · rcases List.mem_append.mp (heq ▸ hname) with hmem | hmem
        · exact hold hmem
        · exact List.mem_singleton.mp hmem ▸ hattributes a List.mem_cons_self

/-- Attributes that were set have expanded names of their own. -/
theorem pairwise_putAttributes {done : List (Name × String)} (attributes : List (Name × String))
    (hdone : done.Pairwise fun a b => a.1.sameExpanded b.1 = false) :
    (putAttributes done attributes).Pairwise fun a b => a.1.sameExpanded b.1 = false := by
  have hnames {xs : List (Name × String)} :
      (xs.Pairwise fun a b => a.1.sameExpanded b.1 = false) ↔
        (xs.map (·.1)).Pairwise fun a b => a.sameExpanded b = false := by rw [List.pairwise_map]
  induction attributes generalizing done with
  | nil => exact hdone
  | cons a rest ih =>
      refine ih ?_
      rw [hnames] at hdone ⊢
      rcases map_fst_putAttribute done a with heq | ⟨hnew, heq⟩
      · exact heq ▸ hdone
      · rw [heq, List.pairwise_append]
        refine ⟨hdone, List.pairwise_singleton _ _, fun b hb c hc => ?_⟩
        obtain ⟨other, hother, rfl⟩ := List.mem_map.mp hb
        exact List.mem_singleton.mp hc ▸ hnew other hother

/-! ## Texts -/

/-- The trees after more text at their end. -/
def extendWith (trees : List Tree) (more : String) : List Tree :=
  if more.isEmpty then trees
  else
    match trees.getLast? with
    | some (.text value) => trees.dropLast ++ [.text (value ++ more)]
    | _ => trees ++ [.text more]

end Tree

namespace Document

open Xml.Tree

variable {doc : Document} {parent : NodeId}

theorem ext_nodes {doc doc' : Document} (h : doc.nodes.toList = doc'.nodes.toList) :
    doc = doc' := by
  cases doc
  cases doc'
  exact congrArg Document.mk (Array.toList_inj.mp h)

/-! ## Setting attributes -/

/-- Setting an attribute on an element whose attributes stand right after it. -/
theorem putAttribute_nodes {before : List Node} {n : Node} {done : List (Name × String)}
    {a : Name × String}
    (h : doc.nodes.toList = before ++ n :: done.map (attributeNode before.length))
    (hids : n.attributes = (List.range' (before.length + 1) done.length).toArray) :
    (doc.setAttribute before.length a.1 a.2).2.nodes.toList =
      before ++ { n with attributes :=
          (List.range' (before.length + 1) (putAttribute done a).length).toArray } ::
        (putAttribute done a).map (attributeNode before.length) := by
  rcases putAttribute_cases done a with
    ⟨hnew, hput⟩ | ⟨earlier, other, later, rfl, hearlier, hsame, hput⟩
  · rw [hput]
    exact setAttribute_nodes h hids hnew
  · have hkind : ∀ i (hi : i < (earlier ++ other :: later).length),
        doc.kind (before.length + 1 + i) =
          .attribute (earlier ++ other :: later)[i].1 (earlier ++ other :: later)[i].2 := by
      intro i hi
      rw [kind, node_eq, h, List.getElem?_append_right (by omega)]
      simp only [Nat.add_assoc, Nat.add_sub_cancel_left, Nat.add_comm 1 i, List.getElem?_cons_succ,
        List.getElem?_map, List.getElem?_eq_getElem hi]
      rfl
    have hother := hkind earlier.length (by simp)
    simp only [List.getElem_append_right (Nat.le_refl _), Nat.sub_self, List.getElem_cons_zero]
      at hother
    have hfind : doc.findAttribute? before.length a.1 =
        some (before.length + 1 + earlier.length) := by
      rw [findAttribute?, attributes, node_of_nodes h, hids, List.find?_eq_some_iff_append]
      refine ⟨by rw [hother]; exact hsame, List.range' (before.length + 1) earlier.length,
        List.range' (before.length + 1 + earlier.length + 1) later.length, ?_, fun id hid => ?_⟩
      · rw [← List.range'_succ, List.range'_append_1, List.length_append, List.length_cons]
      · obtain ⟨i, hi, rfl⟩ := List.mem_range'.mp hid
        rw [Nat.one_mul, hkind i (by simp; omega), List.getElem_append_left hi]
        simp [hearlier _ (List.getElem_mem hi)]
    rw [List.map_append, List.map_cons, ← List.cons_append, ← List.append_assoc] at h
    have hset : (doc.setKind _ (.attribute other.1 a.2)).nodes.toList = _ := setKind_nodes h
    simp only [List.length_append, List.length_cons, List.length_map] at hset
    have hindex : before.length + 1 + earlier.length = before.length + (earlier.length + 1) := by
      omega
    -- the element keeps its list of attributes
    have hnode : { n with attributes := (List.range' (before.length + 1)
        (earlier ++ (other.1, a.2) :: later).length).toArray } = n := by
      rw [List.length_append, List.length_cons, ← List.length_cons (a := other),
        ← List.length_append, ← hids]
    rw [setAttribute, hfind, hput, hnode]
    dsimp only
    rw [hother]
    dsimp only
    rw [hindex, hset]
    simp [attributeNode]

theorem putAttributes_nodes {before : List Node} {n : Node} {done : List (Name × String)}
    {attributes : List (Name × String)}
    (h : doc.nodes.toList = before ++ n :: done.map (attributeNode before.length))
    (hids : n.attributes = (List.range' (before.length + 1) done.length).toArray) :
    (doc.setAttributes before.length attributes).nodes.toList =
      before ++ { n with attributes :=
          (List.range' (before.length + 1) (putAttributes done attributes).length).toArray } ::
        (putAttributes done attributes).map (attributeNode before.length) := by
  induction attributes generalizing doc n done with
  | nil =>
      rw [putAttributes, List.foldl_nil, ← hids]
      exact h
  | cons a rest ih =>
      have hstep := ih (putAttribute_nodes (a := a) h hids) rfl
      exact hstep

/-- An element has the attributes that are left after all were set. -/
theorem opened_putAttributes (hparent : parent < doc.size) (name : Name)
    {declarations : List Declaration} (attributes : List (Name × String))
    (hdeclarations : declarations.Pairwise (fun a b => a.pre ≠ b.pre)) :
    opened doc parent name declarations attributes =
      opened doc parent name declarations (putAttributes [] attributes) := by
  have hnone := opened_nodes doc hparent name hdeclarations
    (List.Pairwise.nil (R := fun a b : Name × String => a.1.sameExpanded b.1 = false))
  have hall := opened_nodes doc hparent name hdeclarations
    (pairwise_putAttributes attributes List.Pairwise.nil)
  have hlength : (doc.nodes.toList.modify parent (addChildren [doc.size])).length = doc.size := by
    rw [List.length_modify]
    rfl
  have hsplit : opened doc parent name declarations attributes =
      (opened doc parent name declarations []).setAttributes doc.size attributes := rfl
  refine ext_nodes (Eq.trans ?_ hall.symm)
  rw [hsplit]
  generalize doc.nodes.toList.modify parent (addChildren [doc.size]) = before at hnone hlength ⊢
  rw [← hlength] at hnone ⊢
  exact @putAttributes_nodes _ _ _ [] _ hnone rfl

/-! ## Appending text -/

theorem setKind_setKind (id : NodeId) (kind kind' : NodeKind) :
    (doc.setKind id kind).setKind id kind' = doc.setKind id kind' := by
  refine ext_nodes ?_
  simp only [setKind, Array.toList_modify, List.modify_modify_eq]
  rfl

/-- Text goes to the last child if that is a text, and becomes a new child otherwise. -/
theorem appendText_cases (doc : Document) (parent : NodeId) :
    (∃ last before, (doc.node parent).children.back? = some last ∧
        doc.kind last = .text before ∧ ∀ text : String, text.isEmpty = false →
          (doc.appendText parent text).2 = doc.setKind last (.text (before ++ text))) ∨
      ∀ text : String, text.isEmpty = false →
        (doc.appendText parent text).2 = (doc.pushChild parent (.text text)).2 := by
  cases hback : (doc.node parent).children.back? with
  | none => exact .inr fun text htext => by simp [appendText, htext, hback]
  | some last =>
      cases hkind : doc.kind last with
      | text before =>
          exact .inl ⟨last, before, rfl, hkind, fun text htext => by
            simp [appendText, htext, hback, hkind]⟩
      | _ => exact .inr fun text htext => by simp [appendText, htext, hback, hkind]

/-- Text that is appended to a text which was just pushed. -/
theorem appendText_pushChild (hparent : parent < doc.size) {value more : String}
    (hmore : more.isEmpty = false) :
    ((doc.pushChild parent (.text value)).2.appendText parent more).2 =
      (doc.pushChild parent (.text (value ++ more))).2 := by
  have hp : parent < doc.nodes.toList.length := hparent
  have hnodes (text : String) := pushChild_nodes doc (.text text) hparent
  have hlength : (doc.nodes.toList.modify parent (addChildren [doc.size])).length = doc.size := by
    rw [List.length_modify]
    rfl
  have hback : ((doc.pushChild parent (.text value)).2.node parent).children.back? =
      some doc.size := by
    rw [node_eq, hnodes, List.getElem?_append_left (by rw [List.length_modify]; exact hp),
      List.getElem?_modify_eq, List.getElem?_eq_getElem hp]
    simp [addChildren]
  have hkind : (doc.pushChild parent (.text value)).2.kind doc.size = .text value := by
    have hnode := node_of_nodes (hnodes value)
    rw [hlength] at hnode
    rw [kind, hnode]
  have hset : (Document.setKind _ _ (.text (value ++ more))).nodes.toList = _ :=
    setKind_nodes (hnodes value)
  rw [hlength] at hset
  rw [appendText, if_neg (by simp [hmore]), hback]
  dsimp only
  rw [hkind]
  exact ext_nodes (hset.trans (hnodes _).symm)

/-- Text that is appended to a text which just took some. -/
theorem appendText_setKind {last : NodeId} {before value more : String}
    (hback : (doc.node parent).children.back? = some last) (hkind : doc.kind last = .text before)
    (hmore : more.isEmpty = false) :
    ((doc.setKind last (.text value)).appendText parent more).2 =
      doc.setKind last (.text (value ++ more)) := by
  have hlast : last < doc.size := lt_size_of_kind hkind (by simp)
  have hback' : ((doc.setKind last (.text value)).node parent).children.back? = some last := by
    rw [node_setKind _ _ _ hlast]
    split <;> exact hback
  rw [appendText, if_neg (by simp [hmore]), hback']
  dsimp only
  rw [kind_setKind _ _ _ hlast, if_pos rfl]
  exact setKind_setKind _ _ _

theorem appendText_appendText (hparent : parent < doc.size) (value more : String) :
    ((doc.appendText parent value).2.appendText parent more).2 =
      (doc.appendText parent (value ++ more)).2 := by
  have hnothing (doc : Document) (text : String) (htext : text.isEmpty = true) :
      (doc.appendText parent text).2 = doc := by
    rw [appendText, if_pos htext]
  cases hmore : more.isEmpty with
  | true =>
      obtain rfl : more = "" := by simpa using hmore
      rw [hnothing _ _ hmore, String.append_empty]
  | false =>
      cases hvalue : value.isEmpty with
      | true =>
          obtain rfl : value = "" := by simpa using hvalue
          rw [hnothing _ _ hvalue, String.empty_append]
      | false =>
          have hboth : (value ++ more).isEmpty = false := by simp_all
          rcases appendText_cases doc parent with ⟨last, before, hback, hkind, htext⟩ | hpush
          · rw [htext value hvalue, htext _ hboth, appendText_setKind hback hkind hmore,
              String.append_assoc]
          · rw [hpush value hvalue, hpush _ hboth, appendText_pushChild hparent hmore]

/-! ## Grafting -/

theorem size_le_setAttribute (doc : Document) (element : NodeId) (name : Name) (value : String) :
    doc.size ≤ (doc.setAttribute element name value).2.size := by
  cases hfind : doc.findAttribute? element name with
  | none =>
      rw [setAttribute_of_none hfind, size_pushListed]
      exact Nat.le_succ _
  | some id =>
      rw [setAttribute, hfind]
      dsimp only
      split
      · exact Nat.le_of_eq (size_setKind _ _).symm
      · exact Nat.le_refl _

theorem size_le_appendText (doc : Document) (parent : NodeId) (text : String) :
    doc.size ≤ (doc.appendText parent text).2.size := by
  by_cases htext : text.isEmpty = true
  · rw [appendText, if_pos htext]
  · have htext : text.isEmpty = false := by simpa using htext
    rcases appendText_cases doc parent with ⟨last, before, -, -, happend⟩ | happend
    · rw [happend text htext, size_setKind]
    · rw [happend text htext, pushChild_eq, size_pushListed]
      exact Nat.le_succ _

theorem size_le_foldl {α : Type} {f : Document → α → Document}
    (hf : ∀ doc x, doc.size ≤ (f doc x).size) (xs : List α) (doc : Document) :
    doc.size ≤ (xs.foldl f doc).size := by
  induction xs generalizing doc with
  | nil => exact Nat.le_refl _
  | cons x xs ih => exact Nat.le_trans (hf doc x) (ih (f doc x))

/-- An element that is opened is a node of the document. -/
theorem size_lt_opened (doc : Document) (parent : NodeId) (name : Name)
    (declarations : List Declaration) (attributes : List (Name × String)) :
    doc.size < (opened doc parent name declarations attributes).size := by
  have happend : doc.size < (doc.appendElement parent name).2.size := by
    rw [appendElement, pushChild_eq, size_pushListed]
    exact Nat.lt_succ_self _
  have hdeclare (doc' : Document) (d : Declaration) :
      doc'.size ≤ (doc'.declare doc.size d).size := by
    rw [declare]
    split
    · split
      · exact Nat.le_refl _
      · exact Nat.le_of_eq (size_setKind _ _).symm
    · exact Nat.le_refl _
  have hset (doc' : Document) (a : Name × String) :
      doc'.size ≤ (doc'.setAttribute doc.size a.1 a.2).2.size :=
    size_le_setAttribute doc' doc.size a.1 a.2
  unfold opened setAttributes
  calc doc.size
      < (doc.appendElement parent name).2.size := happend
    _ ≤ _ := size_le_foldl hdeclare declarations _
    _ ≤ _ := size_le_foldl hset attributes _

mutual

theorem size_le_graft (doc : Document) (parent : NodeId) :
    (tree : Tree) → doc.size ≤ (doc.graft parent tree).2.size
  | .element name declarations attributes children =>
      Nat.le_trans (Nat.le_of_lt (size_lt_opened doc parent name declarations attributes))
        (size_le_graftAll _ doc.size children)
  | .text value => size_le_appendText doc parent value
  | .comment value => by
      show doc.size ≤ (doc.pushChild parent (.comment value)).2.size
      rw [pushChild_eq, size_pushListed]
      exact Nat.le_succ _

theorem size_le_graftAll (doc : Document) (parent : NodeId) :
    (trees : List Tree) → doc.size ≤ (doc.graftAll parent trees).size
  | [] => Nat.le_refl _
  | tree :: rest =>
      Nat.le_trans (size_le_graft doc parent tree) (size_le_graftAll _ parent rest)

end

theorem graftAll_append (doc : Document) (parent : NodeId) (xs ys : List Tree) :
    doc.graftAll parent (xs ++ ys) = (doc.graftAll parent xs).graftAll parent ys := by
  induction xs generalizing doc with
  | nil => rfl
  | cons x xs ih => exact ih (doc.graft parent x).2

theorem graftAll_concat (doc : Document) (parent : NodeId) (trees : List Tree) (tree : Tree) :
    doc.graftAll parent (trees ++ [tree]) = ((doc.graftAll parent trees).graft parent tree).2 := by
  rw [graftAll_append]
  rfl

/-- Text at the end of what is grafted. -/
theorem graftAll_extendWith (hparent : parent < doc.size) (trees : List Tree) (more : String) :
    doc.graftAll parent (extendWith trees more) =
      ((doc.graftAll parent trees).appendText parent more).2 := by
  rw [extendWith]
  split
  · next hmore => rw [appendText, if_pos hmore]
  · split
    · next value hlast =>
        obtain ⟨init, rfl⟩ := List.getLast?_eq_some_iff.mp hlast
        have hinit := Nat.lt_of_lt_of_le hparent (size_le_graftAll doc parent init)
        rw [List.dropLast_concat, graftAll_concat, graftAll_concat]
        exact (appendText_appendText hinit value more).symm
    · rw [graftAll_concat]
      rfl

end Document

end Schematron.Xml

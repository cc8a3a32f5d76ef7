import Schematron.Proofs.Xml.Building
import Schematron.Proofs.XPath.LocationPath
import Schematron.Proofs.XPath.Selection
import Schematron.Regex.Builtin
import Schematron.Xml.Location

/-!
# Locations select nodes

The location of a node is the text of a path, so it compiles (`compile_locationText`). Evaluated
anywhere in the document, the path selects the node: by induction on the ancestors, each step of
it leads from a node to one of its children or attributes (`eval_stepTo`).
-/

namespace Schematron.XPath

open Xml Document

variable {doc : Document} {context : Context} {id parent : NodeId}

/-! ## The path to a node -/

/-- The step that leads to a node from its parent. -/
def stepTo? (doc : Document) (id : NodeId) : Option LocationStep :=
  match doc.kind id with
  | .document => none
  | .element name _ => some (.element name.localPart name.uri (doc.siblingPosition id))
  | .attribute name _ => some (.attribute name.localPart name.uri)
  | .text _ => some (.text (doc.siblingPosition id))
  | .comment _ => some (.comment (doc.siblingPosition id))

/-- The path to a node. -/
def pathTo (doc : Document) (id : NodeId) : List LocationStep :=
  ((id :: doc.ancestors id).filterMap (stepTo? doc)).reverse

theorem locationStep?_eq (doc : Document) (id : NodeId) :
    doc.locationStep? id = (stepTo? doc id).map LocationStep.written := by
  rw [locationStep?, stepTo?]
  cases doc.kind id with
  | element name | «attribute» name =>
      obtain ⟨pre, localPart, _ | uri⟩ := name <;> rfl
  | _ => rfl

theorem location_eq (doc : Document) (id : NodeId) :
    doc.location id = locationText (pathTo doc id) := by
  rw [location, locationText, pathTo, List.map_reverse, List.map_filterMap]
  have hstep : doc.locationStep? = fun id => (stepTo? doc id).map LocationStep.written :=
    funext (locationStep?_eq doc)
  rw [hstep]

theorem pathTo_root (h : Linked doc) : pathTo doc rootNode = [] := by
  rw [pathTo, Linked.ancestors_of_none h.parent?_root, List.filterMap_cons_none]
  · rfl
  · rw [stepTo?, h.kind_root]

theorem pathTo_of_parent (h : Linked doc) {s : LocationStep}
    (hparent : doc.parent? id = some parent) (hstep : stepTo? doc id = some s) :
    pathTo doc id = pathTo doc parent ++ [s] := by
  rw [pathTo, h.ancestors_of_parent hparent, List.filterMap_cons_some hstep, List.reverse_cons]
  rfl

/-! ## Steps -/

section

variable [Regex.Engine]

/-- The position of a node among the children of its kind selects it. -/
theorem select_siblingPosition (context : Context) (h : Linked doc)
    (hparent : doc.parent? id = some parent) (hattribute : (doc.kind id).isAttribute = false)
    (hsame : doc.sameKind id id = true) (hcount : (doc.children parent).length < 2 ^ 53) :
    select context [LocationStep.positionTest (doc.siblingPosition id)]
      ((doc.children parent).filter (doc.sameKind id)) = .ok [id] := by
  obtain ⟨before, after, hsplit⟩ :=
    List.append_of_mem ((h.mem_children parent id).mpr ⟨hparent, hattribute⟩)
  have hbefore : ∀ x ∈ before, (x != id) = true := by
    intro x hx
    have hnodup := h.nodup_children parent
    rw [hsplit] at hnodup
    rw [bne_iff_ne]
    rintro rfl
    exact (List.nodup_append.mp hnodup).2.2 x hx x List.mem_cons_self rfl
  have hposition : doc.siblingPosition id = (before.filter (doc.sameKind id)).length + 1 := by
    rw [siblingPosition, hparent]
    dsimp only
    rw [hsplit, List.takeWhile_append_of_pos hbefore, List.takeWhile_cons_of_neg (by simp),
      List.append_nil]
  -- the siblings of the kind that stand before the node are as many as its position counts
  rw [hposition, hsplit, List.filter_append, List.filter_cons_of_pos hsame]
  refine select_position ?_
  have hlength := List.length_filter_le (doc.sameKind id) (doc.children parent)
  rw [hsplit, List.filter_append, List.filter_cons_of_pos hsame] at hlength
  exact Nat.lt_of_le_of_lt hlength (hsplit ▸ hcount)

/-- What a function of names tells of a node is compared with a text. -/
theorem eval_comparisonTest {function : Function} (value : String) (id : NodeId)
    (position size : Nat) (hfunction : function = .localName ∨ function = .namespaceUri) :
    (LocationStep.comparisonTest function value).eval (context.at id position size) =
      .ok (.boolean ((context.doc.name? id).elim "" (function.nameText ·) == value)) := by
  rcases hfunction with rfl | rfl
  · rfl
  · rfl

omit [Regex.Engine] in
/-- A namespace that is not empty is told apart by its text. -/
theorem uri_beq {uri : String} (huri : uri ≠ "") (other : Option String) :
    (other.getD "" == uri) = (some uri == other) := by
  cases other with
  | none => simpa using Ne.symm huri
  | some other => simp [eq_comm]

/-- A step that keeps the children of the kind of a node leads to the node by its position among
them. -/
theorem eval_positionStep (h : Linked doc) (hdoc : context.doc = doc) {test : NodeTest}
    (hparent : doc.parent? id = some parent) (hattribute : (doc.kind id).isAttribute = false)
    (hsame : doc.sameKind id id = true) (hcount : (doc.children parent).length < 2 ^ 53)
    (htest : ∀ x, test.accepts doc .child x = doc.sameKind id x) :
    (Step.mk .child test [LocationStep.positionTest (doc.siblingPosition id)]).eval context parent =
      .ok [id] := by
  have hfilter : (doc.children parent).filter (test.accepts doc .child ·) =
      (doc.children parent).filter (doc.sameKind id) :=
    List.filter_congr fun x _ => htest x
  have hselect := select_siblingPosition context h hparent hattribute hsame hcount
  subst hdoc
  rw [← hfilter] at hselect
  exact hselect

theorem eval_elementStep (h : Linked doc) (hdoc : context.doc = doc) {name : Name}
    {declarations : List Declaration} (hresolved : name.Resolved)
    (hcount : (doc.children parent).length < 2 ^ 53) (hparent : doc.parent? id = some parent)
    (hkind : doc.kind id = .element name declarations) :
    (LocationStep.element name.localPart name.uri (doc.siblingPosition id)).step.eval context
      parent = .ok [id] := by
  have hattribute : (doc.kind id).isAttribute = false := by
    rw [hkind]
    rfl
  have hsame : doc.sameKind id id = true := by simp [sameKind, hkind, Name.sameExpanded]
  obtain ⟨pre, localPart, _ | uri⟩ := name
  · refine eval_positionStep h hdoc hparent hattribute hsame hcount fun x => ?_
    rw [NodeTest.accepts, sameKind, hkind]
    unfold Axis.principalName?
    cases doc.kind x with
    | element other => exact Name.sameExpanded_comm other ⟨pre, localPart, none⟩
    | _ => rfl
  · have huri : uri ≠ "" := fun huri => hresolved (congrArg some huri)
    -- the name test leaves the elements of the local name, and the predicate those of the name
    have hfilter : ((doc.children parent).filter
        (NodeTest.accepts doc .child · (.anyNamespace localPart))).filter
          (fun x => (doc.name? x).elim "" (Function.namespaceUri.nameText ·) == uri) =
            (doc.children parent).filter (doc.sameKind id) := by
      rw [List.filter_filter]
      refine List.filter_congr fun x _ => ?_
      rw [NodeTest.accepts, sameKind, hkind, name?]
      unfold Axis.principalName?
      cases doc.kind x with
      | element other =>
          show ((other.uri.getD "" == uri) && (other.localPart == localPart)) = _
          rw [uri_beq huri, Bool.and_comm, BEq.comm]
          rfl
      | _ => simp
    have hselect := select_siblingPosition context h hparent hattribute hsame hcount
    subst hdoc
    rw [← hfilter] at hselect
    rw [LocationStep.step, Step.eval, select_test fun x _ position size =>
      eval_comparisonTest uri x position size (.inr rfl)]
    exact hselect

theorem eval_textStep (h : Linked doc) (hdoc : context.doc = doc) {value : String}
    (hcount : (doc.children parent).length < 2 ^ 53) (hparent : doc.parent? id = some parent)
    (hkind : doc.kind id = .text value) :
    (LocationStep.text (doc.siblingPosition id)).step.eval context parent = .ok [id] := by
  refine eval_positionStep h hdoc hparent ?_ ?_ hcount fun x => ?_
  · rw [hkind]
    rfl
  · simp [sameKind, hkind]
  · rw [NodeTest.accepts, sameKind, hkind, isText]
    cases doc.kind x <;> rfl

theorem eval_commentStep (h : Linked doc) (hdoc : context.doc = doc) {value : String}
    (hcount : (doc.children parent).length < 2 ^ 53) (hparent : doc.parent? id = some parent)
    (hkind : doc.kind id = .comment value) :
    (LocationStep.comment (doc.siblingPosition id)).step.eval context parent = .ok [id] := by
  refine eval_positionStep h hdoc hparent ?_ ?_ hcount fun x => ?_
  · rw [hkind]
    rfl
  · simp [sameKind, hkind]
  · rw [NodeTest.accepts, sameKind, hkind, isComment]
    cases doc.kind x <;> rfl

omit [Regex.Engine] in
theorem filter_eq_singleton {xs : List NodeId} {p : NodeId → Bool} (hnodup : xs.Nodup)
    (hid : id ∈ xs) (h : ∀ x ∈ xs, p x = true ↔ x = id) : xs.filter p = [id] := by
  have hfilter : xs.filter p = xs.filter (· == id) :=
    List.filter_congr fun x hx => by rw [Bool.eq_iff_iff, h x hx, beq_iff_eq]
  rw [hfilter, List.filter_beq, List.count_eq_one_of_mem hnodup hid]
  rfl

omit [Regex.Engine] in
/-- An attribute is told from the others of its element by its expanded name. -/
theorem filter_attributes (h : Linked doc) (hapart : AttributesApart doc) {name : Name}
    {value : String} (hparent : doc.parent? id = some parent)
    (hkind : doc.kind id = .attribute name value) :
    (doc.attributes parent).filter (fun x => (doc.name? x).any name.sameExpanded) = [id] := by
  have hid : id ∈ doc.attributes parent :=
    (h.mem_attributes parent id).mpr ⟨hparent, by rw [hkind]; rfl⟩
  have hname : doc.name? id = some name := by
    rw [name?, hkind]
  refine filter_eq_singleton (h.nodup_attributes parent) hid fun x hx => ?_
  constructor
  · intro hany
    obtain ⟨other, hother, hsame⟩ := Option.any_eq_true .. |>.mp hany
    exact (hapart parent id hid x hx name other hname hother hsame).symm
  · rintro rfl
    simp [hname, Name.sameExpanded]

theorem eval_attributeStep (h : Linked doc) (hdoc : context.doc = doc)
    (hapart : AttributesApart doc) {name : Name} {value : String} (hresolved : name.Resolved)
    (hparent : doc.parent? id = some parent) (hkind : doc.kind id = .attribute name value) :
    (LocationStep.attribute name.localPart name.uri).step.eval context parent = .ok [id] := by
  have hsingle := filter_attributes h hapart hparent hkind
  -- on the attribute axis there are attributes only
  have hprincipal : ∀ x ∈ doc.attributes parent,
      Axis.attribute.principalName? doc x = doc.name? x := by
    intro x hx
    have hattribute := ((h.mem_attributes parent x).mp hx).2
    rw [name?]
    unfold Axis.principalName?
    cases hx : doc.kind x <;> simp_all [NodeKind.isAttribute]
  subst hdoc
  obtain ⟨pre, localPart, _ | uri⟩ := name
  · have hfilter : (context.doc.attributes parent).filter
        (NodeTest.accepts context.doc .attribute · (.name none localPart)) = [id] := by
      rw [← hsingle]
      refine List.filter_congr fun x hx => ?_
      rw [NodeTest.accepts, hprincipal x hx]
      cases context.doc.name? x with
      | none => rfl
      | some other => exact Name.sameExpanded_comm other ⟨pre, localPart, none⟩
    exact congrArg Except.ok hfilter
  · have huri : uri ≠ "" := fun huri => hresolved (congrArg some huri)
    have hfilter : ((context.doc.attributes parent).filter
        (NodeTest.accepts context.doc .attribute · .any)).filter
          (fun x => (context.doc.name? x).elim "" (Function.localName.nameText ·) == localPart &&
            (context.doc.name? x).elim "" (Function.namespaceUri.nameText ·) == uri) = [id] := by
      rw [← hsingle, List.filter_filter]
      refine List.filter_congr fun x hx => ?_
      rw [NodeTest.accepts, hprincipal x hx]
      cases context.doc.name? x with
      | none => simp
      | some other =>
          show ((other.localPart == localPart && (other.uri.getD "" == uri)) && true) = _
          rw [uri_beq huri, Bool.and_true, BEq.comm]
          rfl
    rw [LocationStep.step, Step.eval, select_test fun x _ position size =>
      eval_and (eval_comparisonTest localPart x position size (.inl rfl))
        (eval_comparisonTest uri x position size (.inr rfl))]
    exact congrArg Except.ok hfilter

/-- A step leads from the parent of its node to this node alone. -/
theorem eval_stepTo (h : Linked doc) (hdoc : context.doc = doc) (hapart : AttributesApart doc)
    (hresolved : ∀ id name, doc.name? id = some name → name.Resolved)
    (hcount : ∀ p, (doc.children p).length < 2 ^ 53)
    (hparent : doc.parent? id = some parent) :
    ∃ s, stepTo? doc id = some s ∧ s.step.eval context parent = .ok [id] := by
  cases hkind : doc.kind id with
  | document =>
      have hroot : id ≠ rootNode := by
        rintro rfl
        rw [h.parent?_root] at hparent
        cases hparent
      exact absurd hkind
        (h.kind_ne id (Nat.pos_of_ne_zero hroot) (Linked.lt_size_of_parent? hparent))
  | element name declarations =>
      have hname : name.Resolved := hresolved id name (by rw [name?, hkind])
      exact ⟨_, by rw [stepTo?, hkind], eval_elementStep h hdoc hname (hcount parent) hparent hkind⟩
  | «attribute» name value =>
      have hname : name.Resolved := hresolved id name (by rw [name?, hkind])
      exact ⟨_, by rw [stepTo?, hkind], eval_attributeStep h hdoc hapart hname hparent hkind⟩
  | text value =>
      exact ⟨_, by rw [stepTo?, hkind], eval_textStep h hdoc (hcount parent) hparent hkind⟩
  | comment value =>
      exact ⟨_, by rw [stepTo?, hkind], eval_commentStep h hdoc (hcount parent) hparent hkind⟩

/-! ## Paths -/

/-- The path to a node leads from the document node to this node alone. -/
theorem walkSteps_pathTo (h : Linked doc) (hdoc : context.doc = doc) (hapart : AttributesApart doc)
    (hresolved : ∀ id name, doc.name? id = some name → name.Resolved)
    (hcount : ∀ p, (doc.children p).length < 2 ^ 53) (hid : id < doc.size) :
    walkSteps context ((pathTo doc id).map LocationStep.step) [rootNode] = .ok [id] := by
  induction id using Nat.strongRecOn with
  | ind id ih =>
      rcases Nat.eq_zero_or_pos id with rfl | hpos
      · rw [show (0 : Nat) = rootNode from rfl, pathTo_root h]
        rfl
      -- the parent stands before the node, and the path to it is all but the last step
      · obtain ⟨parent, hlt, hparent⟩ := h.parent?_lt id hpos hid
        obtain ⟨s, hs, heval⟩ := eval_stepTo h hdoc hapart hresolved hcount hparent
        rw [pathTo_of_parent h hparent hs, List.map_append, walkSteps_append,
          ih parent hlt (Nat.lt_trans hlt hid)]
        show walkSteps context [s.step] [parent] = _
        rw [walkSteps, List.mapM_cons, heval]
        show walkSteps context [] (documentOrder [id]) = _
        rw [documentOrder_singleton, walkSteps]

end

theorem readable_of_mem_pathTo (hnames : ∀ id name, doc.name? id = some name →
      Lexer.IsName name.localPart ∧ ∀ uri ∈ name.uri, '\'' ∉ uri.toList) :
    ∀ s ∈ pathTo doc id, s.Readable := by
  intro s hs
  rw [pathTo, List.mem_reverse, List.mem_filterMap] at hs
  obtain ⟨other, -, hother⟩ := hs
  rw [stepTo?] at hother
  cases hkind : doc.kind other with
  | element name | «attribute» name =>
      rw [hkind] at hother
      cases hother
      exact hnames other name (by rw [name?, hkind])
  | document =>
      rw [hkind] at hother
      cases hother
  | text | comment =>
      rw [hkind] at hother
      cases hother
      trivial

/-- The location of each node of a document that was read compiles without any names in scope, and
selects this node alone, wherever in the document it is evaluated. The local names have to be
names that the lexer reads whole, the namespaces must not hold an apostrophe, and the positions
have to be numbers that doubles tell apart. -/
theorem location_selects [Regex.Engine] {text : String} (hparse : Document.parse text = .ok doc)
    (hnames : ∀ id name, doc.name? id = some name →
      Lexer.IsName name.localPart ∧ ∀ uri ∈ name.uri, '\'' ∉ uri.toList)
    (hcount : ∀ p, (doc.children p).length < 2 ^ 53) (hid : id < doc.size) :
    ∃ query, Query.compile {} (doc.location id) = .ok query ∧
      ∀ context : Context, context.doc = doc → query.evaluate context = .ok (.nodes [id]) := by
  have hbuilt := built_of_parse hparse
  have hreadable : ∀ s ∈ pathTo doc id, s.Readable := readable_of_mem_pathTo hnames
  refine ⟨_, by rw [location_eq, compile_locationText {} hreadable], fun context hdoc => ?_⟩
  have hwalk := walkSteps_pathTo hbuilt.linked hdoc hbuilt.attributesApart
    (fun _ _ => hbuilt.allowed) hcount hid
  show (walkSteps context _ [rootNode] >>= fun ids => Except.ok (Value.nodes ids)) = _
  rw [hwalk]
  rfl

/-- An element that is spelled like an operator, with its own namespaces. -/
def divText : String := "<a>x<!--y--><div xmlns='u' xmlns:p='v' p:b='1'/></a>"

/-- What locations ask of a document, checked node by node. -/
def locatable (doc : Document) : Bool :=
  (List.range doc.size).all fun id =>
    (doc.name? id).all (fun name =>
      decide (Lexer.IsName name.localPart) && name.uri.all fun uri => !uri.toList.contains '\'') &&
    decide ((doc.children id).length < 2 ^ 53)

theorem names_of_locatable (h : locatable doc = true) (id : NodeId) (name : Name)
    (hname : doc.name? id = some name) :
    Lexer.IsName name.localPart ∧ ∀ uri ∈ name.uri, '\'' ∉ uri.toList := by
  have hid : id < doc.size := by
    refine Nat.lt_of_not_le fun hle => ?_
    rw [name?_of_size_le hle] at hname
    cases hname
  have hnode := List.all_eq_true.mp h id (List.mem_range.mpr hid)
  rw [hname] at hnode
  simp only [Option.all_some, Bool.and_eq_true, decide_eq_true_eq] at hnode
  refine ⟨hnode.1.1, fun uri huri => ?_⟩
  have hall := hnode.1.2
  rw [Option.mem_def.mp huri] at hall
  simpa using hall

theorem count_of_locatable (h : locatable doc = true) (p : NodeId) :
    (doc.children p).length < 2 ^ 53 := by
  by_cases hp : p < doc.size
  · have hnode := List.all_eq_true.mp h p (List.mem_range.mpr hp)
    exact of_decide_eq_true (Bool.and_eq_true_iff.mp hnode).2
  · rw [children, node_of_size_le (Nat.le_of_not_lt hp)]
    exact Nat.two_pow_pos 53

theorem location_selects_divText :
    ∃ doc, Document.parse divText = .ok doc ∧
      doc.location 4 = "/a[1]/*:div[namespace-uri()='u'][1]" ∧
        ∃ query, Query.compile {} (doc.location 4) = .ok query ∧
          ∀ context : Context, context.doc = doc → query.evaluate context = .ok (.nodes [4]) := by
  have hread : (Document.parse divText).toOption.any (fun doc =>
      locatable doc && (decide (4 < doc.size) &&
        doc.location 4 == "/a[1]/*:div[namespace-uri()='u'][1]")) = true := by
    decide +kernel
  match hparse : Document.parse divText with
  | .ok doc =>
      rw [hparse] at hread
      simp only [Except.toOption, Option.any_some, Bool.and_eq_true, decide_eq_true_eq,
        beq_iff_eq] at hread
      obtain ⟨hlocatable, hsize, hlocation⟩ := hread
      exact ⟨doc, rfl, hlocation, location_selects hparse (names_of_locatable hlocatable)
        (count_of_locatable hlocatable) hsize⟩
  | .error fault =>
      rw [hparse] at hread
      cases hread

end Schematron.XPath

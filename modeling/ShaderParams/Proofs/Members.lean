import ShaderParams.Proofs.Run
import ShaderParams.Slider.Buffer

/-!
This module contains the members of a converted params block: which of them have sliders, and when
the sliders are those of all members.
-/

namespace ShaderParams

open List (Forall₂)

/-- The type and the name of the member that a slider feeds. -/
def Slider.declared (s : Slider) : Option String × Option String :=
  (s.control.memberType?, s.name)

namespace Node

/-- The type and the name that a field declares. -/
def declared (field : Node) : Option String × Option String :=
  (field.fieldType.toOption, field.fieldName.toOption)

/-- All fields in a list of members, at any depth. -/
def allFields (list : Node) : List Node :=
  (listWalk list.children).filter isField

/-- A member of a block without the qualifiers of a field. -/
def stripped : Node → Node
  | mk l cs => if (mk l cs).isField then mk l (unqualified label cs) else mk l cs

/-- The fields below the members of a list, apart from those in the qualifiers of fields. -/
def hiddenFields (list : Node) : List Node :=
  (list.children.flatMap fun m => listWalk m.stripped.children).filter isField

end Node

/-!
What a field declares can be read off its children without their trivia.
-/

namespace Node

theorem toOption_fieldType (n : Node) :
    n.fieldType.toOption =
      (n.childByField? "type" <|> n.children.find? fun c => c.label.isTypeSpecifier).map text := by
  rw [fieldType]
  split
  · next hn =>
    rw [hn]
    rfl
  · next hn =>
    rw [hn]
    rfl

theorem toOption_fieldName (n : Node) :
    n.fieldName.toOption =
      ((n.childByField? "declarator").bind (fun d => d.findFirst? nameTypes) <|>
        n.children.find? isName).map text := by
  rw [fieldName]
  split
  · next hn =>
    rw [hn]
    rfl
  · next hn =>
    rw [hn]
    rfl

end Node

namespace Alike

variable {n m : Node} {cs ds : List Node}

mutual

theorem walk : (n : Node) → {m : Node} → Alike n m → Forall₂ Alike n.walk m.walk
  | .mk l cs, .mk l' cs' => by
    intro h
    rw [Node.walk_mk, Node.walk_mk]
    exact .cons h (listWalk cs h.children_alike)

theorem listWalk : (cs : List Node) → {ds : List Node} → Forall₂ Alike cs ds →
    Forall₂ Alike (Node.listWalk cs) (Node.listWalk ds)
  | [], _ => by
    rintro ⟨⟩
    exact .nil
  | c :: cs, _ => by
    rintro (_ | ⟨hcd, hcs⟩)
    rw [Node.listWalk, Node.listWalk]
    apply List.rel_append (walk c hcd) (listWalk cs hcs)

end

theorem find? (h : Forall₂ Alike cs ds) {p : Node → Bool} (hp : ∀ x y, Alike x y → p x = p y) :
    Option.Rel Alike (cs.find? p) (ds.find? p) := by
  induction h with
  | nil => exact .none
  | @cons c d cs ds hcd _ ih =>
    rw [List.find?_cons, List.find?_cons, hp c d hcd]
    split
    · exact .some hcd
    · exact ih

theorem orElse {q q' r r' : Option Node} (h : Option.Rel Alike q q') (h' : Option.Rel Alike r r') :
    Option.Rel Alike (q <|> r) (q' <|> r') := by
  cases h with
  | none => simpa using h'
  | some h => exact .some h

theorem map_text {q q' : Option Node} (h : Option.Rel Alike q q') :
    q.map Node.text = q'.map Node.text := by
  cases h with
  | none => rfl
  | some h => rw [Option.map_some, Option.map_some, h.text_eq]

theorem childByField? (h : Forall₂ Alike n.children m.children) (field : String) :
    Option.Rel Alike (n.childByField? field) (m.childByField? field) :=
  find? h fun x y hxy => by rw [hxy.label_eq Label.field fun _ => rfl]

theorem declared_eq (h : Forall₂ Alike n.children m.children) : n.declared = m.declared := by
  rw [Node.declared, Node.declared, Node.toOption_fieldType, Node.toOption_fieldType,
    Node.toOption_fieldName, Node.toOption_fieldName]
  congr 1
  · apply map_text
    apply orElse (childByField? h _)
    exact find? h fun x y hxy => hxy.label_eq Label.isTypeSpecifier fun _ => rfl
  · apply map_text
    apply orElse
    · have hd := childByField? h "declarator"
      generalize n.childByField? "declarator" = d at hd ⊢
      generalize m.childByField? "declarator" = d' at hd ⊢
      cases hd with
      | none => exact .none
      | some hd =>
        exact find? (walk _ hd) fun x y hxy => by rw [hxy.type_eq]
    · exact find? h fun x y hxy => by rw [Node.isName, Node.isName, hxy.type_eq]

end Alike

/-!
The sliders of a block describe its fields, and the members of the converted block are the fields
without their qualifiers.
-/

theorem Slider.declared_ofField {f : Node} {s : Slider} (h : (ofField f).result = .ok s) :
    s.declared = f.declared ∧ s.control.memberType?.isSome := by
  obtain ⟨name, (hname : f.fieldName = .ok name), h⟩ := Logged.result_bind_eq_ok h
  obtain ⟨_, -, h⟩ := Logged.result_bind_eq_ok h
  obtain ⟨type, (htype : f.fieldType = .ok type), h⟩ := Logged.result_bind_eq_ok h
  obtain ⟨settings, -, h⟩ := Logged.result_bind_eq_ok h
  rw [Node.declared, hname, htype]
  split at h
  · next hfloat =>
    obtain ⟨x, -, h⟩ := Logged.result_bind_eq_ok h
    cases h
    rw [hfloat]
    exact ⟨rfl, rfl⟩
  · split at h
    · next hvec =>
      obtain ⟨x, -, h⟩ := Logged.result_bind_eq_ok h
      cases h
      rw [hvec, declared, VectorSettings.toControl]
      split <;> exact ⟨rfl, rfl⟩
    · cases h

namespace Node

theorem forall₂_dropMarked (pending : Option String) (ms : List (Node × Bool)) :
    Forall₂ Alike ((ms.filter fun m => !m.2).map Prod.fst) (dropMarked pending ms).1 := by
  induction ms generalizing pending with
  | nil => exact .nil
  | cons m ms ih =>
    rcases m with ⟨c, _ | _⟩
    · exact .cons (.receive pending c) (ih _)
    · exact ih _

/-- How a member of a block is related to what the conversion makes of it. -/
structure Converts (c d : Node) : Prop where
  isField_eq : d.isField = c.isField
  children : Forall₂ Alike c.stripped.children d.children

theorem converts_stripMember (pending : Option String) (c : Node) :
    Converts c (c.stripMember pending).1 := by
  cases c with
  | mk l cs =>
    by_cases hc : (mk l cs).isField
    · rw [stripMember, if_pos hc, stripField]
      refine ⟨?_, ?_⟩
      · apply Label.read_receive (fun l => l.type == "field_declaration") (fun _ => rfl) pending l
      · rw [stripped, if_pos hc]
        apply forall₂_dropMarked _ _
    · have halike := Alike.receive pending (mk l cs)
      rw [stripMember, if_neg hc]
      refine ⟨?_, ?_⟩
      · rw [isField, isField, halike.type_eq]
      · rw [stripped, if_neg hc]
        exact halike.children_alike

theorem converts_stripMembers (pending : Option String) (cs : List Node) :
    Forall₂ Converts cs (stripMembers pending cs).1 := by
  induction cs generalizing pending with
  | nil => exact .nil
  | cons c cs ih =>
    rw [stripMembers_cons]
    exact .cons (converts_stripMember pending c) (ih _)

theorem converts_stripFieldList (pending : Option String) (n : Node) :
    Forall₂ Converts n.children (n.stripFieldList pending).1.children := by
  cases n with
  | mk l cs => exact converts_stripMembers _ cs

end Node

section

variable {cs ds : List Node}

theorem declared_filter_isField (h : Forall₂ Node.Converts cs ds) :
    (ds.filter Node.isField).map Node.declared =
      (cs.filter Node.isField).map fun f => f.stripped.declared := by
  induction h with
  | nil => rfl
  | @cons c d cs ds hcd _ ih =>
    rw [List.filter_cons, List.filter_cons, hcd.isField_eq]
    split
    · rw [List.map_cons, List.map_cons, ih, Alike.declared_eq hcd.children]
    · exact ih

theorem length_hidden (h : Forall₂ Node.Converts cs ds) :
    ((cs.flatMap fun m => Node.listWalk m.stripped.children).filter Node.isField).length =
      ((ds.flatMap fun m => Node.listWalk m.children).filter Node.isField).length := by
  induction h with
  | nil => rfl
  | @cons c d cs ds hcd _ ih =>
    have hfields := Alike.filter (p := Node.isField) (Alike.listWalk _ hcd.children)
      fun x y hxy => by rw [Node.isField, Node.isField, hxy.type_eq]
    simp only [List.flatMap_cons, List.filter_append, List.length_append, ih, hfields.length_eq]

theorem length_allFields (cs : List Node) :
    ((Node.listWalk cs).filter Node.isField).length =
      (cs.filter Node.isField).length +
        ((cs.flatMap fun m => Node.listWalk m.children).filter Node.isField).length := by
  induction cs with
  | nil => rfl
  | cons c cs ih =>
    cases c with
    | mk l ds =>
      rw [Node.listWalk, Node.walk_mk, List.flatMap_cons]
      simp only [List.filter_append, List.length_append, List.filter_cons, Node.children] at ih ⊢
      split <;> simp only [List.length_cons, ih] <;> omega

theorem sublist_listWalk (cs : List Node) : cs.Sublist (Node.listWalk cs) := by
  induction cs with
  | nil => exact .slnil
  | cons c cs ih =>
    cases c with
    | mk l ds =>
      rw [Node.listWalk, Node.walk_mk]
      exact (ih.trans (List.sublist_append_right _ _)).cons_cons _

end

namespace Node

theorem isFieldList_replaceLayout (o : Options) {n : Node} (h : n.label.isFieldList = false) :
    (replaceLayout o.layout n).label.isFieldList = false := by
  cases n with
  | mk l cs =>
    rw [replaceLayout]
    split
    · rw [Label.isFieldList, (label_inPlaceOf o.layout _).1]
      rfl
    · split <;> exact h

theorem memberList?_convertBlock (o : Options) (place : QualifierPlace) {n : Node}
    (h : n.isBlock) :
    ∃ list, n.memberList? = some list ∧
      (n.convertBlock o place none).1.memberList? = some (list.stripFieldList none).1 := by
  obtain ⟨front, list, behind, hsplit, hfront, hlist⟩ := exists_fieldList h
  cases n with
  | mk l cs =>
    rw [children] at hsplit
    subst hsplit
    have hstripped := isFieldList_stripFieldList none list
    rw [hlist] at hstripped
    refine ⟨list, memberList?_append l hfront hlist, ?_⟩
    rw [convertBlock_append o place l hfront hlist]
    apply memberList?_append _ _ hstripped
    split
    · apply forall_mem_replaceQualifierLayout o.layout hfront fun c hc =>
        isFieldList_replaceLayout o (hfront c hc)
    · exact hfront

end Node

theorem members_eq_ok {ss : List Slider} (h : ∀ s ∈ ss, s.control.memberType?.isSome) :
    ∃ ms, members ss = .ok ms ∧ ms.map Member.name = ss.map Slider.name := by
  rw [members]
  generalize 0 = offset
  induction ss generalizing offset with
  | nil => exact ⟨[], rfl, rfl⟩
  | cons s ss ih =>
    have hextent : ∃ size alignment, s.control.extent? = some (size, alignment) := by
      have hs := h s List.mem_cons_self
      cases hcontrol : s.control with
      | float min max value => exact ⟨4, 4, rfl⟩
      | vec3 value => exact ⟨12, 16, rfl⟩
      | color value => exact ⟨12, 16, rfl⟩
      | bool value => exact ⟨4, 4, rfl⟩
      | bare =>
        rw [hcontrol] at hs
        cases hs
      | foreign =>
        rw [hcontrol] at hs
        cases hs
    obtain ⟨size, alignment, hextent⟩ := hextent
    obtain ⟨ms, hms, hnames⟩ := ih (fun t ht => h t (List.mem_cons_of_mem _ ht))
      (alignUp offset alignment + size)
    refine ⟨⟨s.name, alignUp offset alignment, size⟩ :: ms, ?_, ?_⟩
    · rw [placeMembers, hextent]
      simp only [Member.stop, hms]
      rfl
    · rw [List.map_cons, List.map_cons, hnames]

section

variable {list : Node} {sliders : List Slider}

theorem declared_fields {fs : List Node}
    (h : (fs.mapM Slider.ofField).result = .ok sliders) :
    sliders.map Slider.declared = fs.map Node.declared ∧
      ∀ s ∈ sliders, s.control.memberType?.isSome := by
  have hfs := Logged.mapM_eq_ok h
  clear h
  induction hfs with
  | nil => exact ⟨rfl, by simp⟩
  | cons hs _ ih =>
    obtain ⟨hdeclared, hmember⟩ := Slider.declared_ofField hs
    rw [List.map_cons, List.map_cons, hdeclared, ih.1]
    exact ⟨rfl, List.forall_mem_cons.mpr ⟨hmember, ih.2⟩⟩

/--
The sliders are those of all members of the converted list exactly if no field is hidden below a
member, and no field has its type or its name in a qualifier.
-/
theorem declared_allFields_iff
    (h : ((list.children.filter Node.isField).mapM Slider.ofField).result = .ok sliders) :
    (list.stripFieldList none).1.allFields.map Node.declared = sliders.map Slider.declared ↔
      list.hiddenFields = [] ∧
        ∀ f ∈ list.children.filter Node.isField, f.stripped.declared = f.declared := by
  have hconverts := Node.converts_stripFieldList none list
  have hdirect := declared_filter_isField hconverts
  have hhidden := length_hidden hconverts
  rw [(declared_fields h).1, Node.allFields, Node.hiddenFields]
  generalize (list.stripFieldList none).1.children = ds at hdirect hhidden ⊢
  have hlength := length_allFields ds
  -- The direct fields are a part of all fields, so that only the numbers have to agree.
  have hall : ((list.children.flatMap fun m => Node.listWalk m.stripped.children).filter
        Node.isField).length = 0 →
      (Node.listWalk ds).filter Node.isField = ds.filter Node.isField := by
    intro hzero
    refine (((sublist_listWalk ds).filter _).eq_of_length ?_).symm
    omega
  constructor
  · intro heq
    have hcounts := congrArg List.length heq
    have hcounts' := congrArg List.length hdirect
    simp only [List.length_map] at hcounts hcounts'
    have hzero : ((list.children.flatMap fun m => Node.listWalk m.stripped.children).filter
        Node.isField).length = 0 := by omega
    rw [hall hzero, hdirect] at heq
    exact ⟨List.length_eq_zero_iff.mp hzero, List.map_inj_left.mp heq⟩
  · rintro ⟨hnone, hsame⟩
    rw [hall (by rw [hnone]; rfl), hdirect]
    apply List.map_congr_left hsame

end

/--
When the sliders are those of all members of the block that is written. The buffer of the sliders
has one member for each of them.
-/
theorem extract_members_iff {o : Options} {source : String} {d : Document} {e : Extraction}
    {c : Context} {b : Node} (he : (extract o source d).result = .ok e)
    (hb : firstBlock? o [] d.root = some (c, b)) :
    ∃ v list list', (visit o [] {} d.root).result = .ok v ∧
      e.source = v.node.render ++ d.trailing ∧ b.memberList? = some list ∧
      (v.node.at? c.address).bind Node.memberList? = some list' ∧
      (list'.allFields.map Node.declared = e.panel.sliders.map Slider.declared ↔
        list.hiddenFields = [] ∧ ∀ f ∈ b.fields, f.stripped.declared = f.declared) ∧
      ∃ ms, members e.panel.sliders = .ok ms ∧
        ms.map Member.name = e.panel.sliders.map Slider.name := by
  obtain ⟨place, v, hv, hrun, hsource⟩ := extract_found he hb
  obtain ⟨layout, hlayout⟩ := hrun.layout
  obtain ⟨hblock, -⟩ := paramsLayout?_eq_some hlayout
  obtain ⟨list, hlist, hlist'⟩ := Node.memberList?_convertBlock o place hblock
  obtain ⟨k', haddress, hnode⟩ := hrun.node
  have hfields := hrun.fields
  rw [Node.fields_eq hlist] at hfields ⊢
  refine ⟨v, list, _, hv, hsource, hlist, ?_, declared_allFields_iff hfields,
    members_eq_ok (declared_fields hfields).2⟩
  rw [hnode, ← haddress, Context.at?_plug]
  exact hlist'

/--
The tree of a params block with a field between two directives.
-/
def conditionalTree : Node :=
  .branch "translation_unit" [
    .branch "declaration" [
      .branch "layout_specification" [
        .symbol "layout", .symbol "(", .token "identifier" "params", .symbol ")"],
      .token "identifier" "P" " ",
      .branch "field_declaration_list" [
        .symbol "\x7b" " ",
        field "float" "a",
        .branch "preproc_ifdef" [
          .symbol "#ifdef" "\n",
          .token "identifier" "X" " " (some "name"),
          field "float" "b",
          .symbol "#endif" "\n"],
        field "float" "c",
        .symbol "\x7d" " "],
      .symbol ";"]]
where
  field (type name : String) : Node :=
    .branch "field_declaration" [
      .token "primitive_type" type "\n" (some "type"),
      .token "field_identifier" name " " (some "declarator"),
      .symbol ";"]

theorem extract_members_iff_conditionalTree :
    ∃ e c b v list list', (extract {} "" ⟨conditionalTree, "\n"⟩).result = .ok e ∧
      firstBlock? {} [] conditionalTree = some (c, b) ∧
      (visit {} [] {} conditionalTree).result = .ok v ∧
      b.memberList? = some list ∧ (v.node.at? c.address).bind Node.memberList? = some list' ∧
      (list'.allFields.map Node.declared = e.panel.sliders.map Slider.declared ↔
        list.hiddenFields = [] ∧ ∀ f ∈ b.fields, f.stripped.declared = f.declared) := by
  have hsome : (firstBlock? {} [] conditionalTree).isSome := by decide +kernel
  have hok : (extract {} "" ⟨conditionalTree, "\n"⟩).result.isOk := by decide +kernel
  obtain ⟨⟨c, b⟩, hb⟩ := Option.isSome_iff_exists.mp hsome
  obtain ⟨e, he⟩ := Logged.exists_of_isOk hok
  obtain ⟨v, list, list', hv, -, hlist, hlist', hiff, -⟩ :=
    extract_members_iff (d := ⟨conditionalTree, "\n"⟩) he hb
  exact ⟨e, c, b, v, list, list', he, hb, hv, hlist, hlist', hiff⟩

/-- The member between the directives has no slider. -/
theorem extract_members_conditionalTree :
    (firstBlock? {} [] conditionalTree).map (fun p => p.1.address) = some [0] ∧
      (extract {} "" ⟨conditionalTree, "\n"⟩).result.map
          (fun e => e.panel.sliders.map Slider.declared) =
        .ok [(some "float", some "a"), (some "float", some "c")] ∧
      (visit {} [] {} conditionalTree).result.map
          (fun v => ((v.node.at? [0]).bind Node.memberList?).map fun list =>
            list.allFields.map Node.declared) =
        .ok (some [(some "float", some "a"), (some "float", some "b"), (some "float", some "c")]) := by
  decide +kernel

end ShaderParams

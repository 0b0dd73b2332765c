import ShaderParams.Proofs.Comment
import ShaderParams.Proofs.Rewriting

/-!
This module contains what the qualifiers of a field contribute to its slider: which layout its
settings are read from, and that the field declares the same when its qualifiers are removed.
-/

namespace ShaderParams

open List (Forall₂)

/-!
Fields without their qualifiers.
-/

namespace Node

theorem qualifiers_unqualified (cs : List Node) :
    qualifiers label (unqualified label cs) = [] := by
  induction cs with
  | nil => rfl
  | cons c cs ih =>
    rw [unqualified_cons]
    split
    · next hcomment => rw [qualifiers_cons, if_pos hcomment, ih]
    · next hcomment =>
      split
      · next hends => rw [qualifiers_cons, if_neg hcomment, if_pos hends]
      · next hends =>
        split
        · exact ih
        · next hother =>
          rw [qualifiers_cons, if_neg hcomment, if_neg hends, if_neg hother, ih]

theorem unqualified_unqualified (cs : List Node) :
    unqualified label (unqualified label cs) = unqualified label cs := by
  induction cs with
  | nil => rfl
  | cons c cs ih =>
    rw [unqualified_cons]
    split
    · next hcomment => rw [unqualified_cons, if_pos hcomment, ih]
    · next hcomment =>
      split
      · next hends => rw [unqualified_cons, if_neg hcomment, if_pos hends]
      · next hends =>
        split
        · exact ih
        · next hother =>
          rw [unqualified_cons, if_neg hcomment, if_neg hends, if_neg hother, ih]

theorem find?_unqualified {p : Node → Bool} {cs : List Node}
    (h : ∀ q ∈ qualifiers label cs, p q = false) :
    (unqualified label cs).find? p = cs.find? p := by
  induction cs with
  | nil => rfl
  | cons c cs ih =>
    rw [qualifiers_cons] at h
    rw [unqualified_cons]
    split at h
    · next hcomment => rw [if_pos hcomment, List.find?_cons, List.find?_cons, ih h]
    · next hcomment =>
      rw [if_neg hcomment]
      split at h
      · next hends => rw [if_pos hends]
      · next hends =>
        rw [if_neg hends]
        split at h
        · next hqualifier =>
          obtain ⟨hc, hcs⟩ := List.forall_mem_cons.mp h
          rw [if_pos hqualifier, ih hcs, List.find?_cons, hc]
        · next hother => rw [if_neg hother, List.find?_cons, List.find?_cons, ih h]

theorem children_stripField (pending : Option String) (field : Node) :
    Forall₂ Alike (unqualified label field.children) (field.stripField pending).1.children := by
  cases field with
  | mk l cs => exact forall₂_dropMarked _ _

end Node

theorem Alike.qualifiers {cs ds : List Node} (h : Forall₂ Alike cs ds) :
    Forall₂ Alike (qualifiers Node.label cs) (qualifiers Node.label ds) := by
  induction h with
  | nil => exact .nil
  | @cons c d cs ds hcd _ ih =>
    rw [qualifiers_cons, qualifiers_cons, hcd.isComment_eq, hcd.endsQualifiers_eq,
      hcd.isQualifier_eq]
    split
    · exact ih
    · split
      · exact .nil
      · split
        · exact .cons hcd ih
        · exact ih

theorem Node.fieldQualifiers_stripField (pending : Option String) (field : Node) :
    (field.stripField pending).1.fieldQualifiers = [] := by
  have halike := Alike.qualifiers (field.children_stripField pending)
  rw [qualifiers_unqualified] at halike
  rw [fieldQualifiers]
  generalize qualifiers label (field.stripField pending).1.children = qs at halike ⊢
  cases halike
  rfl

/-!
What a field declares.
-/

/-- A control of the same kind that was given no settings; colors are vectors then. -/
def Control.unset : Control → Control
  | .float .. => .float (.zero false) .one (.zero false)
  | .vec3 _ | .color _ => .vec3 origin
  | c => c

theorem Label.endsQualifiers_of_isTypeSpecifier {l : Label} (h : l.isTypeSpecifier) :
    l.isComment = false ∧ l.endsQualifiers := by
  refine ⟨beq_false_of_ne fun hcomment => ?_, by rw [endsQualifiers, h, Bool.true_or]⟩
  rw [isTypeSpecifier, hcomment] at h
  cases h

namespace Node

def declaredName? (field : Node) : Option Node :=
  (field.childByField? "declarator").bind fun d => d.findFirst? nameTypes

def TypeFirst (field : Node) : Prop :=
  ∃ front type behind, field.children = front ++ type :: behind ∧
    type.label.isTypeSpecifier ∧ type.label.field = some "type" ∧
    ∀ c ∈ front, c.label.field ≠ some "type" ∧ c.label.field ≠ some "declarator"

/-- Whether a field does not take its name from one of its qualifiers. -/
def NamedBehind (field : Node) : Prop :=
  field.declaredName?.isSome ∨ ∀ q ∈ field.fieldQualifiers, q.isName = false

variable {field : Node}

theorem TypeFirst.field_ne (h : field.TypeFirst) {role : String}
    (hrole : role = "type" ∨ role = "declarator") {q : Node} (hq : q ∈ field.fieldQualifiers) :
    (q.label.field == some role) = false := by
  obtain ⟨front, type, behind, hchildren, hspecifier, -, hfront⟩ := h
  obtain ⟨hcomment, hends⟩ := Label.endsQualifiers_of_isTypeSpecifier hspecifier
  rw [fieldQualifiers, hchildren, qualifiers_append_of_ends front behind hcomment hends] at hq
  obtain ⟨htype, hdeclarator⟩ := hfront q (mem_of_mem_qualifiers label hq)
  rcases hrole with rfl | rfl
  · exact beq_false_of_ne htype
  · exact beq_false_of_ne hdeclarator

theorem declared_unqualified {l : Label} {cs : List Node} (h : (mk l cs).TypeFirst)
    (hname : (mk l cs).NamedBehind) :
    (mk l (unqualified label cs)).declared = (mk l cs).declared := by
  have hchild {role : String} (hrole : role = "type" ∨ role = "declarator") :
      (mk l (unqualified label cs)).childByField? role = (mk l cs).childByField? role :=
    find?_unqualified fun q hq => h.field_ne hrole hq
  have htype : ∃ t, (mk l cs).childByField? "type" = some t := by
    obtain ⟨front, type, behind, hchildren, -, hrole, -⟩ := h
    rw [← Option.isSome_iff_exists, childByField?, List.find?_isSome]
    refine ⟨type, ?_, by simp [hrole]⟩
    rw [hchildren]
    exact List.mem_append_right _ List.mem_cons_self
  obtain ⟨t, ht⟩ := htype
  rw [declared, declared, toOption_fieldType, toOption_fieldType, toOption_fieldName,
    toOption_fieldName, hchild (.inl rfl), hchild (.inr rfl), ht]
  congr 2
  rcases hname with hname | hname
  · obtain ⟨n, hn⟩ := Option.isSome_iff_exists.mp hname
    rw [declaredName?] at hn
    rw [hn]
    rfl
  · congr 1
    funext _
    exact find?_unqualified hname

theorem declared_stripField (h : field.TypeFirst) (hname : field.NamedBehind)
    (pending : Option String) : (field.stripField pending).1.declared = field.declared := by
  cases field with
  | mk l cs =>
    have halike : Forall₂ Alike (mk l (unqualified label cs)).children
        ((mk l cs).stripField pending).1.children := children_stripField pending (mk l cs)
    rw [← Alike.declared_eq halike, declared_unqualified h hname]

theorem checkSingle_eq_ok_iff {name : String} :
    field.checkSingle name = .ok () ↔
      ((unqualified label field.children).any fun c => c.type == ",") = false ∧
        (unqualified label field.children).find? isArrayPart = none := by
  rw [checkSingle]
  split
  · next hcomma => simp [hcomma, reject]
  · next hcomma =>
    split
    · next part hpart => simp [hpart, reject]
    · next hnone => simp [hcomma, hnone]

theorem checkSingle_stripField (pending : Option String) {name : String}
    (h : field.checkSingle name = .ok ()) :
    (field.stripField pending).1.checkSingle name = .ok () := by
  cases field with
  | mk l cs =>
    have hsimilar : Similar (mk l (unqualified label cs)) ((mk l cs).stripField pending).1 := by
      refine .mk (Label.core_receive pending l).symm ?_
      exact skeletons_congr (Similar.of_forall₂_alike _ (children_stripField pending (mk l cs)))
    have hsame : (mk l (unqualified label cs)).checkSingle name = .ok () := by
      rw [checkSingle_eq_ok_iff] at h ⊢
      rwa [children, unqualified_unqualified]
    have hagree := hsimilar.checkSingle name name
    rw [hsame] at hagree
    generalize checkSingle _ name = x at hagree ⊢
    cases hagree with
    | ok _ => rfl

end Node

theorem eq_ok_of_toOption {α : Type} {x : Except Error α} {a : α} (h : x.toOption = some a) :
    x = .ok a := by
  cases x with
  | error e => cases h
  | ok b => rw [Option.some.inj h]

theorem Slider.ofField_unset {f g : Node} {s : Slider} (h : (ofField f).result = .ok s)
    (hname : g.fieldName = f.fieldName) (htype : g.fieldType = f.fieldType)
    (hsingle : ∀ name, f.checkSingle name = .ok () → g.checkSingle name = .ok ())
    (hsettings : g.fieldSettings = .ok []) :
    ofField g = ⟨[], .ok ⟨s.name, s.control.unset⟩⟩ := by
  obtain ⟨name, (hf : f.fieldName = .ok name), h⟩ := Logged.result_bind_eq_ok h
  obtain ⟨_, (hcheck : f.checkSingle name = .ok ()), h⟩ := Logged.result_bind_eq_ok h
  obtain ⟨type, (ht : f.fieldType = .ok type), h⟩ := Logged.result_bind_eq_ok h
  obtain ⟨_, -, h⟩ := Logged.result_bind_eq_ok h
  simp only [ofField, hname, htype, hsettings, hf, ht, hsingle name hcheck, Logged.liftM_def,
    Logged.lift_ok_bind]
  split at h
  · next hfloat =>
    obtain ⟨x, -, h⟩ := Logged.result_bind_eq_ok h
    cases h
    rw [if_pos hfloat]
    rfl
  · next hfloat =>
    rw [if_neg hfloat]
    split at h
    · next hvec =>
      obtain ⟨x, -, h⟩ := Logged.result_bind_eq_ok h
      cases h
      rw [if_pos hvec, VectorSettings.toControl]
      split <;> rfl
    · cases h

/--
A field without its qualifiers declares the same, and its slider has the same name and nothing set.
-/
theorem Slider.ofField_stripField {field : Node} {s : Slider} (htype : field.TypeFirst)
    (hname : field.NamedBehind) (hs : (ofField field).result = .ok s) (pending : Option String) :
    let stripped := (field.stripField pending).1
    stripped.fieldQualifiers = [] ∧ stripped.fieldName = field.fieldName ∧
      stripped.fieldType = field.fieldType ∧
      (∀ name, stripped.checkSingle name = field.checkSingle name) ∧
      ofField stripped = ⟨[], .ok ⟨s.name, s.control.unset⟩⟩ ∧
      Forall₂ Alike (unqualified Node.label field.children) stripped.children := by
  intro stripped
  have hqualifiers : stripped.fieldQualifiers = [] := field.fieldQualifiers_stripField pending
  have hchildren : Forall₂ Alike (unqualified Node.label field.children) stripped.children :=
    field.children_stripField pending
  obtain ⟨name, (hfield : field.fieldName = .ok name), h⟩ := Logged.result_bind_eq_ok hs
  obtain ⟨⟨⟩, (hsingle : field.checkSingle name = .ok ()), h⟩ := Logged.result_bind_eq_ok h
  obtain ⟨type, (hspecifier : field.fieldType = .ok type), -⟩ := Logged.result_bind_eq_ok h
  -- Equal texts are equal answers, as both are given for the field.
  have hdeclared := field.declared_stripField htype hname pending
  rw [Node.declared, Node.declared, hfield, hspecifier, Prod.mk.injEq] at hdeclared
  have hname' : stripped.fieldName = field.fieldName := by
    rw [hfield]
    exact eq_ok_of_toOption hdeclared.2
  have htype' : stripped.fieldType = field.fieldType := by
    rw [hspecifier]
    exact eq_ok_of_toOption hdeclared.1
  have hsingle' (name : String) (h : field.checkSingle name = .ok ()) :
      stripped.checkSingle name = .ok () :=
    Node.checkSingle_stripField pending h
  refine ⟨hqualifiers, hname', htype', ?_, ?_, hchildren⟩
  · intro other
    have h : field.checkSingle other = .ok () := by
      rw [Node.checkSingle_eq_ok_iff] at hsingle ⊢
      exact hsingle
    rw [h, hsingle' other h]
  · refine ofField_unset hs hname' htype' hsingle' ?_
    rw [Node.fieldSettings, hqualifiers]
    rfl

def qualifiedField : Node :=
  .branch "field_declaration" [
    .branch "layout_specification" [
      .symbol "layout", .symbol "(",
      .branch "qualifier" [
        .token "identifier" "max", .symbol "=" " ", .token "number_literal" "10" " "],
      .symbol ")"],
    .token "comment" "/* */" " ",
    .token "sample" "sample" " ",
    .token "primitive_type" "float" " " (some "type"),
    .token "field_identifier" "sample" " " (some "declarator"),
    .symbol ";"]

theorem Slider.ofField_stripField_qualifiedField :
    qualifiedField.TypeFirst ∧ qualifiedField.NamedBehind ∧
      ∃ s, (ofField qualifiedField).result = .ok s ∧ s.name = some "sample" ∧
        (qualifiedField.stripField none).1.fieldQualifiers = [] ∧
        (qualifiedField.stripField none).1.fieldName = qualifiedField.fieldName ∧
        ofField (qualifiedField.stripField none).1 = ⟨[], .ok ⟨s.name, s.control.unset⟩⟩ := by
  have htype : qualifiedField.TypeFirst :=
    ⟨qualifiedField.children.take 3, _, _, rfl, by decide, rfl, by decide⟩
  have hname : qualifiedField.NamedBehind := .inl (by decide)
  obtain ⟨s, hs⟩ := Logged.exists_of_isOk (x := ofField qualifiedField) (by decide +kernel)
  obtain ⟨hnone, hsame, -, -, hunset, -⟩ := ofField_stripField htype hname hs none
  refine ⟨htype, hname, s, hs, ?_, hnone, hsame, hunset⟩
  have hnames : (ofField qualifiedField).result.map Slider.name = .ok (some "sample") := by
    decide +kernel
  rw [hs] at hnames
  exact Except.ok.inj hnames

def misnamedField : Node :=
  .branch "field_declaration" [
    .token "identifier" "sample",
    .token "primitive_type" "float" " " (some "type"),
    .token "declarator" "a" " " (some "declarator"),
    .symbol ";"]

/-- The slider is named after the qualifier, so that nothing is named without it. -/
theorem Slider.ofField_misnamedField :
    misnamedField.TypeFirst ∧
      ofField misnamedField =
        ⟨[], .ok ⟨some "sample", .float (.zero false) .one (.zero false)⟩⟩ ∧
      (misnamedField.stripField none).1.fieldName =
        .error (.rejected .fieldWithoutName none) ∧
      ofField (misnamedField.stripField none).1 =
        ⟨[], .error (.rejected .fieldWithoutName none)⟩ := by
  refine ⟨⟨misnamedField.children.take 1, _, _, rfl, by decide, rfl, by decide⟩, ?_, ?_, ?_⟩ <;> rfl

/-!
Where the settings of a field come from.
-/

namespace Node

mutual

/-- The layout specifications that a qualifier holds, those in wrappers included. -/
def layouts : Node → List Node
  | mk l cs => if l.isLayout then [mk l cs] else if l.isWrapper then listLayouts cs else []

def listLayouts : List Node → List Node
  | [] => []
  | c :: cs => c.layouts ++ listLayouts cs

end

/-- The entries of the first layout specification among the qualifiers of a field. -/
def writtenSettings (field : Node) : Except Error (List LayoutEntry) :=
  match (listLayouts field.fieldQualifiers).head? with
  | some layout => layout.layoutEntries
  | none => .ok []

/-- Whether the settings of a field do not belong to what its first qualifier stands for. -/
def Covered (field : Node) : Prop :=
  field.fieldQualifiers.head?.bind layout? = none ∧ field.writtenSettings ≠ .ok []

mutual

theorem head?_layouts : (q : Node) → {layout : Node} → q.layout? = some layout →
    q.layouts.head? = some layout
  | mk l cs => by
    intro h
    rw [layout?] at h
    rw [layouts]
    split at h
    · next hlayout => rwa [if_pos hlayout, List.head?_cons]
    · next hlayout =>
      rw [if_neg hlayout]
      split at h
      · next hwrapper =>
        rw [if_pos hwrapper]
        exact head?_listLayouts cs h
      · cases h

theorem head?_listLayouts : (cs : List Node) → {layout : Node} → firstLayout? cs = some layout →
    (listLayouts cs).head? = some layout
  | [] => by
    intro h
    rw [firstLayout?] at h
    cases h
  | c :: cs => by
    intro h
    rw [firstLayout?] at h
    rw [listLayouts, List.head?_append]
    split at h
    · next hcomment =>
      -- A comment holds nothing.
      have hnone : c.layouts = [] := by
        cases c with
        | mk l ds =>
          have htype : l.type = "comment" := beq_iff_eq.mp hcomment
          rw [layouts, Label.isLayout, Label.isWrapper, htype]
          rfl
      rw [hnone, head?_listLayouts cs h]
      rfl
    · rw [head?_layouts c h]
      rfl

end

variable {field : Node}

theorem fieldSettings_of_some {layout : Node}
    (h : field.fieldQualifiers.head?.bind layout? = some layout) :
    field.fieldSettings = field.writtenSettings := by
  rw [fieldSettings, writtenSettings, h]
  obtain ⟨q, hq, hlayout⟩ := Option.bind_eq_some_iff.mp h
  obtain ⟨qs, hqualifiers⟩ := List.head?_eq_some_iff.mp hq
  rw [hqualifiers, listLayouts, List.head?_append, head?_layouts q hlayout]
  rfl

theorem fieldSettings_of_none (h : field.fieldQualifiers.head?.bind layout? = none) :
    field.fieldSettings = .ok [] := by
  rw [fieldSettings, h]

theorem fieldSettings_eq_iff (field : Node) :
    (field.fieldSettings = field.writtenSettings ↔ ¬field.Covered) ∧
      (field.fieldSettings = .ok [] ↔ field.Covered ∨ field.writtenSettings = .ok []) := by
  rw [Covered]
  cases h : field.fieldQualifiers.head?.bind layout? with
  | none =>
    rw [fieldSettings_of_none h]
    by_cases hwritten : field.writtenSettings = .ok []
    · simp [hwritten]
    · simp [hwritten, Ne.symm hwritten]
  | some layout => simp [fieldSettings_of_some h]

end Node

/--
The settings of a field are those of the first layout specification among its qualifiers unless they
are covered. Covered ones go with the qualifiers, and the slider has nothing set and no warning.
-/
theorem Slider.ofField_writtenSettings (field : Node) :
    (field.fieldSettings = field.writtenSettings ↔ ¬field.Covered) ∧
      (field.fieldSettings = .ok [] ↔ field.Covered ∨ field.writtenSettings = .ok []) ∧
      (field.Covered → ∀ s, (ofField field).result = .ok s →
        (ofField field).warnings = [] ∧ s.control = s.control.unset) ∧
      ∀ pending, Node.listLayouts (field.stripField pending).1.fieldQualifiers = [] := by
  obtain ⟨hwritten, hempty⟩ := field.fieldSettings_eq_iff
  refine ⟨hwritten, hempty, fun hcovered s hs => ?_, fun pending => ?_⟩
  · have hunset := ofField_unset hs rfl rfl (fun _ h => h) (hempty.mpr (.inl hcovered))
    rw [hunset] at hs ⊢
    exact ⟨rfl, (congrArg Slider.control (Except.ok.inj hs)).symm⟩
  · rw [field.fieldQualifiers_stripField pending]
    rfl

def coveredField : Node :=
  .branch "field_declaration" [
    .branch "precision_qualifier" [.symbol "highp"],
    .branch "layout_specification" [
      .symbol "layout" " ", .symbol "(",
      .branch "qualifier" [
        .token "identifier" "max", .symbol "=" " ", .token "number_literal" "10" " "],
      .symbol ")"],
    .token "primitive_type" "float" " " (some "type"),
    .token "field_identifier" "gain" " " (some "declarator"),
    .symbol ";"]

theorem Slider.ofField_writtenSettings_coveredField :
    coveredField.Covered ∧ coveredField.fieldSettings ≠ coveredField.writtenSettings := by
  have hnames : coveredField.writtenSettings.map (List.map LayoutEntry.name) = .ok ["max"] := by
    decide +kernel
  have hcovered : coveredField.Covered := by
    refine ⟨rfl, fun hempty => ?_⟩
    rw [hempty] at hnames
    cases hnames
  exact ⟨hcovered, fun heq => (ofField_writtenSettings coveredField).1.mp heq hcovered⟩

theorem Slider.ofField_coveredField :
    coveredField.fieldSettings = .ok [] ∧
      coveredField.writtenSettings.map (List.map LayoutEntry.name) = .ok ["max"] ∧
      ofField coveredField =
        ⟨[], .ok ⟨some "gain", .float (.zero false) .one (.zero false)⟩⟩ ∧
      Node.listLayouts (coveredField.stripField none).1.fieldQualifiers = [] :=
  ⟨rfl, by decide +kernel, rfl, rfl⟩

end ShaderParams

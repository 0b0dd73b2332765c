import ShaderParams.Proofs.Complete
import ShaderParams.Proofs.Rewriting

/-!
This module contains what a second pass can tell of the nodes that the first one left: of a literal
in the place of a bound, of the converted block, and of the nodes around them.
-/

namespace ShaderParams

open List (Forall₂)

theorem exists_mem_of_forall₂ {α β : Type} {R : α → β → Prop} {xs : List α} {ys : List β}
    (h : Forall₂ R xs ys) {x : α} (hx : x ∈ xs) : ∃ y ∈ ys, R x y := by
  induction h with
  | nil => cases hx
  | cons hxy _ ih =>
    rcases List.mem_cons.mp hx with rfl | hx
    · exact ⟨_, List.mem_cons_self, hxy⟩
    · obtain ⟨y, hy, hxy⟩ := ih hx
      exact ⟨y, List.mem_cons_of_mem _ hy, hxy⟩

namespace Node

/-- A member access has the parts that are looked at. -/
def Accessible (n : Node) : Prop :=
  n.type = "field_expression" →
    ∀ role ∈ ["argument", "field"], ∃ c ∈ n.children, c.label.field = some role ∨ c.label.named

instance (n : Node) : Decidable n.Accessible :=
  inferInstanceAs (Decidable (_ → ∀ role ∈ ["argument", "field"],
    ∃ c ∈ n.children, c.label.field = some role ∨ c.label.named))

theorem accessible_of_type_ne {n : Node} (h : n.type ≠ "field_expression") : n.Accessible :=
  fun htype => absurd htype h

theorem isSome_part {n : Node} {other : Option Node} (role : String)
    (h : other.isSome ↔ n.namedChildren ≠ []) :
    (n.childByField? role <|> other).isSome ↔
      ∃ c ∈ n.children, c.label.field = some role ∨ c.label.named := by
  have hrole : (n.childByField? role).isSome ↔ ∃ c ∈ n.children, c.label.field = some role := by
    simp [childByField?]
  have hnamed : other.isSome ↔ ∃ c ∈ n.children, c.label.named := by
    rw [h, namedChildren]
    simp
  rw [Option.orElse_eq_orElse, Option.orElse_eq_or, Option.isSome_or, Bool.or_eq_true, hrole, hnamed]
  simp only [and_or_left, exists_or]

theorem accessible_iff {n : Node} (h : n.type = "field_expression") :
    n.Accessible ↔
      (n.childByField? "argument" <|> n.namedChildren.head?).isSome ∧
        (n.childByField? "field" <|> n.namedChildren.getLast?).isSome := by
  rw [isSome_part, isSome_part]
  · simp [Accessible, h]
  · simp
  · simp

end Node

theorem accessible_of_boundAt? {sliders : List Slider} {n : Node} {bound : Option Double}
    (h : boundAt? sliders n = .ok bound) : n.Accessible := by
  by_cases htype : n.type = "field_expression"
  · rw [Node.accessible_iff htype]
    rw [boundAt?, if_pos (by simpa using htype)] at h
    cases hargument : n.childByField? "argument" <|> n.namedChildren.head? with
    | none =>
      rw [hargument] at h
      cases h
    | some argument =>
      cases hmember : n.childByField? "field" <|> n.namedChildren.getLast? with
      | none =>
        rw [hargument, hmember] at h
        cases h
      | some member => exact ⟨rfl, rfl⟩
  · exact Node.accessible_of_type_ne htype

theorem boundAt?_nil_of_accessible {n : Node} (h : n.Accessible) : boundAt? [] n = .ok none := by
  by_cases htype : n.type = "field_expression"
  · obtain ⟨hargument, hmember⟩ := (Node.accessible_iff htype).mp h
    obtain ⟨argument, hargument⟩ := Option.isSome_iff_exists.mp hargument
    obtain ⟨member, hmember⟩ := Option.isSome_iff_exists.mp hmember
    rw [boundAt?, if_pos (by simpa using htype), hargument, hmember]
    show (if argument.type == "identifier" then _ else _) = _
    split <;> rfl
  · exact boundAt?_of_type_ne [] htype

/-!
What the pass leaves of a node counts the same for the nodes around it.
-/

/-- The names in the layout that a qualifier stands for. -/
def Node.listed (q : Node) : Option (Except Error (List String)) :=
  q.layout?.map Node.entryNames

theorem marks_some (o : Options) (q : Node) :
    marks o (some q) =
      (q.listed.map (Except.map fun names => names.head?.any (· == o.marker))).getD (.ok false) := by
  rw [marks, Node.listed, Option.bind_some]
  cases q.layout? <;> rfl

theorem marks_of_listed {o : Options} {q : Node} (hmarker : o.marker ≠ "set")
    (h : q.listed = some (.ok ["set", "binding"])) : marks o (some q) = .ok false := by
  rw [marks_some, h]
  simp [Except.map, hmarker.symm]

/--
How a node is related to what the pass leaves of it: both count the same among the children of a
node, and the layouts that they stand for list the same names, or what is left is the layout of the
converted block.
-/
structure Remnant (n m : Node) : Prop where
  isComment_eq : m.label.isComment = n.label.isComment
  endsQualifiers_eq : m.label.endsQualifiers = n.label.endsQualifiers
  isQualifier_eq : m.label.isQualifier = n.label.isQualifier
  isFieldList_eq : m.label.isFieldList = n.label.isFieldList
  isStruct_eq : (m.type == "struct") = (n.type == "struct")
  field_eq : m.label.field = n.label.field
  named_imp : n.label.named → m.label.named
  listed : m.listed = n.listed ∨ m.listed = some (.ok ["set", "binding"])

namespace Remnant

variable {o : Options} {n m : Node} {cs ds : List Node}

theorem of_label (hlabel : m.label.bare = n.label.bare)
    (hlisted : m.listed = n.listed ∨ m.listed = some (.ok ["set", "binding"])) : Remnant n m := by
  have hread : ∀ {β : Type} (f : Label → β), (∀ l : Label, f l.bare = f l) →
      f m.label = f n.label := by
    intro β f hf
    rw [← hf, hlabel, hf]
  have hnamed := hread Label.named fun _ => rfl
  exact {
    isComment_eq := hread Label.isComment fun _ => rfl
    endsQualifiers_eq := hread Label.endsQualifiers fun _ => rfl
    isQualifier_eq := hread Label.isQualifier fun _ => rfl
    isFieldList_eq := hread Label.isFieldList fun _ => rfl
    isStruct_eq := hread (fun l => l.type == "struct") fun _ => rfl
    field_eq := hread Label.field fun _ => rfl
    named_imp := by
      rw [hnamed]
      exact id
    listed := hlisted }

theorem of_alike (h : Alike n m) : Remnant n m := by
  have hlisted := Alike.layout? n h
  refine of_label h.bare_label.symm (.inl ?_)
  unfold Node.listed
  generalize n.layout? = x at hlisted ⊢
  generalize m.layout? = y at hlisted ⊢
  cases hlisted with
  | none => rfl
  | some h => rw [Option.map_some, Option.map_some, Alike.entryNames_eq h.children_alike]

theorem refl (n : Node) : Remnant n n :=
  of_alike (.refl n)

theorem any_eq (h : Forall₂ Remnant cs ds) {p : Node → Bool}
    (hp : ∀ x y, Remnant x y → p y = p x) : ds.any p = cs.any p := by
  induction h with
  | nil => rfl
  | cons hcd _ ih => simp only [List.any_cons, ih, hp _ _ hcd]

theorem isBlock_eq (h : Forall₂ Remnant cs ds) (l l' : Label) :
    (Node.mk l' ds).isBlock = (Node.mk l cs).isBlock := by
  unfold Node.isBlock
  simp only [Node.children]
  rw [any_eq h fun x y hxy => hxy.isFieldList_eq, any_eq h fun x y hxy => hxy.isStruct_eq]

theorem head?_qualifiers (h : Forall₂ Remnant cs ds) :
    Option.Rel Remnant (qualifiers Node.label cs).head? (qualifiers Node.label ds).head? := by
  induction h with
  | nil => exact .none
  | cons hcd _ ih =>
    rw [qualifiers_cons, qualifiers_cons, hcd.isComment_eq, hcd.endsQualifiers_eq,
      hcd.isQualifier_eq]
    split
    · exact ih
    · split
      · exact .none
      · split
        · exact .some hcd
        · exact ih

theorem marks_eq_false (hmarker : o.marker ≠ "set") (h : Remnant n m)
    (hn : marks o (some n) = .ok false) : marks o (some m) = .ok false := by
  rcases h.listed with hm | hm
  · rw [marks_some] at hn ⊢
    rw [hm, hn]
  · exact marks_of_listed hmarker hm

end Remnant

theorem firstQualifier?_snd (preceding : List Node) (n : Node) :
    (firstQualifier? preceding n).map Prod.snd =
      ((qualifiers Node.label n.children).head? <|> (qualifiers Node.label preceding).head?) := by
  rw [firstQualifier?]
  cases qualifiers Node.label n.children with
  | nil => cases (qualifiers Node.label preceding).head? <;> rfl
  | cons q qs => rfl

theorem paramsLayout?_eq_none_iff {o : Options} {preceding : List Node} {n : Node} :
    paramsLayout? o preceding n = .ok none ↔
      (n.isBlock → marks o ((firstQualifier? preceding n).map Prod.snd) = .ok false) := by
  have hsome := paramsLayout?_isSome o preceding n
  have hnone : paramsLayout? o preceding n = .ok none ↔
      (paramsLayout? o preceding n).map Option.isSome = .ok false := by
    rcases paramsLayout? o preceding n with _ | _ | _ <;> simp [Except.map]
  rw [hnone, hsome]
  cases n.isBlock <;> simp

namespace Remnant

variable {o : Options} {outer cs ds : List Node} {l l' : Label}

theorem paramsLayout?_eq_none (hmarker : o.marker ≠ "set") (h : Forall₂ Remnant cs ds)
    (hn : paramsLayout? o outer (.mk l cs) = .ok none) :
    paramsLayout? o outer (.mk l' ds) = .ok none := by
  rw [paramsLayout?_eq_none_iff] at hn ⊢
  rw [isBlock_eq h l l']
  intro hblock
  have hn := hn hblock
  have hhead := head?_qualifiers h
  rw [firstQualifier?_snd, Node.children] at hn ⊢
  generalize (qualifiers Node.label cs).head? = q at hhead hn
  generalize (qualifiers Node.label ds).head? = r at hhead ⊢
  cases hhead with
  | none => exact hn
  | some hqr => exact hqr.marks_eq_false hmarker hn

theorem accessible (h : Forall₂ Remnant cs ds) (hlabel : l'.bare = l.bare)
    (hn : (Node.mk l cs).Accessible) : (Node.mk l' ds).Accessible := by
  have htype : l'.bare.type = l.bare.type := congrArg Label.type hlabel
  intro htype' role hrole
  obtain ⟨c, hc, hpart⟩ := hn (htype.symm.trans htype') role hrole
  obtain ⟨d, hd, hcd⟩ := exists_mem_of_forall₂ h hc
  refine ⟨d, hd, ?_⟩
  rw [hcd.field_eq]
  exact hpart.imp_right hcd.named_imp

theorem idle (hmarker : o.marker ≠ "set") (h : Forall₂ Remnant cs ds) (hlabel : l'.bare = l.bare)
    {sliders : List Slider} {bound : Option Double}
    (hlayout : paramsLayout? o outer (.mk l cs) = .ok none)
    (hbound : boundAt? sliders (.mk l cs) = .ok bound) : Idle o outer (.mk l' ds) where
  layout := paramsLayout?_eq_none hmarker h hlayout
  bound := boundAt?_nil_of_accessible (accessible h hlabel (accessible_of_boundAt? hbound))

theorem firstListed (h : Forall₂ Remnant cs ds) :
    (Node.firstLayout? ds).map Node.entryNames = (Node.firstLayout? cs).map Node.entryNames ∨
      (Node.firstLayout? ds).map Node.entryNames = some (.ok ["set", "binding"]) := by
  induction h with
  | nil => exact .inl rfl
  | cons hcd _ ih =>
    rw [Node.firstLayout?, Node.firstLayout?, hcd.isComment_eq]
    split
    · exact ih
    · exact hcd.listed

theorem of_children (h : Forall₂ Remnant cs ds) (hlabel : l'.bare = l.bare)
    (halike : l.isLayout → Alike (.mk l cs) (.mk l' ds)) : Remnant (.mk l cs) (.mk l' ds) := by
  by_cases hl : l.isLayout
  · exact of_alike (halike hl)
  · -- Only what a wrapper stands for depends on the children.
    have htype : l'.bare.type = l.bare.type := congrArg Label.type hlabel
    have hlayout : l'.isLayout = l.isLayout := congrArg (· == "layout_specification") htype
    have hwrapper : l'.isWrapper = l.isWrapper := congrArg qualifierWrappers.contains htype
    refine of_label hlabel ?_
    rw [Node.listed, Node.listed, Node.layout?, Node.layout?, hlayout, hwrapper, if_neg hl,
      if_neg hl]
    split
    · exact firstListed h
    · exact .inl rfl

end Remnant

/-!
A literal in the place of a bound, and the block that was converted.
-/

theorem Node.field_inPlaceOf (old new : Node) :
    (inPlaceOf old new).label.field = (new.label.field <|> old.label.field) ∧
      (inPlaceOf old new).label.named = new.label.named := by
  have hlabel := (Alike.receive (some old.leading) new).bare_label
  have hfield : new.label.bare.field = _ := congrArg Label.field hlabel
  have hnamed : new.label.bare.named = _ := congrArg Label.named hlabel
  rw [inPlaceOf, setLeading_eq_receive]
  generalize (new.receive (some old.leading)).1 = m at hfield hnamed ⊢
  cases m with
  | mk l cs =>
    rw [show new.label.field = l.field from hfield]
    exact ⟨rfl, hnamed.symm⟩

theorem Node.field_ofDouble (x : Double) : (ofDouble x).label.field = none := by
  rw [ofDouble]
  split <;> rfl

theorem Node.type_ofDouble (x : Double) :
    (ofDouble x).label.type = "number_literal" ∨
      (ofDouble x).label.type = "parenthesized_expression" := by
  rw [ofDouble]
  split
  · exact .inr rfl
  · exact .inl rfl

theorem Node.listed_eq_none {n : Node} (h : n.label.isLayout = false)
    (h' : n.label.isWrapper = false) : n.listed = none := by
  cases n with
  | mk l cs =>
    rw [label] at h h'
    rw [listed, layout?, h, h']
    rfl

theorem Remnant.of_literal {n m : Node} (htype : n.label.type = "field_expression")
    (htoken : n.isToken = false)
    (hkind : m.label.type = "number_literal" ∨ m.label.type = "parenthesized_expression")
    (hqualifier : m.label.isQualifier = false) (hfield : m.label.field = n.label.field)
    (hnamed : m.label.named = true) : Remnant n m := by
  have hread : ∀ f : String → Bool, f "number_literal" = f "field_expression" →
      f "parenthesized_expression" = f "field_expression" → f m.label.type = f n.label.type := by
    intro f hnumber hparenthesized
    rw [htype]
    rcases hkind with hkind | hkind
    · rw [hkind, hnumber]
    · rw [hkind, hparenthesized]
  have htext : n.label.text = none := by simpa [Node.isToken, Label.isToken] using htoken
  have hlayout := hread (· == "layout_specification") rfl rfl
  have hwrapper := hread qualifierWrappers.contains rfl rfl
  have hlisted : n.listed = none := Node.listed_eq_none
    (by rw [Label.isLayout, htype]; rfl) (by rw [Label.isWrapper, htype]; rfl)
  have hlisted' : m.listed = none := Node.listed_eq_none
    (hlayout.trans (by rw [htype]; rfl)) (hwrapper.trans (by rw [htype]; rfl))
  exact {
    isComment_eq := hread (· == "comment") rfl rfl
    endsQualifiers_eq :=
      hread (fun t => typeSpecifiers.contains t || t == "field_declaration_list") rfl rfl
    isQualifier_eq := by
      rw [hqualifier, Label.isQualifier, Label.isLayout, Label.isWrapper, htype, htext]
      rfl
    isFieldList_eq := hread (· == "field_declaration_list") rfl rfl
    isStruct_eq := hread (· == "struct") rfl rfl
    field_eq := hfield
    named_imp := fun _ => hnamed
    listed := .inl (hlisted'.trans hlisted.symm) }

theorem Remnant.putLiteral {n : Node} {x : Double} (p : Progress)
    (htype : n.type = "field_expression") (htoken : n.isToken = false) :
    Remnant n (ShaderParams.putLiteral x n p).node := by
  obtain ⟨htype', htext'⟩ := Node.label_inPlaceOf (.ofDouble x) (n.receive p.pending).1
  obtain ⟨hfield, hnamed⟩ := Node.field_inPlaceOf (n.receive p.pending).1 (.ofDouble x)
  have hfield' := (Alike.receive p.pending n).label_eq Label.field fun _ => rfl
  rw [Node.field_ofDouble, ← hfield'] at hfield
  have hkind := Node.type_ofDouble x
  rw [← htype'] at hkind
  have hqualifier := (Label.isQualifier_congr htype' htext').trans (Node.ofDouble_label x).2.2
  exact .of_literal htype htoken hkind hqualifier hfield (hnamed.trans (Node.named_ofDouble x))

namespace Node

variable (o : Options)

theorem listed_replaceLayout (q : Node) :
    (replaceLayout o.layout q).listed = q.listed.map fun _ => .ok ["set", "binding"] := by
  have hnames : ∀ old, (inPlaceOf old o.layout).entryNames = .ok ["set", "binding"] :=
    fun old => (entryNames_inPlaceOf old o.layout).trans (entryNames_layout o)
  unfold listed
  rw [layout?_replaceLayout (show o.layout.label.isLayout from rfl)]
  cases q.layout? with
  | none => rfl
  | some old => rw [Option.map_some, Option.map_some, Option.map_some, Option.map_some, hnames]

theorem remnant_replaceLayout (q : Node) : Remnant q (replaceLayout o.layout q) := by
  have hlisted : (replaceLayout o.layout q).listed = q.listed ∨
      (replaceLayout o.layout q).listed = some (.ok ["set", "binding"]) := by
    rw [listed_replaceLayout]
    cases q.listed
    · exact .inl rfl
    · exact .inr rfl
  cases q with
  | mk l cs =>
    rw [replaceLayout] at hlisted ⊢
    split at hlisted
    · next hl =>
      rw [if_pos hl]
      obtain ⟨htype, -⟩ := label_inPlaceOf o.layout (mk l cs)
      obtain ⟨hfield, hnamed⟩ := field_inPlaceOf (mk l cs) o.layout
      have htype : (inPlaceOf (mk l cs) o.layout).label.type = l.type := by
        rw [htype]
        exact (beq_iff_eq.mp hl).symm
      obtain ⟨hcomment, hends⟩ := Label.endsQualifiers_congr htype
      have hlayout := isLayout_inPlaceOf (show o.layout.label.isLayout from rfl) (mk l cs)
      exact {
        isComment_eq := hcomment
        endsQualifiers_eq := hends
        isQualifier_eq := by
          simp only [Label.isQualifier, hlayout, show (mk l cs).label.isLayout from hl]
          rfl
        isFieldList_eq := congrArg (· == "field_declaration_list") htype
        isStruct_eq := congrArg (· == "struct") htype
        field_eq := hfield
        named_imp := fun _ => hnamed
        listed := hlisted }
    · next hl =>
      rw [if_neg hl]
      split at hlisted
      · next hw =>
        rw [if_pos hw]
        exact .of_label rfl hlisted
      · next hw =>
        rw [if_neg hw]
        exact .refl _

theorem remnants_receiveAll (pending : Option String) (cs : List Node) :
    Forall₂ Remnant cs (stripFirstFieldList.receiveAll pending cs).1 := by
  induction cs generalizing pending with
  | nil => exact .nil
  | cons c cs ih =>
    rw [receiveAll_cons]
    exact .cons (.of_alike (.receive pending c)) (ih _)

theorem remnants_replaceQualifierLayout (cs : List Node) :
    Forall₂ Remnant cs (replaceQualifierLayout o.layout cs) := by
  have hrefl : ∀ ds : List Node, Forall₂ Remnant ds ds :=
    fun ds => List.forall₂_same.mpr fun c _ => .refl c
  induction cs with
  | nil => exact .nil
  | cons c cs ih =>
    rw [replaceQualifierLayout_cons]
    split
    · exact .cons (.refl c) ih
    · split
      · exact hrefl _
      · split
        · exact .cons (remnant_replaceLayout o c) (hrefl cs)
        · exact .cons (.refl c) ih

theorem head?_qualifiers_replaceQualifierLayout (cs : List Node) :
    (qualifiers label (replaceQualifierLayout o.layout cs)).head? =
      (qualifiers label cs).head?.map (replaceLayout o.layout) := by
  induction cs with
  | nil => rfl
  | cons c cs ih =>
    have hc := remnant_replaceLayout o c
    rw [replaceQualifierLayout_cons, qualifiers_cons]
    by_cases hcomment : c.label.isComment
    · rw [if_pos hcomment, if_pos hcomment, qualifiers_cons, if_pos hcomment, ih]
    · rw [if_neg hcomment, if_neg hcomment]
      by_cases hends : c.label.endsQualifiers
      · rw [if_pos hends, if_pos hends, qualifiers_cons, if_neg hcomment, if_pos hends]
        rfl
      · rw [if_neg hends, if_neg hends]
        by_cases hq : c.label.isQualifier
        · rw [if_pos hq, if_pos hq, qualifiers_cons, hc.isComment_eq, hc.endsQualifiers_eq,
            hc.isQualifier_eq, if_neg hcomment, if_neg hends, if_pos hq]
          rfl
        · rw [if_neg hq, if_neg hq, qualifiers_cons, if_neg hcomment, if_neg hends, if_neg hq, ih]

theorem remnant_stripFieldList (pending : Option String) {n : Node} (h : n.label.isFieldList) :
    Remnant n (n.stripFieldList pending).1 := by
  have htype : n.label.type = "field_declaration_list" := beq_iff_eq.mp h
  have htype' : (n.stripFieldList pending).1.label.type = "field_declaration_list" :=
    beq_iff_eq.mp ((isFieldList_stripFieldList pending n).trans h)
  have hlisted : ∀ m : Node, m.label.type = "field_declaration_list" → m.listed = none := by
    intro m hm
    apply listed_eq_none
    · rw [Label.isLayout, hm]
      rfl
    · rw [Label.isWrapper, hm]
      rfl
  refine .of_label ?_ (.inl (by rw [hlisted _ htype, hlisted _ htype']))
  cases n with
  | mk l cs => apply Label.bare_receive pending l

theorem remnants_convertBlock {n : Node} (h : n.isBlock) :
    Forall₂ Remnant n.children (n.convertBlock o .own none).1.children := by
  obtain ⟨front, list, behind, hsplit, hfront, hlist⟩ := exists_fieldList h
  cases n with
  | mk l cs =>
    rw [children] at hsplit
    subst hsplit
    rw [convertBlock_append o .own l hfront hlist, if_pos rfl]
    apply List.rel_append (remnants_replaceQualifierLayout o front)
    exact .cons (remnant_stripFieldList none hlist) (remnants_receiveAll _ behind)

theorem remnant_convertBlock {n : Node} (h : n.isBlock) (hl : ¬ n.label.isLayout) :
    Remnant n (n.convertBlock o .own none).1 := by
  have hchildren := remnants_convertBlock o h
  have hlabel := label_convertBlock o .own n
  generalize (n.convertBlock o .own none).1 = m at hchildren hlabel ⊢
  cases n with
  | mk l cs =>
    cases m with
    | mk l' ds =>
      cases hlabel
      exact .of_children hchildren rfl fun hl' => absurd hl' hl

theorem paramsLayout?_convertBlock (hmarker : o.marker ≠ "set") {preceding : List Node}
    {n layout : Node} (h : paramsLayout? o preceding n = .ok (some (.own, layout)))
    (outer : List Node) :
    paramsLayout? o outer (n.convertBlock o .own none).1 = .ok none := by
  obtain ⟨hblock, q, hq, hlayout⟩ := paramsLayout?_eq_some h
  have hq := firstQualifier?_eq_own hq
  obtain ⟨front, list, behind, hsplit, hfront, hlist⟩ := exists_fieldList hblock
  cases n with
  | mk l cs =>
    rw [children] at hsplit
    subst hsplit
    obtain ⟨hends, hcomment⟩ := endsQualifiers_of_isFieldList hlist
    obtain ⟨hends', hcomment'⟩ := endsQualifiers_of_isFieldList
      ((isFieldList_stripFieldList none list).trans hlist)
    rw [children, qualifiers_append_of_ends _ _ hcomment hends] at hq
    have hq' := head?_qualifiers_replaceQualifierLayout o front
    rw [hq, Option.map_some, ← qualifiers_append_of_ends _ _ hcomment' hends'] at hq'
    rw [convertBlock_append o .own l hfront hlist, if_pos rfl, paramsLayout?_eq_none_iff]
    intro _
    rw [firstQualifier?_snd, children, hq']
    apply marks_of_listed hmarker
    rw [listed_replaceLayout, listed, hlayout]
    rfl

end Node

end ShaderParams

import ShaderParams.Proofs.Agreement
import ShaderParams.Proofs.Members

/-!
This module contains that comments and trivia do not change the panel of a shader. A tree and the
same tree with comments have one skeleton, the conversions of an extraction keep it so, and the pass
goes through both trees in step.
-/

namespace ShaderParams

open List (Forall₂)

/-!
Trees with the same skeleton are converted to trees with the same skeleton, whatever trivia is on
its way.
-/

theorem Similar.mk {l l' : Label} {cs ds : List Node} (hlabel : l.core = l'.core)
    (hchildren : Node.skeletons cs = Node.skeletons ds) : Similar (.mk l cs) (.mk l' ds) := by
  rw [Similar, Node.skeleton, Node.skeleton, hlabel, hchildren]

theorem Label.core_eq_of_bare {l l' : Label} (h : l.bare = l'.bare) : l.core = l'.core := by
  have hcore : l.bare.core = l'.bare.core := congrArg core h
  exact hcore

theorem Label.core_receive (pending : Option String) (l : Label) :
    (l.receive pending).1.core = l.core :=
  core_eq_of_bare (bare_receive pending l)

theorem Similar.isRemark_eq {n m : Node} (h : Similar n m) : n.isRemark = m.isRemark := by
  rw [← Node.isRemark_skeleton n, ← Node.isRemark_skeleton m, h]

namespace Node

theorem skeletons_cons_congr {c d : Node} {cs ds : List Node} (h : Similar c d)
    (hs : skeletons cs = skeletons ds) : skeletons (c :: cs) = skeletons (d :: ds) := by
  rw [skeletons_cons, skeletons_cons, h.isRemark_eq, h, hs]

theorem skeletons_congr {cs ds : List Node} (h : Forall₂ Similar cs ds) :
    skeletons cs = skeletons ds := by
  induction h with
  | nil => rfl
  | cons h _ ih => exact skeletons_cons_congr h ih

end Node

namespace Similar

variable {n m : Node}

theorem skeleton (n : Node) : Similar n n.skeleton := (Node.skeleton_skeleton n).symm

mutual

theorem of_alike : (n : Node) → {m : Node} → Alike n m → Similar n m
  | .mk _ cs, _, .mk label _ children =>
    .mk (Label.core_eq_of_bare label) (Node.skeletons_congr (of_forall₂_alike cs children))

theorem of_forall₂_alike : (cs : List Node) → {ds : List Node} → Forall₂ Alike cs ds →
    Forall₂ Similar cs ds
  | [], [], .nil => .nil
  | c :: cs, _ :: _, .cons h hs => .cons (of_alike c h) (of_forall₂_alike cs hs)

end

theorem receive (h : Similar n m) (p q : Option String) :
    Similar (n.receive p).1 (m.receive q).1 := by
  have hn : Similar n (n.receive p).1 := of_alike n (.receive p n)
  have hm : Similar m (m.receive q).1 := of_alike m (.receive q m)
  exact hn.symm.trans (h.trans hm)

theorem inPlaceOf {old old' : Node} (h : Similar old old') (new : Node) :
    Similar (Node.inPlaceOf old new) (Node.inPlaceOf old' new) := by
  have hfield : old.label.field = old'.label.field := h.label_eq Label.field fun _ => rfl
  have hnew : Similar (new.setLeading old.leading) (new.setLeading old'.leading) := by
    rw [Node.setLeading_eq_receive, Node.setLeading_eq_receive]
    exact receive rfl _ _
  rw [Node.inPlaceOf, Node.inPlaceOf, hfield]
  generalize new.setLeading old.leading = x at hnew ⊢
  generalize new.setLeading old'.leading = y at hnew ⊢
  have hlabel := hnew.core_label
  have hchildren := hnew.children
  cases x with
  | mk l cs =>
    cases y with
    | mk l' ds =>
      have hrole (l : Label) : ({ l with field := l.field <|> old'.label.field } : Label).core =
          { l.core with field := l.core.field <|> old'.label.field } := rfl
      refine .mk ?_ hchildren
      rw [hrole, hrole, show l.core = l'.core from hlabel]

theorem stripField (h : Similar n m) (p q : Option String) :
    Similar (n.stripField p).1 (m.stripField q).1 := by
  have hskeleton (n : Node) (p : Option String) : (n.stripField p).1.skeleton =
      .mk n.label.core (unqualified Node.label (Node.skeletons n.children)) := by
    cases n with
    | mk l cs =>
      have hkept : Forall₂ Alike (unqualified Node.label cs)
          (Node.dropMarked (l.receive p).2 (markQualifiers Node.label cs)).1 :=
        Node.forall₂_dropMarked _ _
      change Node.skeleton (.mk (l.receive p).1
        (Node.dropMarked (l.receive p).2 (markQualifiers Node.label cs)).1) = _
      rw [Node.skeleton, Label.core_receive, ← Node.skeletons_congr (of_forall₂_alike _ hkept),
        ← Node.unqualified_skeletons]
      rfl
  rw [Similar, hskeleton, hskeleton, h.core_label, h.children]

theorem stripMember (h : Similar n m) (p q : Option String) :
    Similar (n.stripMember p).1 (m.stripMember q).1 := by
  rw [Node.stripMember, Node.stripMember, Node.isField, Node.isField, h.type_eq]
  split
  · exact h.stripField p q
  · exact h.receive p q

end Similar

namespace Node

theorem isRemark_receive {n : Node} (h : n.isRemark) (p : Option String) :
    (n.receive p).1.isRemark := by
  rwa [← (Similar.of_alike n (.receive p n)).isRemark_eq]

theorem isRemark_leaf {l : Label} (h : l.isRemark) : (mk l []).isRemark := by
  rw [isRemark, skeleton, Bool.and_eq_true]
  exact ⟨h, rfl⟩

theorem isField_of_isRemark {n : Node} (h : n.isRemark) : n.isField = false := by
  rw [isField, type_of_isRemark h]
  decide

theorem isFieldList_of_isRemark {n : Node} (h : n.isRemark) : n.label.isFieldList = false := by
  have htype : n.label.type = "comment" := type_of_isRemark h
  rw [Label.isFieldList, htype]
  decide

theorem skeletons_stripMembers (cs : List Node) (p q : Option String) :
    skeletons (stripMembers p cs).1 = skeletons (stripMembers q (skeletons cs)).1 := by
  induction cs generalizing p q with
  | nil => rfl
  | cons c cs ih =>
    rw [stripMembers_cons, skeletons_cons c]
    by_cases hc : c.isRemark
    · have hc' : (c.stripMember p).1.isRemark := by
        rw [stripMember, isField_of_isRemark hc]
        exact isRemark_receive hc p
      rw [if_pos hc, skeletons_cons, if_pos hc']
      exact ih _ q
    · rw [if_neg hc, stripMembers_cons]
      exact skeletons_cons_congr ((Similar.skeleton c).stripMember p q) (ih _ _)

theorem skeletons_receiveAll (p : Option String) (cs : List Node) :
    skeletons (stripFirstFieldList.receiveAll p cs).1 = skeletons cs := by
  induction cs generalizing p with
  | nil => rfl
  | cons c cs ih => exact skeletons_cons_congr (Similar.receive rfl p none) (ih _)

end Node

theorem Similar.stripFieldList {n m : Node} (h : Similar n m) (p q : Option String) :
    Similar (n.stripFieldList p).1 (m.stripFieldList q).1 := by
  have hskeleton (n : Node) (p : Option String) : (n.stripFieldList p).1.skeleton =
      .mk n.label.core (Node.skeletons (Node.stripMembers none (Node.skeletons n.children)).1) := by
    cases n with
    | mk l cs =>
      change Node.skeleton (.mk (l.receive p).1 (Node.stripMembers (l.receive p).2 cs).1) = _
      rw [Node.skeleton, Label.core_receive, Node.skeletons_stripMembers cs _ none]
      rfl
  rw [Similar, hskeleton, hskeleton, h.core_label, h.children]

namespace Node

theorem skeletons_stripFirstFieldList (cs : List Node) (p q : Option String) :
    skeletons (stripFirstFieldList p cs).1 =
      skeletons (stripFirstFieldList q (skeletons cs)).1 := by
  induction cs generalizing p q with
  | nil => rfl
  | cons c cs ih =>
    rw [stripFirstFieldList, skeletons_cons c]
    by_cases hc : c.isRemark
    · rw [if_neg (by simp [isFieldList_of_isRemark hc]), if_pos hc]
      rw [skeletons_cons, if_pos (isRemark_receive hc p)]
      exact ih _ q
    · have hlist : c.skeleton.label.isFieldList = c.label.isFieldList := by
        rw [label_skeleton]
        rfl
      rw [if_neg hc, stripFirstFieldList, hlist]
      split
      · apply skeletons_cons_congr ((Similar.skeleton c).stripFieldList p q)
        rw [skeletons_receiveAll, skeletons_receiveAll, skeletons_skeletons]
      · exact skeletons_cons_congr ((Similar.skeleton c).receive p q) (ih _ _)

section

variable (new : Node)

mutual

theorem similar_replaceLayout : (q : Node) →
    Similar (replaceLayout new q) (replaceLayout new q.skeleton)
  | mk l cs => by
    have hcs := skeletons_replaceFirstLayout cs
    have hlayout : l.core.isLayout = l.isLayout := rfl
    have hwrapper : l.core.isWrapper = l.isWrapper := rfl
    rw [skeleton, replaceLayout, replaceLayout, hlayout, hwrapper]
    split
    · refine Similar.inPlaceOf (.mk ?_ ?_) new
      · rw [Label.core_core]
      · rw [skeletons_skeletons]
    · split
      · refine .mk ?_ hcs
        rw [Label.core_core]
      · exact Similar.skeleton (mk l cs)

theorem skeletons_replaceFirstLayout : (cs : List Node) →
    skeletons (replaceFirstLayout new cs) = skeletons (replaceFirstLayout new (skeletons cs))
  | [] => rfl
  | c :: cs => by
    have hc := similar_replaceLayout c
    have hcs := skeletons_replaceFirstLayout cs
    rw [replaceFirstLayout, skeletons_cons c]
    by_cases hremark : c.isRemark
    · rw [if_pos (isComment_of_isRemark hremark), if_pos hremark, skeletons_cons, if_pos hremark,
        hcs]
    · rw [if_neg hremark, replaceFirstLayout, isComment_skeleton]
      split
      · exact skeletons_cons_congr (Similar.skeleton c) hcs
      · exact skeletons_cons_congr hc (skeletons_skeletons cs).symm

end

theorem skeletons_replaceQualifierLayout (cs : List Node) :
    skeletons (replaceQualifierLayout new cs) =
      skeletons (replaceQualifierLayout new (skeletons cs)) := by
  induction cs with
  | nil => rfl
  | cons c cs ih =>
    have hkeep : skeletons (c :: cs) = skeletons (c.skeleton :: skeletons cs) :=
      skeletons_cons_congr (Similar.skeleton c) (skeletons_skeletons cs).symm
    have hstep : skeletons (c :: replaceQualifierLayout new cs) =
        skeletons (c.skeleton :: replaceQualifierLayout new (skeletons cs)) :=
      skeletons_cons_congr (Similar.skeleton c) ih
    rw [replaceQualifierLayout_cons, skeletons_cons c]
    by_cases hremark : c.isRemark
    · rw [if_pos (isComment_of_isRemark hremark), if_pos hremark, skeletons_cons, if_pos hremark,
        ih]
    · rw [if_neg hremark, replaceQualifierLayout_cons, isComment_skeleton, endsQualifiers_skeleton,
        isQualifier_skeleton]
      split
      · exact hstep
      · split
        · exact hkeep
        · split
          · exact skeletons_cons_congr (similar_replaceLayout new c) (skeletons_skeletons cs).symm
          · exact hstep

theorem replaceQualifierLayout_congr {cs ds : List Node} (h : skeletons cs = skeletons ds) :
    skeletons (replaceQualifierLayout new cs) = skeletons (replaceQualifierLayout new ds) := by
  rw [skeletons_replaceQualifierLayout, skeletons_replaceQualifierLayout new ds, h]

end

end Node

theorem Similar.convertBlock {n m : Node} (h : Similar n m) (o : Options) (place : QualifierPlace)
    (p q : Option String) :
    Similar (n.convertBlock o place p).1 (m.convertBlock o place q).1 := by
  have hskeleton (n : Node) (p : Option String) : (n.convertBlock o place p).1.skeleton =
      (n.skeleton.convertBlock o place none).1.skeleton := by
    cases n with
    | mk l cs =>
      have hcs := Node.skeletons_stripFirstFieldList cs (l.receive p).2 none
      have hlabel : (l.receive p).1.core = l.core.core := by
        rw [Label.core_receive, Label.core_core]
      cases place with
      | own => exact Similar.mk hlabel (Node.replaceQualifierLayout_congr o.layout hcs)
      | preceding => exact Similar.mk hlabel hcs
  rw [Similar, hskeleton, hskeleton m, h]

/-!
What the pass looks for is found in trees with the same skeleton alike.
-/

namespace Node

theorem isFieldList_skeleton (n : Node) : n.skeleton.label.isFieldList = n.label.isFieldList := by
  rw [label_skeleton]
  rfl

theorem isBlock_skeleton (n : Node) : n.skeleton.isBlock = n.isBlock := by
  rw [isBlock, isBlock, children_skeleton,
    any_skeletons isFieldList_skeleton (fun _ => isFieldList_of_isRemark)]
  rw [any_skeletons (p := fun c => c.type == "struct") (by simp)
    (fun c hc => by simp [type_of_isRemark hc])]

theorem fields_skeleton (n : Node) : n.skeleton.fields = n.fields.map skeleton := by
  rw [fields, fields, children_skeleton,
    find?_skeletons isFieldList_skeleton (fun _ => isFieldList_of_isRemark)]
  cases n.children.find? fun c => c.label.isFieldList with
  | none => rfl
  | some list =>
    simp only [Option.map_some, children_skeleton]
    apply map_filter_skeletons
    · intro c
      rw [isField, isField, type_skeleton]
    · intro c hc
      exact isField_of_isRemark hc

end Node

theorem firstQualifier?_similar {n m : Node} (h : Similar n m) {preceding preceding' : List Node}
    (hpreceding : Node.skeletons preceding = Node.skeletons preceding') :
    Option.Rel (fun q r => q.1 = r.1 ∧ Similar q.2 r.2) (firstQualifier? preceding n)
      (firstQualifier? preceding' m) := by
  have hown := qualifiers_similar h.children
  have hfront := qualifiers_similar hpreceding
  rw [firstQualifier?, firstQualifier?]
  generalize qualifiers Node.label n.children = qs at hown ⊢
  generalize qualifiers Node.label m.children = rs at hown ⊢
  generalize qualifiers Node.label preceding = qs' at hfront ⊢
  generalize qualifiers Node.label preceding' = rs' at hfront ⊢
  cases hown with
  | cons hq _ => exact .some ⟨rfl, hq⟩
  | nil =>
    cases hfront with
    | cons hq _ => exact .some ⟨rfl, hq⟩
    | nil => exact .none

/-- The node whose text is read to tell whether a node is the params block. -/
def markerTexts (preceding : List Node) (n : Node) : List Node :=
  if n.isBlock then
    ((firstQualifier? preceding n).bind fun q => q.2.layout?).toList.flatMap fun layout =>
      (layout.layoutEntries.toOption.bind List.head?).toList.map LayoutEntry.node
  else
    []

theorem paramsLayout?_agree (o : Options) {n m : Node} (h : Similar n m)
    {preceding preceding' : List Node}
    (hpreceding : Node.skeletons preceding = Node.skeletons preceding')
    (htexts : ∀ c ∈ markerTexts preceding n, c.isToken) :
    Agree (Option.Rel fun x y => x.1 = y.1) (paramsLayout? o preceding n)
      (paramsLayout? o preceding' m) := by
  have hblock : n.isBlock = m.isBlock := by
    rw [← Node.isBlock_skeleton, ← Node.isBlock_skeleton m, h]
  have hqualifier := firstQualifier?_similar h hpreceding
  rw [markerTexts] at htexts
  rw [paramsLayout?, paramsLayout?, ← hblock]
  split
  · next hn =>
    rw [if_pos hn] at htexts
    generalize firstQualifier? preceding n = x at hqualifier htexts ⊢
    generalize firstQualifier? preceding' m = y at hqualifier ⊢
    cases hqualifier with
    | none => exact .ok .none
    | @some q r hqr =>
      obtain ⟨hplace, hqr⟩ := hqr
      have hlayout := hqr.layout?
      rw [Option.bind_some] at htexts
      simp only
      generalize q.2.layout? = x at hlayout htexts ⊢
      generalize r.2.layout? = y at hlayout ⊢
      cases hlayout with
      | none => exact .ok .none
      | @some layout layout' hlayout =>
        apply Agree.bind hlayout.layoutEntries
        intro es es' hes hsimilar
        simp only [Option.toList_some, List.flatMap_cons, List.flatMap_nil, List.append_nil, hes,
          Except.toOption, Option.bind_some] at htexts
        have hmarked : (es.head?.any fun e => e.name == o.marker) =
            es'.head?.any fun e => e.name == o.marker := by
          cases hsimilar with
          | nil => rfl
          | @cons e e' es es' he _ =>
            have hname := he.name_eq (htexts e.node (by simp))
            simp only [List.head?_cons, Option.any_some, hname]
        rw [← hmarked]
        split
        · exact .ok (.some hplace)
        · exact .ok .none
  · exact .ok .none

structure Node.Fielded (n : Node) : Prop extends n.Applied where
  member : n.type = "field_expression" →
    (n.childByField? "argument").isSome ∧ (n.childByField? "field").isSome

instance (n : Node) : Decidable n.Fielded :=
  decidable_of_iff
    (n.Applied ∧ (n.type = "field_expression" →
      (n.childByField? "argument").isSome ∧ (n.childByField? "field").isSome))
    ⟨fun h => ⟨h.1, h.2⟩, fun h => ⟨h.toApplied, h.member⟩⟩

def boundTexts (n : Node) : List Node :=
  if n.type == "field_expression" then
    match n.childByField? "argument", n.childByField? "field" with
    | some argument, some member =>
      if argument.type == "identifier" then
        member :: if member.text = "min" ∨ member.text = "max" then [argument] else []
      else
        []
    | _, _ => []
  else
    []

theorem namedBound?_of_ne (sliders : List Slider) (slider : String) {member : String}
    (h : ¬(member = "min" ∨ member = "max")) : namedBound? sliders slider member = none := by
  rw [not_or] at h
  rw [namedBound?]
  split
  · rw [if_neg h.1, if_neg h.2]
  · rfl

theorem boundAt?_agree (sliders : List Slider) {n m : Node} (h : Similar n m) (hn : n.Fielded)
    (htexts : ∀ c ∈ boundTexts n, c.isToken) :
    Agree Eq (boundAt? sliders n) (boundAt? sliders m) := by
  rw [boundTexts] at htexts
  rw [boundAt?, boundAt?, ← h.type_eq]
  split
  · next htype =>
    obtain ⟨hargument, hmember⟩ := hn.member (by simpa using htype)
    obtain ⟨argument, argument', hn, hm, hsimilar⟩ := h.exists_childByField? hargument
    obtain ⟨member, member', hn', hm', hsimilar'⟩ := h.exists_childByField? hmember
    rw [if_pos htype] at htexts
    simp only [hn, hn'] at htexts
    simp only [hn, hn', hm, hm', Option.orElse_eq_orElse, Option.orElse_some]
    rw [← hsimilar.type_eq]
    split
    · next hidentifier =>
      rw [if_pos hidentifier, List.forall_mem_cons] at htexts
      obtain ⟨hmember, hargument⟩ := htexts
      rw [← hsimilar'.text_eq hmember]
      by_cases hbound : member.text = "min" ∨ member.text = "max"
      · rw [if_pos hbound] at hargument
        rw [← hsimilar.text_eq (hargument argument List.mem_cons_self)]
        exact .ok rfl
      · -- Whatever the argument is called, the member is none of the bounds.
        rw [namedBound?_of_ne sliders _ hbound, namedBound?_of_ne sliders _ hbound]
        exact .ok rfl
    · exact .ok rfl
  · exact .ok rfl

def macroTexts (n : Node) : List Node :=
  if n.type == "preproc_def" then (n.childByField? "name").toList else []

theorem Similar.defines {n m : Node} (h : Similar n m) (htexts : ∀ c ∈ macroTexts n, c.isToken)
    (macroName : String) : n.defines macroName = m.defines macroName := by
  have hname := h.childByField? "name"
  rw [macroTexts] at htexts
  rw [Node.defines, Node.defines, ← h.type_eq]
  cases htype : n.type == "preproc_def" with
  | false => rfl
  | true =>
    rw [if_pos htype] at htexts
    generalize n.childByField? "name" = x at hname htexts ⊢
    generalize m.childByField? "name" = y at hname ⊢
    cases hname with
    | none => rfl
    | some hname =>
      simp only [Option.any_some, hname.text_eq (htexts _ (by simp))]

/-!
Going through a tree and the same tree with comments.
-/

mutual

/--
The nodes whose texts the pass compares in a node, as far as it comes.
-/
def compared (o : Options) (preceding : List Node) (p : Progress) : Node → List Node
  | .mk l cs =>
    markerTexts preceding (.mk l cs) ++
      match paramsLayout? o preceding (.mk l cs) with
      | .error _ => []
      | .ok (some _) => if p.found then [] else fieldTexts (Node.mk l cs).fields
      | .ok none =>
        boundTexts (.mk l cs) ++
          match boundAt? p.sliders (.mk l cs) with
          | .ok none =>
            macroTexts (.mk l cs) ++ comparedAmong o [] (p.enter o (.mk l cs)) cs
          | _ => []

def comparedAmong (o : Options) (done : List Node) (p : Progress) : List Node → List Node
  | [] => []
  | c :: cs =>
    compared o done p c ++
      match (visit o done p c).result with
      | .error _ => []
      | .ok v =>
        let done := if v.relayout then Node.replaceQualifierLayout o.layout done else done
        comparedAmong o (done ++ [v.node]) v.progress cs

end

mutual

/--
A tree with any comments between its nodes and other trivia and positions.
-/
inductive Commented : Node → Node → Prop where
  | mk {l l' : Label} {cs ds : List Node} (label : l.core = l'.core)
      (children : CommentedAll cs ds) : Commented (.mk l cs) (.mk l' ds)

inductive CommentedAll : List Node → List Node → Prop where
  | nil : CommentedAll [] []
  | keep {c d : Node} {cs ds : List Node} (head : Commented c d) (tail : CommentedAll cs ds) :
      CommentedAll (c :: cs) (d :: ds)
  | insert {l : Label} {cs ds : List Node} (comment : l.isRemark) (tail : CommentedAll cs ds) :
      CommentedAll cs (.mk l [] :: ds)

end

mutual

theorem Commented.similar : (m : Node) → {n : Node} → Commented n m → Similar n m
  | .mk _ ds, _, .mk label children => .mk label (CommentedAll.skeletons_eq ds children)

theorem CommentedAll.skeletons_eq : (ds : List Node) → {cs : List Node} → CommentedAll cs ds →
    Node.skeletons cs = Node.skeletons ds
  | [], _, .nil => rfl
  | d :: ds, _, .keep head tail =>
    Node.skeletons_cons_congr (Commented.similar d head) (CommentedAll.skeletons_eq ds tail)
  | .mk l [] :: ds, _, .insert comment tail => by
    rw [Node.skeletons_cons, if_pos (Node.isRemark_leaf comment)]
    exact CommentedAll.skeletons_eq ds tail

end

/-- Two states of the pass that differ at most in the trivia on its way. -/
structure Progress.Similar (p q : Progress) : Prop where
  sliders : p.sliders = q.sliders
  found : p.found = q.found
  stillImage : p.stillImage = q.stillImage

structure Visited.Similar (v w : Visited) : Prop where
  node : ShaderParams.Similar v.node w.node
  relayout : v.relayout = w.relayout
  progress : v.progress.Similar w.progress

/-- The pass does not notice a comment. -/
theorem visit_leaf (o : Options) (preceding : List Node) (p : Progress) {l : Label}
    (h : l.isRemark) : ∃ v, visit o preceding p (.mk l []) = pure v ∧ v.node.isRemark ∧
      v.relayout = false ∧ p.Similar v.progress := by
  have hremark := Node.isRemark_leaf h
  have htype : (Node.mk l []).type = "comment" := Node.type_of_isRemark hremark
  have hdefines : (Node.mk l []).defines o.stillImageMacro = false := by
    rw [Node.defines, htype]
    rfl
  rw [visit_of_children (paramsLayout?_of_not_isBlock o preceding rfl)
    (boundAt?_of_type_ne p.sliders (by simp [htype])), Node.children, visitAll_nil, pure_bind]
  refine ⟨_, rfl, ?_, rfl, rfl, rfl, ?_⟩
  · have hsimilar : Similar (.mk l []) (.mk (l.receive p.pending).1 []) :=
      .mk (Label.core_receive p.pending l).symm rfl
    exact hsimilar.isRemark_eq ▸ hremark
  · simp [Progress.enter, hdefines]

theorem leaveNode_similar {n m : Node} (h : Similar n m) {p q : Progress} (hp : p.Similar q) :
    (leaveNode n p).Similar (leaveNode m q) where
  node := h.receive p.pending q.pending
  relayout := rfl
  progress := ⟨hp.sliders, hp.found, hp.stillImage⟩

theorem putLiteral_similar (x : Double) {n m : Node} (h : Similar n m) {p q : Progress}
    (hp : p.Similar q) : (putLiteral x n p).Similar (putLiteral x m q) where
  node := (h.receive p.pending q.pending).inPlaceOf (.ofDouble x)
  relayout := rfl
  progress := ⟨hp.sliders, hp.found, hp.stillImage⟩

theorem skipBlock_agree {n m : Node} (h : Similar n m) {p q : Progress} (hp : p.Similar q) :
    Agree Visited.Similar (skipBlock n p).result (skipBlock m q).result := by
  have hstart : n.label.start.isSome = m.label.start.isSome := by
    apply h.label_eq fun l => l.start.isSome
    intro l
    simp [Label.core]
  rw [skipBlock, skipBlock]
  cases hn : n.label.start with
  | none =>
    cases hm : m.label.start with
    | none => exact .error rfl
    | some start => simp [hn, hm] at hstart
  | some start =>
    cases hm : m.label.start with
    | none => simp [hn, hm] at hstart
    | some start' => exact .ok (leaveNode_similar h hp)

theorem takeBlock_agree (o : Options) (place : QualifierPlace) {n m : Node} (h : Similar n m)
    {p q : Progress} (hp : p.Similar q) (hn : ∀ x ∈ n.walk, x.Fielded)
    (htexts : ∀ c ∈ fieldTexts n.fields, c.isToken) :
    Agree Visited.Similar (takeBlock o place n p).result (takeBlock o place m q).result := by
  have hfields : Forall₂ Similar n.fields m.fields := by
    apply Similar.list
    rw [← Node.fields_skeleton, ← Node.fields_skeleton, h]
  have happlied : ∀ f ∈ n.fields, ∀ x ∈ f.walk, x.Applied := by
    intro f hf x hx
    exact (hn x (Node.walk_subset n (Node.mem_walk_of_mem_fields hf) x hx)).toApplied
  rw [takeBlock, takeBlock]
  apply Agree.result_bind (mapM_ofField_agree hfields happlied htexts)
  rintro sliders _ - rfl
  refine .ok ⟨h.convertBlock o place p.pending q.pending, rfl, ?_, rfl, hp.stillImage⟩
  change p.sliders ++ sliders = q.sliders ++ sliders
  rw [hp.sliders]

theorem enter_similar (o : Options) {n m : Node} (h : Similar n m)
    (htexts : ∀ c ∈ macroTexts n, c.isToken) {p q : Progress} (hp : p.Similar q) :
    (p.enter o n).Similar (q.enter o m) := by
  refine ⟨hp.sliders, hp.found, ?_⟩
  simp only [Progress.enter]
  rw [hp.stillImage, h.defines htexts]

/-!
The recursion is on the tree with comments, in which every node is one of the other tree or a
comment that the pass does not notice. The nodes in front of both are already converted, and have
the same skeletons.
-/

mutual

theorem visit_commented (o : Options) : (m : Node) → {n : Node} → Commented n m →
    {preceding preceding' : List Node} →
    Node.skeletons preceding = Node.skeletons preceding' → {p q : Progress} → p.Similar q →
    (∀ x ∈ n.walk, x.Fielded) → (∀ c ∈ compared o preceding p n, c.isToken) →
    Agree Visited.Similar (visit o preceding p n).result (visit o preceding' q m).result
  | .mk l' ds, .mk l cs, .mk label children, preceding, preceding' => by
    intro hpreceding p q hp hn htexts
    have h : Similar (.mk l cs) (.mk l' ds) := (Commented.mk label children).similar
    rw [compared, List.forall_mem_append] at htexts
    obtain ⟨hmarker, htexts⟩ := htexts
    rw [visit_eq, visit_eq]
    apply Agree.result_bind (paramsLayout?_agree o h hpreceding hmarker)
    intro layout layout' hlayout hplace
    change paramsLayout? o preceding (.mk l cs) = .ok layout at hlayout
    rw [hlayout] at htexts
    cases hplace with
    | @some x y hplace =>
      simp only [← hplace, ← hp.found]
      split
      · exact skipBlock_agree h hp
      · next hfound =>
        simp only [hfound, Bool.false_eq_true, ↓reduceIte] at htexts
        exact takeBlock_agree o x.1 h hp hn htexts
    | none =>
      simp only [List.forall_mem_append] at htexts
      obtain ⟨hbound, htexts⟩ := htexts
      simp only [← hp.sliders]
      apply Agree.result_bind (boundAt?_agree p.sliders h (hn _ (Node.self_mem_walk _)) hbound)
      rintro bound _ hbound rfl
      change boundAt? p.sliders (.mk l cs) = .ok bound at hbound
      rw [hbound] at htexts
      cases bound with
      | some x => exact .ok (putLiteral_similar x h hp)
      | none =>
        simp only [List.forall_mem_append] at htexts
        obtain ⟨hdefined, htexts⟩ := htexts
        have hcs : ∀ c ∈ cs, ∀ x ∈ c.walk, x.Fielded :=
          fun c hc x hx => hn x (Node.walk_subset_of_mem hc hx)
        apply Agree.result_bind
          (visitAll_commented o ds children rfl (enter_similar o h hdefined hp) hcs htexts)
        intro r r' _ hr
        refine .ok ⟨.mk ?_ hr.1, rfl, hr.2⟩
        rw [Label.core_receive, Label.core_receive]
        exact label

theorem visitAll_commented (o : Options) : (ds : List Node) → {cs : List Node} →
    CommentedAll cs ds → {done done' : List Node} →
    Node.skeletons done = Node.skeletons done' → {p q : Progress} → p.Similar q →
    (∀ c ∈ cs, ∀ x ∈ c.walk, x.Fielded) → (∀ c ∈ comparedAmong o done p cs, c.isToken) →
    Agree (fun r r' => Node.skeletons r.1 = Node.skeletons r'.1 ∧ r.2.Similar r'.2)
      (visitAll o done p cs).result (visitAll o done' q ds).result
  | [], _, .nil, done, done' => by
    intro hdone p q hp hcs htexts
    rw [visitAll_nil, visitAll_nil]
    exact .ok ⟨hdone, hp⟩
  | d :: ds, c :: cs, .keep head tail, done, done' => by
    intro hdone p q hp hcs htexts
    obtain ⟨hc, hcs⟩ := List.forall_mem_cons.mp hcs
    rw [comparedAmong, List.forall_mem_append] at htexts
    rw [visitAll_cons, visitAll_cons]
    apply Agree.result_bind (visit_commented o d head hdone hp hc htexts.1)
    intro v w hv hvw
    rw [hv] at htexts
    refine visitAll_commented o ds tail ?_ hvw.progress hcs htexts.2
    have hlast : Node.skeletons [v.node] = Node.skeletons [w.node] :=
      Node.skeletons_cons_congr hvw.node rfl
    rw [Node.skeletons_append, Node.skeletons_append, hlast, ← hvw.relayout]
    split
    · rw [Node.replaceQualifierLayout_congr o.layout hdone]
    · rw [hdone]
  | .mk l [] :: ds, cs, .insert comment tail, done, done' => by
    intro hdone p q hp hcs htexts
    obtain ⟨v, hv, hremark, hrelayout, hprogress⟩ := visit_leaf o done' q comment
    have hq : p.Similar v.progress :=
      ⟨hp.sliders.trans hprogress.sliders, hp.found.trans hprogress.found,
        hp.stillImage.trans hprogress.stillImage⟩
    rw [visitAll_cons, hv, pure_bind]
    refine visitAll_commented o ds tail ?_ hq hcs htexts
    have hlast : Node.skeletons [v.node] = [] := by
      rw [Node.skeletons_cons, if_pos hremark]
      rfl
    -- The comment joins the nodes in front only on one side, and leaves no trace in the skeletons.
    rw [hrelayout, Node.skeletons_append, hlast, List.append_nil]
    exact hdone

end

/--
Comments and trivia do not change the panel of a shader, nor whether and how it is rejected, where
the texts that are compared are those of tokens and the parts of expressions can be told apart.
-/
theorem extract_commented (o : Options) (source source' : String) {d d' : Document}
    (h : Commented d.root d'.root) (hfielded : ∀ n ∈ d.root.walk, n.Fielded)
    (hcompared : ∀ n ∈ compared o [] {} d.root, n.isToken) :
    Agree (fun e e' => e.panel = e'.panel) (extract o source d).result
      (extract o source' d').result := by
  rw [extract, extract]
  apply Agree.result_bind
    (visit_commented o d'.root h rfl ⟨rfl, rfl, rfl⟩ hfielded hcompared)
  intro v w _ hvw
  refine .ok ?_
  simp only [hvw.progress.sliders, hvw.progress.stillImage]

def remarkedTree (remarks : List Node) (space : String) : Node :=
  .branch "translation_unit" [
    .branch "preproc_def" (
      .symbol "#define" "\n" :: remarks ++
        [.token "identifier" "NUANCE_STILL_IMAGE" " " (some "name")]),
    .branch "declaration" (remarks ++ [
      layout [.token "identifier" "params"],
      .branch "field_declaration_list" (remarks ++ [
        field [.token "identifier" "min", .symbol "=", negative] "float" "gain",
        field [.token "identifier" "init", .symbol "=", tint] "vec3" "tint"])]),
    .branch "field_expression" (
      .token "identifier" "gain" space (some "argument") :: .symbol "." :: remarks ++
        [.token "field_identifier" "min" "" (some "field")])]
where
  layout (entry : List Node) : Node :=
    .branch "layout_specification" (
      .symbol "(" space :: remarks ++ [.branch "qualifier" (remarks ++ entry), .symbol ")"])
  field (setting : List Node) (type name : String) : Node :=
    .branch "field_declaration" (
      remarks ++ [layout setting, .token "primitive_type" type, .token "field_identifier" name])
  negative : Node :=
    .branch "unary_expression" (
      .symbol "-" space (some "operator") :: remarks ++
        [.token "number_literal" "2.5" "" (some "argument")])
  tint : Node :=
    .branch "call_expression" [
      .token "identifier" "vec3" "" (some "function"),
      .branch "argument_list" (
        .token "number_literal" "0" space :: remarks ++
          [.token "number_literal" "1" " ", .token "number_literal" "2" " "])
        (some "arguments")]

theorem extract_commented_remarkedTree :
    Commented (remarkedTree [] " ") (remarkedTree [.token "comment" "/* - */" " "] "\n") ∧
      (∀ n ∈ (remarkedTree [] " ").walk, n.Fielded) ∧
      (∀ n ∈ compared {} [] {} (remarkedTree [] " "), n.isToken) ∧
      (extract {} "" ⟨remarkedTree [] " ", ""⟩).result.isOk ∧
      Agree (fun e e' => e.panel = e'.panel) (extract {} "" ⟨remarkedTree [] " ", ""⟩).result
        (extract {} "" ⟨remarkedTree [.token "comment" "/* - */" " "] "\n", ""⟩).result := by
  have h : Commented (remarkedTree [] " ")
      (remarkedTree [.token "comment" "/* - */" " "] "\n") := by
    -- A node is inserted where it is a comment, and kept otherwise.
    repeat' first | refine .insert rfl ?_ | constructor
  have hfielded : ∀ n ∈ (remarkedTree [] " ").walk, n.Fielded := by decide +kernel
  have hcompared : ∀ n ∈ compared {} [] {} (remarkedTree [] " "), n.isToken := by decide +kernel
  have hok : (extract {} "" ⟨remarkedTree [] " ", ""⟩).result.isOk := by decide +kernel
  exact ⟨h, hfielded, hcompared, hok, extract_commented {} "" "" h hfielded hcompared⟩

end ShaderParams

import ShaderParams.Proofs.Reading

/-!
This module contains the skeleton of a syntax tree, which is what remains of it without comments,
trivia and positions, and that the shape of what is read off a tree is the same in its skeleton.
-/

namespace ShaderParams

namespace Label

/-- A label without trivia; of its position only whether there is one. -/
def core (l : Label) : Label :=
  { l with leading := "", start := l.start.map fun _ => ⟨0, 0⟩ }

@[simp]
theorem core_type (l : Label) : l.core.type = l.type := rfl

@[simp]
theorem core_text (l : Label) : l.core.text = l.text := rfl

@[simp]
theorem core_field (l : Label) : l.core.field = l.field := rfl

@[simp]
theorem core_named (l : Label) : l.core.named = l.named := rfl

@[simp]
theorem core_core (l : Label) : l.core.core = l.core := by
  simp [core, Function.comp_def]

/-- Whether the node is a comment that plays no role in its parent. -/
def isRemark (l : Label) : Bool :=
  l.isComment && l.isToken && l.field.isNone

end Label

namespace Node

mutual

/--
A tree without remarks, trivia and positions.
-/
def skeleton : Node → Node
  | mk l cs => mk l.core (skeletons cs)

/-- A sequence of trees without remarks, trivia and positions. -/
def skeletons : List Node → List Node
  | [] => []
  | c :: cs =>
    if c.label.isRemark && c.skeleton.children.isEmpty then
      skeletons cs
    else
      c.skeleton :: skeletons cs

end

/-- Whether a tree is a remark: a comment without anything but remarks below it. -/
def isRemark (n : Node) : Bool :=
  n.label.isRemark && n.skeleton.children.isEmpty

@[simp]
theorem label_skeleton (n : Node) : n.skeleton.label = n.label.core := by
  cases n with
  | mk l cs => rw [skeleton, label, label]

@[simp]
theorem children_skeleton (n : Node) : n.skeleton.children = skeletons n.children := by
  cases n with
  | mk l cs => rw [skeleton, children, children]

@[simp]
theorem type_skeleton (n : Node) : n.skeleton.type = n.type := by
  simp [type]

@[simp]
theorem isToken_skeleton (n : Node) : n.skeleton.isToken = n.isToken := by
  simp [isToken, Label.isToken]

theorem skeletons_cons (c : Node) (cs : List Node) :
    skeletons (c :: cs) = if c.isRemark then skeletons cs else c.skeleton :: skeletons cs := by
  rw [skeletons, isRemark]

section

variable {n : Node} (h : n.isRemark)

include h

theorem isComment_of_isRemark : n.label.isComment = true := by
  simp only [isRemark, Label.isRemark, Bool.and_eq_true] at h
  exact h.1.1.1

theorem isToken_of_isRemark : n.isToken = true := by
  simp only [isRemark, Label.isRemark, Bool.and_eq_true] at h
  exact h.1.1.2

theorem field_of_isRemark : n.label.field = none := by
  simp only [isRemark, Label.isRemark, Bool.and_eq_true, Option.isNone_iff_eq_none] at h
  exact h.1.2

theorem type_of_isRemark : n.type = "comment" := by
  simpa [Label.isComment, type] using isComment_of_isRemark h

theorem skeletons_children_of_isRemark : skeletons n.children = [] := by
  simp only [isRemark, Bool.and_eq_true, List.isEmpty_iff, children_skeleton] at h
  exact h.2

end

theorem skeletons_append (cs ds : List Node) :
    skeletons (cs ++ ds) = skeletons cs ++ skeletons ds := by
  induction cs with
  | nil => rfl
  | cons c cs ih =>
    rw [List.cons_append, skeletons_cons, skeletons_cons, ih]
    split <;> rfl

theorem skeletons_eq_map {cs : List Node} (h : ∀ c ∈ cs, c.isRemark = false) :
    skeletons cs = cs.map skeleton := by
  induction cs with
  | nil => rfl
  | cons c cs ih =>
    obtain ⟨hc, hcs⟩ := List.forall_mem_cons.mp h
    rw [skeletons_cons, hc, if_neg Bool.false_ne_true, ih hcs, List.map_cons]

mutual

theorem skeleton_skeleton : (n : Node) → n.skeleton.skeleton = n.skeleton
  | mk l cs => by
    rw [skeleton, skeleton, Label.core_core, skeletons_skeletons cs]

theorem skeletons_skeletons : (cs : List Node) → skeletons (skeletons cs) = skeletons cs
  | [] => rfl
  | c :: cs => by
    have hc := skeleton_skeleton c
    have hcs := skeletons_skeletons cs
    rw [skeletons_cons]
    split
    · exact hcs
    · next hremark =>
      have hlabel : c.skeleton.label.isRemark = c.label.isRemark := by
        rw [label_skeleton]
        rfl
      rw [isRemark] at hremark
      rw [skeletons_cons, isRemark, hlabel, hc, if_neg hremark, hcs]

end

theorem isRemark_skeleton (n : Node) : n.skeleton.isRemark = n.isRemark := by
  rw [isRemark, skeleton_skeleton, label_skeleton]
  rfl

/-!
Searching among trees. A property that is the same in skeletons and fails for remarks is found at
the same place.
-/

section

variable {p : Node → Bool} (hp : ∀ c : Node, p c.skeleton = p c)

include hp

theorem filter_skeletons (cs : List Node) : (skeletons cs).filter p = skeletons (cs.filter p) := by
  induction cs with
  | nil => rfl
  | cons c cs ih =>
    rw [skeletons_cons, List.filter_cons]
    by_cases hremark : c.isRemark
    · rw [if_pos hremark, ih]
      split
      · rw [skeletons_cons, if_pos hremark]
      · rfl
    · rw [if_neg hremark, List.filter_cons, hp, ih]
      split
      · rw [skeletons_cons, if_neg hremark]
      · rfl

variable (hremark : ∀ c : Node, c.isRemark → p c = false)

include hremark

theorem any_skeletons (cs : List Node) : (skeletons cs).any p = cs.any p := by
  induction cs with
  | nil => rfl
  | cons c cs ih =>
    rw [skeletons_cons, List.any_cons]
    split
    · next hc => rw [hremark c hc, Bool.false_or, ih]
    · rw [List.any_cons, hp, ih]

theorem find?_skeletons (cs : List Node) : (skeletons cs).find? p = (cs.find? p).map skeleton := by
  induction cs with
  | nil => rfl
  | cons c cs ih =>
    rw [skeletons_cons, List.find?_cons]
    split
    · next hc => rw [hremark c hc, ih]
    · rw [List.find?_cons, hp, ih]
      split <;> rfl

theorem map_filter_skeletons (cs : List Node) :
    (skeletons cs).filter p = (cs.filter p).map skeleton := by
  rw [filter_skeletons hp, skeletons_eq_map]
  intro c hc
  rw [Bool.eq_false_iff]
  intro hc'
  rw [List.mem_filter, hremark c hc'] at hc
  exact Bool.false_ne_true hc.2

end

theorem childByField?_skeleton (field : String) (n : Node) :
    n.skeleton.childByField? field = (n.childByField? field).map skeleton := by
  rw [childByField?, children_skeleton]
  apply find?_skeletons
  · intro c
    simp
  · intro c hc
    simp [field_of_isRemark hc]

theorem namedChildren_skeleton (n : Node) :
    n.skeleton.namedChildren = skeletons n.namedChildren := by
  rw [namedChildren, children_skeleton]
  apply filter_skeletons
  intro c
  simp

theorem withoutComments_skeletons (cs : List Node) :
    withoutComments (skeletons cs) = (withoutComments cs).map skeleton := by
  apply map_filter_skeletons
  · intro c
    simp [Label.isComment]
  · intro c hc
    simp [isComment_of_isRemark hc]

mutual

theorem find?_walk_skeleton {p : Node → Bool} (hp : ∀ c : Node, p c.skeleton = p c)
    (hremark : ∀ c : Node, c.isRemark → p c = false) :
    (n : Node) → n.skeleton.walk.find? p = (n.walk.find? p).map skeleton
  | mk l cs => by
    have hcs := find?_listWalk_skeletons hp hremark cs
    have hn := hp (mk l cs)
    rw [skeleton] at hn ⊢
    rw [walk_mk, walk_mk, List.find?_cons, List.find?_cons, hn, hcs]
    split
    · rw [Option.map_some, skeleton]
    · rfl

theorem find?_listWalk_skeletons {p : Node → Bool} (hp : ∀ c : Node, p c.skeleton = p c)
    (hremark : ∀ c : Node, c.isRemark → p c = false) :
    (cs : List Node) → (listWalk (skeletons cs)).find? p = ((listWalk cs).find? p).map skeleton
  | [] => rfl
  | c :: cs => by
    have hc := find?_walk_skeleton hp hremark c
    have hcs := find?_listWalk_skeletons hp hremark cs
    rw [skeletons_cons, listWalk, List.find?_append]
    split
    · next hremark' =>
      -- Below a remark there are only remarks.
      have hnone : c.walk.find? p = none := by
        rw [← Option.map_eq_none_iff (f := skeleton), ← hc]
        cases c with
        | mk l ds =>
          have hds : skeletons ds = [] := skeletons_children_of_isRemark hremark'
          have hc' := hp (mk l ds)
          rw [skeleton, hds] at hc' ⊢
          rw [walk_mk, List.find?_cons, hc', hremark _ hremark']
          rfl
      rw [hnone, Option.none_or, hcs]
    · rw [listWalk, List.find?_append, hc, hcs]
      cases c.walk.find? p <;> rfl

end

theorem findFirst?_skeleton {types : List String} (h : "comment" ∉ types) (n : Node) :
    n.skeleton.findFirst? types = (n.findFirst? types).map skeleton := by
  apply find?_walk_skeleton
  · intro c
    rw [type_skeleton]
  · intro c hc
    rw [type_of_isRemark hc]
    simpa using h

mutual

theorem any_tokens_skeleton {p : Label → Bool} (hp : ∀ l : Label, p l.core = p l)
    (hremark : ∀ l : Label, l.isComment → p l = false) :
    (n : Node) → n.skeleton.tokens.any p = n.tokens.any p
  | mk l cs => by
    have hcs := any_listTokens_skeletons hp hremark cs
    rw [skeleton, tokens, tokens]
    have htoken : l.core.isToken = l.isToken := rfl
    rw [htoken]
    split
    · simp [hp]
    · exact hcs

theorem any_listTokens_skeletons {p : Label → Bool} (hp : ∀ l : Label, p l.core = p l)
    (hremark : ∀ l : Label, l.isComment → p l = false) :
    (cs : List Node) → (listTokens (skeletons cs)).any p = (listTokens cs).any p
  | [] => rfl
  | c :: cs => by
    have hc := any_tokens_skeleton hp hremark c
    have hcs := any_listTokens_skeletons hp hremark cs
    rw [skeletons_cons, listTokens, List.any_append]
    split
    · next hremark' =>
      have htokens : c.tokens.any p = false := by
        cases c with
        | mk l ds =>
          have htoken : l.isToken = true := isToken_of_isRemark hremark'
          rw [tokens, if_pos htoken]
          simp [hremark l (isComment_of_isRemark hremark')]
      rw [htokens, Bool.false_or, hcs]
    · rw [listTokens, List.any_append, hc, hcs]

end

/-!
Qualifiers and layouts.
-/

theorem unqualified_cons (c : Node) (cs : List Node) :
    unqualified label (c :: cs) =
      if c.label.isComment then
        c :: unqualified label cs
      else if c.label.endsQualifiers then
        c :: cs
      else if c.label.isQualifier then
        unqualified label cs
      else
        c :: unqualified label cs := by
  rw [unqualified, markQualifiers]
  split
  · rfl
  · split
    · simp [List.filter_map, Function.comp_def]
    · cases hc : c.label.isQualifier <;> simp [unqualified]

section

variable (c : Node)

theorem isComment_skeleton : c.skeleton.label.isComment = c.label.isComment := by
  rw [label_skeleton]
  rfl

theorem endsQualifiers_skeleton : c.skeleton.label.endsQualifiers = c.label.endsQualifiers := by
  rw [label_skeleton]
  rfl

theorem isQualifier_skeleton : c.skeleton.label.isQualifier = c.label.isQualifier := by
  rw [label_skeleton]
  rfl

end

theorem qualifiers_skeletons (cs : List Node) :
    qualifiers label (skeletons cs) = (qualifiers label cs).map skeleton := by
  induction cs with
  | nil => rfl
  | cons c cs ih =>
    rw [skeletons_cons, qualifiers_cons]
    split
    · next hremark => rw [ih, if_pos (isComment_of_isRemark hremark)]
    · rw [qualifiers_cons, isComment_skeleton, endsQualifiers_skeleton, isQualifier_skeleton, ih]
      split
      · rfl
      · split
        · rfl
        · split <;> rfl

theorem unqualified_skeletons (cs : List Node) :
    unqualified label (skeletons cs) = skeletons (unqualified label cs) := by
  induction cs with
  | nil => rfl
  | cons c cs ih =>
    rw [skeletons_cons, unqualified_cons]
    split
    · next hremark =>
      rw [ih, if_pos (isComment_of_isRemark hremark), skeletons_cons, if_pos hremark]
    · next hremark =>
      rw [unqualified_cons, isComment_skeleton, endsQualifiers_skeleton, isQualifier_skeleton, ih]
      split
      · rw [skeletons_cons, if_neg hremark]
      · split
        · rw [skeletons_cons, if_neg hremark]
        · split
          · rfl
          · rw [skeletons_cons, if_neg hremark]

mutual

theorem layout?_skeleton : (n : Node) → n.skeleton.layout? = n.layout?.map skeleton
  | mk l cs => by
    have hcs := firstLayout?_skeletons cs
    have hlayout : l.core.isLayout = l.isLayout := rfl
    have hwrapper : l.core.isWrapper = l.isWrapper := rfl
    rw [skeleton, layout?, layout?, hlayout, hwrapper]
    split
    · rw [Option.map_some, skeleton]
    · split
      · exact hcs
      · rfl

theorem firstLayout?_skeletons : (cs : List Node) →
    firstLayout? (skeletons cs) = (firstLayout? cs).map skeleton
  | [] => rfl
  | c :: cs => by
    have hc := layout?_skeleton c
    have hcs := firstLayout?_skeletons cs
    rw [skeletons_cons, firstLayout?]
    split
    · next hremark => rw [hcs, if_pos (isComment_of_isRemark hremark)]
    · rw [firstLayout?, isComment_skeleton, hc, hcs]
      split <;> rfl

end

theorem lastParenthesized?_of_tokens {cs : List Node} (h : (cs.any fun c => !c.isToken) = false) :
    lastParenthesized? cs = none := by
  cases cs with
  | nil => rfl
  | cons c cs =>
    simp only [List.any_cons, Bool.or_eq_false_iff, Bool.not_eq_false'] at h
    rw [lastParenthesized?, if_neg (by simp [h.2]), if_pos h.1]

mutual

theorem parenthesized?_skeleton : (n : Node) →
    n.skeleton.parenthesized? = n.parenthesized?.map skeletons
  | mk l cs => by
    have hcs := lastParenthesized?_skeletons cs
    have hany := any_skeletons (p := fun c => c.type == "(") (by simp)
      (fun c hc => by simp [type_of_isRemark hc]) cs
    rw [skeleton, parenthesized?, parenthesized?, hany]
    split
    · rfl
    · exact hcs

theorem lastParenthesized?_skeletons : (cs : List Node) →
    lastParenthesized? (skeletons cs) = (lastParenthesized? cs).map skeletons
  | [] => rfl
  | c :: cs => by
    have hc := parenthesized?_skeleton c
    have hcs := lastParenthesized?_skeletons cs
    have hany := any_skeletons (p := fun c => !c.isToken) (by simp)
      (fun c hc => by simp [isToken_of_isRemark hc]) cs
    rw [skeletons_cons, lastParenthesized?]
    split
    · next hremark =>
      rw [hcs]
      split
      · rfl
      · next hnone =>
        rw [lastParenthesized?_of_tokens (by simpa using hnone),
          if_pos (isToken_of_isRemark hremark)]
    · rw [lastParenthesized?, hany, isToken_skeleton, hc, hcs]
      split
      · rfl
      · split <;> rfl

end

theorem splitList_skeletons (inside : Bool) (cur cs : List Node) :
    splitList inside (cur.map skeleton) (skeletons cs) =
      (splitList inside cur cs).map (List.map skeleton) := by
  induction cs generalizing inside cur with
  | nil => rfl
  | cons c cs ih =>
    rw [skeletons_cons, splitList]
    split
    · next hremark =>
      have htype := type_of_isRemark hremark
      rw [ih]
      simp [htype, isComment_of_isRemark hremark]
    · rw [splitList, type_skeleton, isComment_skeleton]
      split
      · rw [ih]
      · split
        · rfl
        · split
          · rw [List.map_cons, ← ih]
            rfl
          · split
            · rw [← ih, List.map_append]
              rfl
            · rw [ih]

theorem entryNodes_map_skeleton (g : List Node) :
    entryNodes (g.map skeleton) = (entryNodes g).map skeleton := by
  rcases g with _ | ⟨n, _ | ⟨n', rest⟩⟩
  · rfl
  · rw [List.map_cons, List.map_nil, entryNodes, entryNodes, isToken_skeleton, children_skeleton,
      withoutComments_skeletons]
    split <;> rfl
  · rfl

/-- The groups of nodes that the entries of a layout are read from. -/
def entryGroups (layout : Node) : List (List Node) :=
  match layout.parenthesized? with
  | none => []
  | some cs => ((splitList false [] cs).filter fun g => !g.isEmpty).map entryNodes

theorem entryGroups_skeleton (layout : Node) :
    layout.skeleton.entryGroups = layout.entryGroups.map (List.map skeleton) := by
  rw [entryGroups, entryGroups, parenthesized?_skeleton]
  cases layout.parenthesized? with
  | none => rfl
  | some cs =>
    have hsplit := splitList_skeletons false [] cs
    rw [List.map_nil] at hsplit
    simp only [Option.map_some]
    rw [hsplit, List.filter_map, List.map_map, List.map_map]
    have hempty :
        ((fun g : List Node => !g.isEmpty) ∘ List.map skeleton) = fun g => !g.isEmpty := by
      funext g
      cases g <;> rfl
    rw [hempty]
    apply List.map_congr_left
    intro g _
    exact entryNodes_map_skeleton g

end Node

end ShaderParams

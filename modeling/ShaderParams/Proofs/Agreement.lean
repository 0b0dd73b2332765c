import ShaderParams.Proofs.Skeleton

/-!
This module contains the agreement of what is read off trees with the same skeleton. The shape of a
tree is that of its skeleton; texts agree where they are those of tokens, which is why the nodes are
listed whose texts are read.
-/

namespace ShaderParams

open List (Forall₂)

/-!
Computations that agree up to what tells failures of one class apart.
-/

/-- What a caller can tell failures apart by. -/
inductive Failure where
  | rejected (kind : ErrorClass)
  | integerOverflow
  | missingChild
  | missingStart
  | invalidEncoding
deriving DecidableEq, Repr

def Error.failure : Error → Failure
  | rejected cause _ => .rejected cause.errorClass
  | integerOverflow => .integerOverflow
  | missingChild => .missingChild
  | missingStart => .missingStart
  | invalidEncoding => .invalidEncoding

/--
Two computations that fail with failures of one class, or give related results.
-/
inductive Agree {α β : Type} (R : α → β → Prop) : Except Error α → Except Error β → Prop where
  | ok {a : α} {b : β} (h : R a b) : Agree R (.ok a) (.ok b)
  | error {e e' : Error} (h : e.failure = e'.failure) : Agree R (.error e) (.error e')

namespace Agree

variable {α β γ δ : Type} {R : α → β → Prop} {S : γ → δ → Prop}

theorem bind {x : Except Error α} {y : Except Error β} {f : α → Except Error γ}
    {g : β → Except Error δ} (h : Agree R x y)
    (hfg : ∀ a b, x = .ok a → R a b → Agree S (f a) (g b)) : Agree S (x >>= f) (y >>= g) := by
  cases h with
  | ok h => exact hfg _ _ rfl h
  | error h => exact .error h

theorem result_bind {x : Logged α} {y : Logged β} {f : α → Logged γ} {g : β → Logged δ}
    (h : Agree R x.result y.result)
    (hfg : ∀ a b, x.result = .ok a → R a b → Agree S (f a).result (g b).result) :
    Agree S (x >>= f).result (y >>= g).result := by
  rw [Logged.result_bind, Logged.result_bind]
  exact h.bind hfg

theorem mapM {f : α → Except Error γ} {g : β → Except Error δ} {xs : List α} {ys : List β}
    (h : Forall₂ R xs ys) (hfg : ∀ x y, R x y → Agree S (f x) (g y)) :
    Agree (Forall₂ S) (xs.mapM f) (ys.mapM g) := by
  induction h with
  | nil => exact .ok .nil
  | @cons x y xs ys hxy _ ih =>
    rw [List.mapM_cons, List.mapM_cons]
    apply bind (hfg x y hxy)
    intro a b _ hab
    apply bind ih
    intro as bs _ habs
    exact .ok (.cons hab habs)

end Agree

/-- Two trees with the same skeleton. -/
def Similar (n m : Node) : Prop :=
  n.skeleton = m.skeleton

namespace Similar

variable {n m : Node}

theorem core_label (h : Similar n m) : n.label.core = m.label.core := by
  rw [← Node.label_skeleton, ← Node.label_skeleton, h]

theorem children (h : Similar n m) : Node.skeletons n.children = Node.skeletons m.children := by
  rw [← Node.children_skeleton, ← Node.children_skeleton, h]

theorem label_eq {β : Type} (h : Similar n m) (f : Label → β) (hf : ∀ l : Label, f l.core = f l) :
    f n.label = f m.label := by
  rw [← hf n.label, ← hf m.label, h.core_label]

theorem type_eq (h : Similar n m) : n.type = m.type := h.label_eq Label.type fun _ => rfl

theorem text_eq (h : Similar n m) (hn : n.isToken) : n.text = m.text := by
  have htext : n.label.text = m.label.text := h.label_eq Label.text fun _ => rfl
  obtain ⟨text, hn⟩ := Option.isSome_iff_exists.mp (show n.label.text.isSome from hn)
  rw [hn] at htext
  cases n with
  | mk l cs =>
    cases m with
    | mk l' cs' => rw [Node.text_of_token (l := l) hn, Node.text_of_token (l := l') htext.symm]

theorem option {x y : Option Node} (h : x.map Node.skeleton = y.map Node.skeleton) :
    Option.Rel Similar x y := by
  cases x with
  | none =>
    cases y with
    | none => exact .none
    | some m => cases h
  | some n =>
    cases y with
    | none => cases h
    | some m => exact .some (Option.some.inj h)

theorem list {xs ys : List Node} (h : xs.map Node.skeleton = ys.map Node.skeleton) :
    Forall₂ Similar xs ys := by
  rw [← List.forall₂_eq_eq_eq, List.forall₂_map_left_iff, List.forall₂_map_right_iff] at h
  exact h

theorem childByField? (h : Similar n m) (field : String) :
    Option.Rel Similar (n.childByField? field) (m.childByField? field) := by
  apply option
  rw [← Node.childByField?_skeleton, ← Node.childByField?_skeleton, h]

theorem exists_childByField? (h : Similar n m) {field : String}
    (hn : (n.childByField? field).isSome) :
    ∃ c d, n.childByField? field = some c ∧ m.childByField? field = some d ∧ Similar c d := by
  have hchild := h.childByField? field
  generalize n.childByField? field = x at hn hchild ⊢
  generalize m.childByField? field = y at hchild ⊢
  cases hchild with
  | none => cases hn
  | @some c d hcd => exact ⟨c, d, rfl, rfl, hcd⟩

end Similar

/--
The nodes whose texts are read from nodes one after the other, up to the first one where it fails.
-/
def textsAmong {α : Type} (texts : Node → List Node) (read : Node → Except Error α) :
    List Node → List Node
  | [] => []
  | n :: ns => texts n ++ if (read n).isOk then textsAmong texts read ns else []

theorem Agree.mapM_read {α : Type} {texts : Node → List Node} {read : Node → Except Error α}
    {ns ms : List Node} (h : Forall₂ Similar ns ms)
    (hread : ∀ n ∈ ns, ∀ m, Similar n m → (∀ c ∈ texts n, c.isToken) →
      Agree Eq (read n) (read m))
    (htexts : ∀ c ∈ textsAmong texts read ns, c.isToken) :
    Agree Eq (ns.mapM read) (ms.mapM read) := by
  induction h with
  | nil => exact .ok rfl
  | @cons n m ns ms hnm _ ih =>
    obtain ⟨hn, hns⟩ := List.forall_mem_cons.mp hread
    rw [textsAmong, List.forall_mem_append] at htexts
    rw [List.mapM_cons, List.mapM_cons]
    apply Agree.bind (hn m hnm htexts.1)
    rintro x _ hx rfl
    rw [hx] at htexts
    apply Agree.bind (ih hns htexts.2)
    rintro xs _ - rfl
    exact .ok rfl

/-!
Literals.
-/

namespace Node

def literalTexts (n : Node) : List Node :=
  if n.type == "unary_expression" then
    (n.childByField? "operator").toList.flatMap fun operator =>
      operator :: if operator.text == "-" || operator.text == "+" then
        (n.childByField? "argument").toList.filter fun c => c.type == "number_literal"
      else
        []
  else if n.type == "number_literal" then
    [n]
  else
    []

end Node

namespace Similar

variable {n m : Node}

theorem readLiteral (h : Similar n m) (hn : n.isToken) : Agree Eq n.readLiteral m.readLiteral := by
  rw [Node.readLiteral, Node.readLiteral, h.text_eq hn]
  split
  · exact .ok rfl
  · exact .error rfl

theorem signedLiteral? (h : Similar n m) (hn : n.Applied)
    (htexts : ∀ c ∈ n.literalTexts, c.isToken) :
    Agree (Option.Rel fun x y => x.1 = y.1 ∧ Similar x.2 y.2 ∧ x.2.isToken) n.signedLiteral?
      m.signedLiteral? := by
  rw [Node.signedLiteral?, Node.signedLiteral?, ← h.type_eq]
  split
  · next htype =>
    obtain ⟨hoperator, hoperand⟩ := hn.unary (by simpa using htype)
    obtain ⟨operator, operator', hn, hm, hsimilar⟩ := h.exists_childByField? hoperator
    obtain ⟨operand, operand', hn', hm', hsimilar'⟩ := h.exists_childByField? hoperand
    rw [Node.literalTexts, if_pos htype, hn, hn'] at htexts
    simp only [Option.toList_some, List.flatMap_cons, List.flatMap_nil, List.append_nil,
      List.forall_mem_cons] at htexts
    obtain ⟨hoperator, hoperand⟩ := htexts
    simp only [hn, hn', hm, hm', Option.orElse_eq_orElse, Option.orElse_some]
    rw [← hsimilar.text_eq hoperator, ← hsimilar'.type_eq]
    split
    · next hliteral =>
      rw [Bool.and_eq_true] at hliteral
      rw [if_pos hliteral.1] at hoperand
      refine .ok (.some ⟨rfl, hsimilar', hoperand operand ?_⟩)
      simpa using hliteral.2
    · exact .ok .none
  · exact .ok .none

theorem literal (h : Similar n m) (hn : n.Applied) (htexts : ∀ c ∈ n.literalTexts, c.isToken) :
    Agree Eq n.literal m.literal := by
  rw [Node.literal, Node.literal]
  apply Agree.bind (h.signedLiteral? hn htexts)
  intro x y hx hxy
  cases hxy with
  | some hxy =>
    obtain ⟨hsign, hsimilar, htoken⟩ := hxy
    apply Agree.bind (hsimilar.readLiteral htoken)
    rintro l _ - rfl
    rw [hsign]
    exact .ok rfl
  | none =>
    simp only [← h.type_eq]
    split
    · next htype =>
      apply h.readLiteral (htexts n ?_)
      have hunary : (n.type == "unary_expression") = false := by
        rw [beq_iff_eq.mp htype]
        decide
      rw [Node.literalTexts, hunary, if_neg Bool.false_ne_true, if_pos htype]
      exact List.mem_cons_self
    · exact .error rfl

theorem single (h : Similar n m) (hn : n.Applied) (htexts : ∀ c ∈ n.literalTexts, c.isToken) :
    Agree Eq n.single m.single := by
  rw [Node.single_eq, Node.single_eq]
  apply Agree.bind (h.literal hn htexts)
  rintro l _ - rfl
  cases l.value.toDouble? with
  | none => exact .error rfl
  | some x => exact .ok rfl

end Similar

/-!
Layouts and their entries.
-/

theorem qualifiers_similar {cs ds : List Node} (h : Node.skeletons cs = Node.skeletons ds) :
    Forall₂ Similar (qualifiers Node.label cs) (qualifiers Node.label ds) := by
  apply Similar.list
  rw [← Node.qualifiers_skeletons, ← Node.qualifiers_skeletons, h]

theorem Similar.layout? {n m : Node} (h : Similar n m) :
    Option.Rel Similar n.layout? m.layout? := by
  apply option
  rw [← Node.layout?_skeleton, ← Node.layout?_skeleton, h]

/-- Two entries that are read from similar nodes. -/
structure LayoutEntry.Similar (e e' : LayoutEntry) : Prop where
  name : e.name = e.node.text
  name_right : e'.name = e'.node.text
  node : ShaderParams.Similar e.node e'.node
  value : Option.Rel ShaderParams.Similar e.value e'.value

theorem LayoutEntry.Similar.name_eq {e e' : LayoutEntry} (h : e.Similar e')
    (hn : e.node.isToken) : e.name = e'.name := by
  rw [h.name, h.name_right, h.node.text_eq hn]

namespace Node

theorem layoutEntries_eq (layout : Node) :
    layout.layoutEntries = layout.entryGroups.mapM entryOf := by
  have hentry : layoutEntry = fun g => entryOf (entryNodes g) := funext layoutEntry_eq
  rw [layoutEntries, entryGroups, hentry]
  cases layout.parenthesized? with
  | none => rfl
  | some cs =>
    rw [List.mapM_map]
    rfl

end Node

namespace Similar

theorem entryOf {g g' : List Node} (h : Forall₂ Similar g g') :
    Agree LayoutEntry.Similar (Node.entryOf g) (Node.entryOf g') := by
  rcases h with _ | ⟨hname, _ | ⟨heq, _ | ⟨hvalue, _⟩⟩⟩
  · exact .error rfl
  · exact .ok ⟨rfl, rfl, hname, .none⟩
  · exact .ok ⟨rfl, rfl, hname, .none⟩
  · refine .ok ⟨rfl, rfl, hname, ?_⟩
    simp only [heq.type_eq]
    split
    · exact .some hvalue
    · exact .none

theorem layoutEntries {n m : Node} (h : Similar n m) :
    Agree (Forall₂ LayoutEntry.Similar) n.layoutEntries m.layoutEntries := by
  rw [Node.layoutEntries_eq, Node.layoutEntries_eq]
  have hgroups : n.entryGroups.map (List.map Node.skeleton) =
      m.entryGroups.map (List.map Node.skeleton) := by
    rw [← Node.entryGroups_skeleton, ← Node.entryGroups_skeleton, h]
  rw [← List.forall₂_eq_eq_eq, List.forall₂_map_left_iff, List.forall₂_map_right_iff] at hgroups
  exact Agree.mapM (hgroups.imp fun _ _ => list) fun _ _ => entryOf

end Similar

/-!
Settings of numeric sliders.
-/

namespace FloatSettings

def texts (s : FloatSettings) : List LayoutEntry → List Node
  | [] => []
  | e :: es =>
    e.node ::
      match s.set? e.name with
      | none => texts s es
      | some set =>
        match e.value with
        | none => []
        | some v =>
          v.literalTexts ++
            match v.single with
            | .ok x => texts (set x) es
            | .error _ => []

theorem apply_agree {es es' : List LayoutEntry} (h : Forall₂ LayoutEntry.Similar es es')
    (field field' : String) (s : FloatSettings)
    (hes : ∀ e ∈ es, ∀ v, e.value = some v → v.Applied) (htexts : ∀ c ∈ s.texts es, c.isToken) :
    Agree Eq (apply field s es).result (apply field' s es').result := by
  induction h generalizing s with
  | nil => exact .ok rfl
  | @cons e e' es es' he _ ih =>
    obtain ⟨hentry, hes⟩ := List.forall_mem_cons.mp hes
    rw [texts, List.forall_mem_cons] at htexts
    obtain ⟨hname, htexts⟩ := htexts
    rw [apply, apply, ← he.name_eq hname]
    cases hset : s.set? e.name with
    | none =>
      simp only [hset] at htexts ⊢
      exact ih s hes htexts
    | some set =>
      simp only [hset] at htexts ⊢
      have hvalue := he.value
      cases hv : e.value with
      | none =>
        rw [hv] at hvalue
        generalize e'.value = v' at hvalue ⊢
        cases hvalue
        exact .error rfl
      | some v =>
        rw [hv] at hvalue
        generalize e'.value = v' at hvalue ⊢
        cases hvalue with
        | some hvalue =>
          simp only [hv, List.forall_mem_append] at htexts ⊢
          refine Agree.result_bind (R := Eq) (hvalue.single (hentry v hv) htexts.1) ?_
          rintro x _ hx rfl
          apply ih (set x) hes
          rw [show v.single = .ok x from hx] at htexts
          exact htexts.2

end FloatSettings

/-!
Settings of vector sliders.
-/

def initializerTexts (value : Option Node) : List Node :=
  match value.filter fun n => n.type == "call_expression" with
  | none => []
  | some call =>
    (call.childByField? "function").toList.flatMap fun function =>
      function :: (call.childByField? "arguments").toList.flatMap fun arguments =>
        if function.text = "vec3" ∧ (Node.withoutComments arguments.namedChildren).length = 3 then
          textsAmong Node.literalTexts Node.single
            (Node.withoutComments arguments.namedChildren)
        else
          []

theorem Similar.arguments {n m : Node} (h : Similar n m) :
    Forall₂ Similar (Node.withoutComments n.namedChildren)
      (Node.withoutComments m.namedChildren) := by
  apply list
  rw [← Node.withoutComments_skeletons, ← Node.withoutComments_skeletons,
    ← Node.namedChildren_skeleton, ← Node.namedChildren_skeleton, h]

theorem vectorInitializer_agree {value value' : Option Node} (h : Option.Rel Similar value value')
    (field field' : String) (hvalue : ∀ v, value = some v → ∀ m ∈ v.walk, m.Applied)
    (htexts : ∀ c ∈ initializerTexts value, c.isToken) :
    Agree Eq (vectorInitializer field value).result (vectorInitializer field' value').result := by
  cases h with
  | none => exact .ok rfl
  | @some v v' h =>
    rw [vectorInitializer, vectorInitializer]
    rw [initializerTexts] at htexts
    simp only [Option.filter_some, ← h.type_eq] at htexts ⊢
    by_cases htype : v.type == "call_expression"
    · simp only [htype, if_true] at htexts ⊢
      obtain ⟨hfunction, harguments⟩ :=
        (hvalue v rfl v (Node.self_mem_walk v)).call (by simpa using htype)
      obtain ⟨function, function', hn, hm, hsimilar⟩ := h.exists_childByField? hfunction
      obtain ⟨arguments, arguments', hn', hm', hsimilar'⟩ := h.exists_childByField? harguments
      have hargs := hsimilar'.arguments
      have happlied : ∀ m ∈ Node.withoutComments arguments.namedChildren, m.Applied := by
        intro m hm
        have hchild : arguments ∈ v.children := List.mem_of_find?_eq_some hn'
        have hm : m ∈ arguments.children := List.mem_of_mem_filter (List.mem_of_mem_filter hm)
        have hm := Node.walk_subset_of_mem hm (Node.self_mem_walk m)
        exact hvalue v rfl m (Node.walk_subset_of_mem hchild hm)
      simp only [hn, hn', Option.toList_some, List.flatMap_cons, List.flatMap_nil,
        List.append_nil, List.forall_mem_cons] at htexts
      obtain ⟨hfunction, htexts⟩ := htexts
      simp only [hn, hn', hm, hm', Option.orElse_eq_orElse, Option.orElse_some]
      rw [← hsimilar.text_eq hfunction, ← hargs.length_eq]
      split
      · next hvec =>
        rw [if_pos hvec] at htexts
        have hsingles := Agree.mapM_read hargs
          (fun n hn m hnm => hnm.single (happlied n hn)) htexts
        refine Agree.result_bind (R := Eq) hsingles ?_
        rintro xs _ - rfl
        exact .ok rfl
      · exact .ok rfl
    · simp only [htype]
      exact .ok rfl

namespace VectorSettings

def texts (field : String) : List LayoutEntry → List Node
  | [] => []
  | e :: es =>
    e.node ::
      if e.name = "color" then
        texts field es
      else if e.name = "init" then
        initializerTexts e.value ++
          if (vectorInitializer field e.value).result.isOk then texts field es else []
      else
        texts field es

theorem apply_agree {es es' : List LayoutEntry} (h : Forall₂ LayoutEntry.Similar es es')
    (field field' : String) (s : VectorSettings)
    (hes : ∀ e ∈ es, ∀ v, e.value = some v → ∀ m ∈ v.walk, m.Applied)
    (htexts : ∀ c ∈ texts field es, c.isToken) :
    Agree Eq (apply field s es).result (apply field' s es').result := by
  induction h generalizing s with
  | nil => exact .ok rfl
  | @cons e e' es es' he _ ih =>
    obtain ⟨hentry, hes⟩ := List.forall_mem_cons.mp hes
    rw [texts, List.forall_mem_cons] at htexts
    obtain ⟨hname, htexts⟩ := htexts
    rw [apply, apply, ← he.name_eq hname]
    split
    · next hcolor =>
      rw [if_pos hcolor] at htexts
      exact ih _ hes htexts
    · next hcolor =>
      rw [if_neg hcolor] at htexts
      split
      · next hinit =>
        rw [if_pos hinit, List.forall_mem_append] at htexts
        apply Agree.result_bind (vectorInitializer_agree he.value field field' hentry htexts.1)
        rintro xs _ hxs rfl
        rw [hxs] at htexts
        exact ih _ hes htexts.2
      · next hinit =>
        rw [if_neg hinit] at htexts
        exact ih s hes htexts

end VectorSettings

/-!
Fields.
-/

namespace Node

def nameNode? (field : Node) : Option Node :=
  ((field.childByField? "declarator").bind fun d => d.findFirst? nameTypes) <|>
    field.children.find? isName

def typeNode? (field : Node) : Option Node :=
  field.childByField? "type" <|> field.children.find? fun c => c.label.isTypeSpecifier

theorem nameNode?_skeleton (field : Node) :
    field.skeleton.nameNode? = field.nameNode?.map skeleton := by
  have hchild : (skeletons field.children).find? isName =
      (field.children.find? isName).map skeleton := by
    apply find?_skeletons
    · intro c
      rw [isName, isName, type_skeleton]
    · intro c hc
      rw [isName, type_of_isRemark hc]
      decide
  have hdeclared (d : Node) : d.skeleton.findFirst? nameTypes =
      (d.findFirst? nameTypes).map skeleton :=
    findFirst?_skeleton (by decide) d
  rw [nameNode?, nameNode?, childByField?_skeleton, children_skeleton, hchild]
  cases field.childByField? "declarator" with
  | none => rfl
  | some d =>
    simp only [Option.map_some, Option.bind_some, hdeclared]
    cases d.findFirst? nameTypes <;> rfl

theorem typeNode?_skeleton (field : Node) :
    field.skeleton.typeNode? = field.typeNode?.map skeleton := by
  have hchild : ((skeletons field.children).find? fun c => c.label.isTypeSpecifier) =
      (field.children.find? fun c => c.label.isTypeSpecifier).map skeleton := by
    apply find?_skeletons
    · intro c
      rw [label_skeleton]
      rfl
    · intro c hc
      have htype : c.label.type = "comment" := type_of_isRemark hc
      rw [Label.isTypeSpecifier, htype]
      decide
  rw [typeNode?, typeNode?, childByField?_skeleton, children_skeleton, hchild]
  cases field.childByField? "type" <;> rfl

theorem isArrayPart_skeleton (n : Node) : n.skeleton.isArrayPart = n.isArrayPart := by
  rw [isArrayPart, isArrayPart, type_skeleton, any_tokens_skeleton]
  · intro l
    rfl
  · intro l hl
    have htype : l.type = "comment" := beq_iff_eq.mp hl
    rw [htype]
    decide

theorem isArrayPart_of_isRemark {n : Node} (h : n.isRemark) : n.isArrayPart = false := by
  have htype : n.label.type = "comment" := type_of_isRemark h
  have htoken : n.label.isToken = true := isToken_of_isRemark h
  cases n with
  | mk l cs =>
    change l.type = "comment" at htype
    change l.isToken = true at htoken
    rw [isArrayPart, tokens, if_pos htoken]
    simp [type, label, htype]

end Node

namespace Similar

variable {f g : Node}

theorem nameNode? (h : Similar f g) : Option.Rel Similar f.nameNode? g.nameNode? := by
  apply option
  rw [← Node.nameNode?_skeleton, ← Node.nameNode?_skeleton, h]

theorem typeNode? (h : Similar f g) : Option.Rel Similar f.typeNode? g.typeNode? := by
  apply option
  rw [← Node.typeNode?_skeleton, ← Node.typeNode?_skeleton, h]

theorem fieldName (h : Similar f g) (htexts : ∀ c ∈ f.nameNode?.toList, c.isToken) :
    Agree Eq f.fieldName g.fieldName := by
  have hnode := h.nameNode?
  rw [Node.nameNode?, Node.nameNode?] at hnode
  rw [Node.nameNode?] at htexts
  rw [Node.fieldName, Node.fieldName]
  revert hnode htexts
  generalize (_ <|> f.children.find? Node.isName) = x
  generalize (_ <|> g.children.find? Node.isName) = y
  intro htexts hnode
  cases hnode with
  | none => exact .error rfl
  | some hnode => exact .ok (hnode.text_eq (htexts _ (by simp)))

theorem fieldType (h : Similar f g) :
    Agree (fun type type' => (∀ c ∈ f.typeNode?.toList, c.isToken) → type = type') f.fieldType
      g.fieldType := by
  have hnode := h.typeNode?
  rw [Node.typeNode?, Node.typeNode?] at hnode
  rw [Node.fieldType, Node.fieldType, Node.typeNode?]
  revert hnode
  generalize (f.childByField? "type" <|> _) = x
  generalize (g.childByField? "type" <|> _) = y
  intro hnode
  cases hnode with
  | none => exact .error rfl
  | some hnode => exact .ok fun htexts => hnode.text_eq (htexts _ (by simp))

theorem checkSingle (h : Similar f g) (name name' : String) :
    Agree Eq (f.checkSingle name) (g.checkSingle name') := by
  have hparts : Node.skeletons (unqualified Node.label f.children) =
      Node.skeletons (unqualified Node.label g.children) := by
    rw [← Node.unqualified_skeletons, ← Node.unqualified_skeletons, h.children]
  have hcomma (cs : List Node) : (Node.skeletons cs).any (fun c => c.type == ",") =
      cs.any fun c => c.type == "," :=
    Node.any_skeletons (by simp) (fun c hc => by simp [Node.type_of_isRemark hc]) cs
  have harray (cs : List Node) : (Node.skeletons cs).find? Node.isArrayPart =
      (cs.find? Node.isArrayPart).map Node.skeleton :=
    Node.find?_skeletons Node.isArrayPart_skeleton (fun _ => Node.isArrayPart_of_isRemark) cs
  rw [Node.checkSingle, Node.checkSingle]
  generalize unqualified Node.label f.children = cs at hparts ⊢
  generalize unqualified Node.label g.children = ds at hparts ⊢
  have hpart : Option.Rel Similar (cs.find? Node.isArrayPart) (ds.find? Node.isArrayPart) := by
    apply option
    rw [← harray, ← harray, hparts]
  rw [← hcomma cs, ← hcomma ds, hparts]
  split
  · exact .error rfl
  · generalize cs.find? Node.isArrayPart = x at hpart ⊢
    generalize ds.find? Node.isArrayPart = y at hpart ⊢
    cases hpart with
    | none => exact .ok rfl
    | some hpart => exact .error rfl

theorem fieldSettings (h : Similar f g) :
    Agree (Forall₂ LayoutEntry.Similar) f.fieldSettings g.fieldSettings := by
  have hqualifiers := qualifiers_similar h.children
  rw [Node.fieldSettings, Node.fieldSettings, Node.fieldQualifiers, Node.fieldQualifiers]
  generalize qualifiers Node.label f.children = qs at hqualifiers ⊢
  generalize qualifiers Node.label g.children = rs at hqualifiers ⊢
  cases hqualifiers with
  | nil => exact .ok .nil
  | @cons q r _ _ hqr _ =>
    have hlayout := hqr.layout?
    simp only [List.head?_cons, Option.bind_some]
    generalize q.layout? = x at hlayout ⊢
    generalize r.layout? = y at hlayout ⊢
    cases hlayout with
    | none => exact .ok .nil
    | some hlayout => exact hlayout.layoutEntries

end Similar

namespace Slider

/-- The nodes whose texts are read to tell what a field describes, apart from its name. -/
def settingTexts (field : Node) : Except Error (List Node) := do
  let name ← field.fieldName
  field.checkSingle name
  let type ← field.fieldType
  let settings ← field.fieldSettings
  return field.typeNode?.toList ++
    if type = "float" then
      FloatSettings.texts {} settings
    else if type = "vec3" then
      VectorSettings.texts name settings
    else
      []

def texts (field : Node) : List Node :=
  field.nameNode?.toList ++ (settingTexts field).toOption.getD []

theorem ofField_agree {f g : Node} (h : Similar f g) (hf : ∀ m ∈ f.walk, m.Applied)
    (htexts : ∀ c ∈ texts f, c.isToken) : Agree Eq (ofField f).result (ofField g).result := by
  rw [texts, List.forall_mem_append] at htexts
  obtain ⟨hname, htexts⟩ := htexts
  rw [ofField, ofField]
  refine Agree.result_bind (R := Eq) (h.fieldName hname) ?_
  rintro name _ hname rfl
  refine Agree.result_bind (R := Eq) (h.checkSingle name name) ?_
  rintro _ _ hsingle -
  apply Agree.result_bind h.fieldType
  intro type type' htype heq
  apply Agree.result_bind h.fieldSettings
  intro es es' hes hsimilar
  change f.fieldName = .ok name at hname
  change f.checkSingle name = .ok () at hsingle
  change f.fieldType = .ok type at htype
  change f.fieldSettings = .ok es at hes
  have hreads : settingTexts f = .ok (f.typeNode?.toList ++
      if type = "float" then FloatSettings.texts {} es
      else if type = "vec3" then VectorSettings.texts name es
      else []) := by
    simp only [settingTexts, hname, htype, hes, bind, Except.bind, hsingle]
    rfl
  -- The type is compared only now: where the settings cannot be read, it is never looked at.
  rw [hreads] at htexts
  obtain ⟨htypes, htexts⟩ := List.forall_mem_append.mp htexts
  obtain rfl := heq htypes
  have hvalues : ∀ e ∈ es, ∀ v, e.value = some v → ∀ m ∈ v.walk, m.Applied := by
    intro e he v hv m hm
    exact hf m (Node.walk_subset f (Node.value_mem_walk_of_fieldSettings hes he hv) m hm)
  split
  · next hfloat =>
    rw [if_pos hfloat] at htexts
    have hvalues : ∀ e ∈ es, ∀ v, e.value = some v → v.Applied :=
      fun e he v hv => hvalues e he v hv v (Node.self_mem_walk v)
    apply Agree.result_bind (FloatSettings.apply_agree hsimilar name name {} hvalues htexts)
    rintro s _ - rfl
    exact .ok rfl
  · next hfloat =>
    rw [if_neg hfloat] at htexts
    split
    · next hvec =>
      rw [if_pos hvec] at htexts
      apply Agree.result_bind (VectorSettings.apply_agree hsimilar name name {} hvalues htexts)
      rintro s _ - rfl
      exact .ok rfl
    · exact .error rfl

end Slider

def fieldTexts (fs : List Node) : List Node :=
  textsAmong Slider.texts (fun f => (Slider.ofField f).result) fs

theorem mapM_ofField_agree {fs gs : List Node} (h : Forall₂ Similar fs gs)
    (hfs : ∀ f ∈ fs, ∀ m ∈ f.walk, m.Applied) (htexts : ∀ c ∈ fieldTexts fs, c.isToken) :
    Agree Eq (fs.mapM Slider.ofField).result (gs.mapM Slider.ofField).result := by
  rw [Logged.result_mapM, Logged.result_mapM]
  exact Agree.mapM_read h (fun f hf g hfg => Slider.ofField_agree hfg (hfs f hf)) htexts

end ShaderParams

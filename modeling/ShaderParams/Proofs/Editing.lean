import ShaderParams.Proofs.Grafting
import ShaderParams.Proofs.Place
import ShaderParams.Proofs.Trivia

/-!
This module contains the trees that the edits of a table leave behind: they are those that the
conversion of a shader makes, where trivia is handed on from node to node.
-/

namespace ShaderParams

open Node.stripFirstFieldList (receiveAll)

/-!
A tree with trivia on its way to the first token behind its hole.
-/

namespace Context

/-- The first token behind the hole takes trivia that is on its way. -/
def receive (pending : Option String) : Context → Context × Option String
  | root => (root, pending)
  | child l left right c =>
    let (c, pending) := c.receive pending
    let (right, pending) := receiveAll pending right
    (child l left right c, pending)

def comp : Context → Context → Context
  | root, d => d
  | child l left right c, d => child l left right (c.comp d)

theorem plug_comp (c d : Context) (n : Node) : (c.comp d).plug n = c.plug (d.plug n) := by
  induction c with
  | root => rfl
  | child l left right c ih => rw [comp, plug, plug, ih]

theorem receive_comp (pending : Option String) (c d : Context) :
    (c.comp d).receive pending =
      ((c.receive (d.receive pending).2).1.comp (d.receive pending).1,
        (c.receive (d.receive pending).2).2) := by
  induction c with
  | root => rfl
  | child l left right c ih => simp only [comp, receive, ih]

theorem receive_none (c : Context) : c.receive none = (c, none) := by
  induction c with
  | root => rfl
  | child l left right c ih => simp only [receive, ih, Node.receiveAll_none]

end Context

namespace Node

theorem receive_of_tokens_eq_nil {n : Node} (h : n.tokens = []) (pending : Option String) :
    n.receive pending = (n, pending) := by
  cases pending with
  | none => rfl
  | some leading => simp only [receive, setLeading?_eq_none leading n h]

theorem receive_snd_of_tokens_ne_nil {n : Node} (h : n.tokens ≠ []) (pending : Option String) :
    (n.receive pending).2 = none :=
  receive_snd (by simpa [words] using h)

theorem setLeading_eq (leading : String) (n : Node) :
    n.setLeading leading = (n.receive (some leading)).1 := by
  rw [setLeading, receive]
  cases n.setLeading? leading <;> rfl

end Node

namespace Surroundings

def context (f : Forest) : Surroundings → Context
  | [] => .root
  | s :: ss =>
    (context f ss).comp
      (.child (f.label s.id) (s.left.map (Outline.node f)) (s.right.map (Outline.node f)) .root)

theorem node_plug (f : Forest) (ss : Surroundings) (o : Outline) :
    (plug ss o).node f = (context f ss).plug (o.node f) := by
  induction ss generalizing o with
  | nil => rfl
  | cons s ss ih =>
    rw [plug, ih, context, Context.plug_comp, Outline.node_mk, List.map_append, List.map_cons]
    rfl

end Surroundings

namespace Forest

variable {f g : Forest} {pending : Option String} {i : Nat}

/-!
Labels after trivia was handed to a token.
-/

/-- The label of a node once trivia on its way has reached the given token. -/
def handed (f : Forest) (pending : Option String) (token : Option Nat) (i : Nat) : Label :=
  match pending with
  | none => f.label i
  | some leading => { f.label i with
      leading := if some i = token then leading else (f.label i).leading }

theorem handed_of_ne {token : Option Nat} (h : some i ≠ token) :
    f.handed pending token i = f.label i := by
  cases pending with
  | none => rfl
  | some leading => rw [handed, if_neg h]

theorem handed_append {ts us : List Nat} (hi : i ∉ ts) :
    f.handed pending (ts ++ us).head? i =
      f.handed (if ts = [] then pending else none) us.head? i := by
  cases ts with
  | nil => rfl
  | cons t ts =>
    rw [if_neg (List.cons_ne_nil t ts), handed_of_ne]
    · rfl
    · simp only [List.cons_append, List.head?_cons, ne_eq, Option.some.injEq]
      rintro rfl
      exact hi List.mem_cons_self

theorem label_node (f : Forest) (o : Outline) : (o.node f).label = f.label o.id := by
  cases o with
  | mk id cs =>
    rw [Outline.node_mk]
    rfl

section

variable {parent : Option Nat} {o : Outline}

theorem tokens_node_eq_nil (h : f.Holds parent o) : (o.node f).tokens = [] ↔ o.tokens f = [] := by
  rw [tokens_node h, List.map_eq_nil_iff]

theorem receive_node_snd (h : f.Holds parent o) (pending : Option String) :
    ((o.node f).receive pending).2 = if o.tokens f = [] then pending else none := by
  split
  · next hnil => rw [Node.receive_of_tokens_eq_nil ((tokens_node_eq_nil h).mpr hnil)]
  · next hnil =>
    exact Node.receive_snd_of_tokens_ne_nil (fun h' => hnil ((tokens_node_eq_nil h).mp h')) _

theorem leading_node (h : f.Holds parent o) (hnodup : o.ids.Nodup) :
    f.leading o.id = (o.node f).leading := by
  rw [leading, firstToken?, h.tokens_eq hnodup, Node.leading, tokens_node h]
  cases o.tokens f <;> rfl

end

/-- Whether a tree takes trivia on its way as its own, whatever stands behind it. -/
def Receives (f : Forest) (o : Outline) : Prop :=
  ∀ (g : Forest) (pending : Option String) (rest : List Nat), (∀ i ∈ rest, i ∉ o.ids) →
    (∀ i ∈ o.ids, g.label i = f.handed pending (o.tokens f ++ rest).head? i) →
    o.node g = ((o.node f).receive pending).1

theorem nodes_receiveAll {os : List Outline} (hholds : ∀ o ∈ os, ∃ parent, f.Holds parent o)
    (hos : ∀ o ∈ os, f.Receives o) (hnodup : (os.flatMap Outline.ids).Nodup)
    (pending : Option String) (rest : List Nat) (hrest : ∀ i ∈ rest, i ∉ os.flatMap Outline.ids)
    (hg : ∀ i ∈ os.flatMap Outline.ids,
      g.label i = f.handed pending (os.flatMap (Outline.tokens f) ++ rest).head? i) :
    os.map (Outline.node g) = (receiveAll pending (os.map (Outline.node f))).1 ∧
      (receiveAll pending (os.map (Outline.node f))).2 =
        if os.flatMap (Outline.tokens f) = [] then pending else none := by
  induction os generalizing pending with
  | nil => exact ⟨rfl, rfl⟩
  | cons o os ih =>
    obtain ⟨ho, hos⟩ := List.forall_mem_cons.mp hos
    obtain ⟨⟨parent, hparent⟩, hholds⟩ := List.forall_mem_cons.mp hholds
    rw [List.flatMap_cons, List.nodup_append] at hnodup
    obtain ⟨-, hnodup, hdisjoint⟩ := hnodup
    simp only [List.flatMap_cons, List.mem_append, List.append_assoc] at hg hrest
    have hbehind : ∀ i ∈ os.flatMap (Outline.tokens f) ++ rest, i ∉ o.ids := by
      intro i hi hi'
      rcases List.mem_append.mp hi with hi | hi
      · exact hdisjoint i hi' i ((flatMap_tokens_sublist hholds).subset hi) rfl
      · exact hrest i hi (.inl hi')
    have hfirst := ho g pending _ hbehind fun i hi => hg i (.inl hi)
    have hsnd := receive_node_snd hparent pending
    obtain ⟨hnodes, hpending⟩ := ih hholds hos hnodup ((o.node f).receive pending).2
      (fun i hi hi' => hrest i hi (.inr hi')) fun i hi => by
        rw [hg i (.inr hi), hsnd]
        apply handed_append
        intro hi'
        exact hdisjoint i (hparent.tokens_sublist.subset hi') i hi rfl
    rw [List.map_cons, List.map_cons, Node.receiveAll_cons, hfirst, hnodes, hpending, hsnd]
    refine ⟨rfl, ?_⟩
    rw [List.flatMap_cons]
    cases o.tokens f <;> simp

/-- By induction on the tree: of its parts only the one with the first token changes. -/
theorem Holds.receives {parent : Option Nat} {o : Outline} (h : f.Holds parent o)
    (hnodup : o.ids.Nodup) : f.Receives o := by
  induction h with
  | @mk parent id cs hlt hparent hchildren hbelow ih =>
    intro g pending rest hrest hg
    rw [Outline.ids_mk, List.nodup_cons] at hnodup
    obtain ⟨hid, hnodup⟩ := hnodup
    simp only [Outline.ids_mk, Outline.tokens_mk, List.mem_cons, not_or] at hg hrest
    have hroot := hg id (.inl rfl)
    replace hg : ∀ i ∈ cs.flatMap Outline.ids, _ := fun i hi => hg i (.inr hi)
    have hcs : ∀ c ∈ cs, f.Receives c := fun c hc =>
      ih c hc (hnodup.sublist (Outline.ids_sublist hc))
    have hholds : ∀ c ∈ cs, ∃ parent, f.Holds parent c := fun c hc => ⟨_, hbelow c hc⟩
    rw [Outline.node_mk, Outline.node_mk, Node.receive_mk]
    by_cases htoken : (f.label id).isToken
    · -- The root takes the trivia, and nothing is left for its children.
      rw [if_pos htoken] at hroot hg
      obtain ⟨hnodes, -⟩ := nodes_receiveAll hholds hcs hnodup none [] (by simp) fun i hi => by
          rw [hg i hi]
          apply handed_of_ne
          simp only [List.singleton_append, List.head?_cons, ne_eq, Option.some.injEq]
          rintro rfl
          exact hid hi
      rw [hnodes, hroot]
      cases pending with
      | none => rfl
      | some leading => simp [handed, Label.receive, htoken]
    · rw [if_neg htoken] at hroot hg
      have hsame : g.label id = f.label id := by
        rw [hroot]
        apply handed_of_ne
        intro heq
        have hmem := List.mem_of_mem_head? (Option.mem_def.mpr heq.symm)
        rcases List.mem_append.mp hmem with hmem | hmem
        · exact hid ((flatMap_tokens_sublist hholds).subset hmem)
        · exact (hrest id hmem).1 rfl
      obtain ⟨hnodes, -⟩ := nodes_receiveAll hholds hcs hnodup pending rest
        (fun i hi => (hrest i hi).2) hg
      rw [Label.receive_of_not_isToken pending _ htoken, hnodes, hsame]

/-!
The tree around a node.
-/

open Surroundings

namespace Encloses

variable {s : Frame} {ss : Surroundings} {hole : Nat}

theorem behind_subset (h : f.Encloses ss hole) : behind f ss ⊆ ss.ids := by
  induction ss generalizing hole with
  | nil => exact List.Subset.refl _
  | cons s ss ih =>
    obtain ⟨-, -, -, hbelow, hss⟩ := h
    rw [behind, Surroundings.ids_cons]
    refine List.append_subset.mpr ⟨fun i hi => ?_, ?_⟩
    · obtain ⟨c, hc, hi⟩ := List.mem_flatMap.mp hi
      have hc' := List.mem_append_right s.left hc
      exact List.mem_append_left _
        (Frame.ids_subset hc' ((hbelow c hc').tokens_sublist.subset hi))
    · exact List.subset_append_of_subset_right _ (ih hss)

theorem receive_frame (h : f.Encloses (s :: ss) hole) (hnodup : (Surroundings.ids (s :: ss)).Nodup)
    (pending : Option String) (hg : ∀ i ∈ Surroundings.ids (s :: ss),
      g.label i = f.handed pending (behind f (s :: ss)).head? i) :
    g.label s.id = f.label s.id ∧
      s.left.map (Outline.node g) = s.left.map (Outline.node f) ∧
      s.right.map (Outline.node g) = (receiveAll pending (s.right.map (Outline.node f))).1 ∧
      ∀ i ∈ ss.ids, g.label i =
        f.handed (receiveAll pending (s.right.map (Outline.node f))).2 (behind f ss).head? i := by
  have hbehind := h.2.2.2.2.behind_subset
  obtain ⟨-, -, -, hbelow, -⟩ := h
  rw [Surroundings.ids_cons, List.nodup_append, Frame.ids, List.nodup_cons, List.flatMap_append,
    List.nodup_append] at hnodup
  obtain ⟨⟨hid, -, hright, hleft⟩, -, hdisjoint⟩ := hnodup
  simp only [Surroundings.ids_cons, Frame.ids, List.flatMap_append, List.cons_append,
    List.mem_cons, List.mem_append, behind] at hg hid hdisjoint
  have hholds : ∀ c ∈ s.right, ∃ parent, f.Holds parent c := fun c hc =>
    ⟨_, hbelow c (List.mem_append_right _ hc)⟩
  have htokens := (flatMap_tokens_sublist hholds).subset
  -- The token is among the siblings behind the node or further up.
  have hkept {i : Nat} (hi : i = s.id ∨ i ∈ s.left.flatMap Outline.ids) :
      some i ≠ (s.right.flatMap (Outline.tokens f) ++ behind f ss).head? := by
    intro heq
    have hmem := List.mem_of_mem_head? (Option.mem_def.mpr heq.symm)
    rcases List.mem_append.mp hmem with hmem | hmem
    · rcases hi with rfl | hi
      · exact hid (.inr (htokens hmem))
      · exact hleft i hi i (htokens hmem) rfl
    · refine hdisjoint i ?_ i (hbehind hmem) rfl
      rcases hi with rfl | hi
      · exact .inl rfl
      · exact .inr (.inl hi)
  have hreceives : ∀ c ∈ s.right, f.Receives c := fun c hc =>
    (hbelow c (List.mem_append_right _ hc)).receives (hright.sublist (Outline.ids_sublist hc))
  obtain ⟨hnodes, hpending⟩ := nodes_receiveAll hholds hreceives hright pending _
    (fun i hi hi' => hdisjoint i (.inr (.inr hi')) i (hbehind hi) rfl)
    fun i hi => hg i (.inr (.inl (.inr hi)))
  refine ⟨?_, ?_, hnodes, fun i hi => ?_⟩
  · rw [hg _ (.inl rfl), handed_of_ne (hkept (.inl rfl))]
  · refine List.map_congr_left fun c hc => ?_
    refine (hbelow c (List.mem_append_left _ hc)).node_congr fun i hi => ?_
    have hi' := (Outline.ids_sublist hc).subset hi
    rw [hg i (.inr (.inl (.inl hi'))), handed_of_ne (hkept (.inr hi'))]
  · rw [hg i (.inr (.inr hi)), hpending]
    exact handed_append fun hi' => hdisjoint i (.inr (.inr (htokens hi'))) i hi rfl

theorem context_receive (h : f.Encloses ss hole) (hnodup : ss.ids.Nodup)
    (hg : ∀ i ∈ ss.ids, g.label i = f.handed pending (behind f ss).head? i) :
    context g ss = ((context f ss).receive pending).1 := by
  induction ss generalizing hole pending with
  | nil => rfl
  | cons s ss ih =>
    obtain ⟨hid, hleft, hright, hrest⟩ := h.receive_frame hnodup pending hg
    rw [Surroundings.ids_cons, List.nodup_append] at hnodup
    rw [context, context, Context.receive_comp, ih h.2.2.2.2 hnodup.2.1 hrest, hid, hleft, hright]
    rfl

end Encloses

theorem node_graft (f : Forest) (s : Frame) (ss : Surroundings) (new : List Outline) :
    (graft s ss new).node f = (context f ss).plug
      (.mk (f.label s.id) (s.left.map (Outline.node f) ++ new.map (Outline.node f) ++
        s.right.map (Outline.node f))) := by
  rw [graft, node_plug, Outline.node_mk, List.map_append, List.map_append]

theorem node_defaultField {parent : Option Nat} {o : Outline} (h : f.Holds parent o)
    (hnodup : o.ids.Nodup) {field : Option String}
    (hroot : g.label o.id = { f.label o.id with field := (f.label o.id).field <|> field })
    (hrest : ∀ i ∈ o.ids, i ≠ o.id → g.label i = f.label i) :
    o.node g = (o.node f).defaultField field := by
  cases h with
  | @mk _ id cs _ _ _ hbelow =>
    rw [Outline.ids_mk, List.nodup_cons] at hnodup
    rw [Outline.node_mk, Outline.node_mk, Node.defaultField, show g.label id = _ from hroot]
    congr 1
    refine List.map_congr_left fun c hc => (hbelow c hc).node_congr fun i hi => ?_
    have hi' := (Outline.ids_sublist hc).subset hi
    refine hrest i ?_ ?_
    · rw [Outline.ids_mk]
      exact List.mem_cons_of_mem id hi'
    · rintro rfl
      exact hnodup.1 hi'

/-- A tree is made ready for another place: first it is given the trivia, then the role. -/
theorem HasOutline.node_given {m : Nat} {n : Outline} (h : f.HasOutline m n) {leading : String}
    {field : Option String}
    (hg : ∀ i ∈ n.ids, g.label i = { f.label i with
      leading := if some i = (n.tokens f).head? then leading else (f.label i).leading
      field := if i = m then (f.label m).field <|> field else (f.label i).field }) :
    n.node g = ((f.tree m).setLeading leading).defaultField field := by
  have hfirst : ∀ t ∈ (n.tokens f).head?, t < f.size := fun t ht =>
    h.holds.lt_size t (h.holds.tokens_sublist.subset (List.mem_of_mem_head? ht))
  have hgiven := label_giveLeading hfirst leading
  have hreceives := h.holds.receives h.nodup (f.giveLeading (n.tokens f).head? leading)
    (some leading) [] (by simp) fun i _ => by
      rw [List.append_nil]
      exact hgiven i
  have hholds : (f.giveLeading (n.tokens f).head? leading).Holds none n :=
    h.holds.congr (by simp) (by simp) (by simp)
  rw [Node.setLeading_eq, h.tree_eq, ← hreceives]
  refine node_defaultField hholds h.nodup ?_ fun i hi hne => ?_
  · rw [hgiven, hg _ n.id_mem_ids, h.root, if_pos rfl]
  · rw [hgiven, hg i hi, if_neg (by rwa [← h.root])]

namespace Standing

variable {root : Nat} {s : Frame} {ss : Surroundings} {o : Outline} (h : f.Standing root s ss o)

include h

theorem tree_below : f.tree o.id = o.node f :=
  h.below.tree_eq h.nodup_parts.2.1

theorem leading_below : f.leading o.id = (f.tree o.id).leading := by
  rw [h.tree_below, leading_node h.below h.nodup_parts.2.1]

theorem tree_root :
    f.tree root = (context f ss).plug (.mk (f.label s.id)
      (s.left.map (Outline.node f) ++ f.tree o.id :: s.right.map (Outline.node f))) := by
  rw [h.tree_eq, plug_eq_graft, node_graft, h.tree_below]
  simp

theorem exists_replace_tree {m : Nat} {n : Outline} (hn : f.HasOutline m n)
    (hdetached : ∀ i ∈ n.ids, i ∉ (plug (s :: ss) o).ids) :
    ∃ g, f.replace o.id m = .ok g ∧ g.IsTree root ∧
      g.tree root = (context f ss).plug (.mk (f.label s.id) (s.left.map (Outline.node f) ++
        Node.inPlaceOf (f.tree o.id) (f.tree m) :: s.right.map (Outline.node f))) := by
  obtain ⟨g, hg, houtline, hlabel⟩ := h.exists_replace hn hdetached
  refine ⟨g, hg, houtline.isTree, ?_⟩
  have hnew : n.node g = Node.inPlaceOf (f.tree o.id) (f.tree m) := by
    rw [Node.inPlaceOf, ← h.leading_below, h.tree_below, label_node]
    exact hn.node_given fun i _ => hlabel i
  have hold : ∀ i ∈ Surroundings.ids (s :: ss),
      g.label i = f.handed none (behind f (s :: ss)).head? i := by
    intro i hi
    have hi' : i ∉ n.ids := fun hmem =>
      hdetached i hmem ((ids_plug _ o).mem_iff.mpr (List.mem_append_left _ hi))
    rw [hlabel, if_neg, if_neg, handed]
    · exact fun heq => hi' (hn.holds.tokens_sublist.subset (List.mem_of_mem_head? heq.symm))
    · rintro rfl
      rw [← hn.root] at hi'
      exact hi' n.id_mem_ids
  obtain ⟨hid, hleft, hright, hrest⟩ := h.encloses.receive_frame h.nodup_parts.1 none hold
  have hnodup := h.nodup_parts.1
  rw [Surroundings.ids_cons, List.nodup_append] at hnodup
  have hcontext := h.encloses.2.2.2.2.context_receive hnodup.2.1 hrest
  rw [Node.receiveAll_none] at hright hcontext
  rw [Context.receive_none] at hcontext
  rw [houtline.tree_eq, node_graft, hid, hleft, hright, hcontext, List.map_singleton, hnew]
  simp

theorem exists_remove_tree :
    ∃ g, f.remove o.id = .ok g ∧ g.IsTree root ∧
      let (right, pending) := receiveAll (some (f.tree o.id).leading) (s.right.map (Outline.node f))
      g.tree root = ((context f ss).receive pending).1.plug
        (.mk (f.label s.id) (s.left.map (Outline.node f) ++ right)) := by
  obtain ⟨g, hg, houtline, hlabel⟩ := h.exists_remove
  refine ⟨g, hg, houtline.isTree, ?_⟩
  rw [h.leading_below] at hlabel
  have hnodup := h.nodup_parts.1
  obtain ⟨hid, hleft, hright, hrest⟩ := h.encloses.receive_frame hnodup
    (some (f.tree o.id).leading) fun i _ => hlabel i
  rw [Surroundings.ids_cons, List.nodup_append] at hnodup
  have hcontext := h.encloses.2.2.2.2.context_receive hnodup.2.1 hrest
  rw [houtline.tree_eq, node_graft, hid, hleft, hright, hcontext]
  simp

end Standing

/--
The edits of a table make the trees that the conversion of a shader makes: a new node is made ready
for the place of the old one, and what follows a node that is taken out takes over its trivia.
-/
theorem edit_tree {root x n : Nat} (htree : f.IsTree root)
    (hleaves : ∀ i ∈ f.walk root, (f.label i).isToken → f.children i = [])
    (hx : x ∈ f.walk root) (hne : x ≠ root) (hn : f.IsTree n)
    (hdetached : ∀ i ∈ f.walk n, i ∉ f.walk root) :
    ∃ c l left right, f.tree root = Context.plug c (.mk l (left ++ f.tree x :: right)) ∧
      (∃ g, f.replace x n = .ok g ∧ g.IsTree root ∧
        g.tree root =
          c.plug (.mk l (left ++ Node.inPlaceOf (f.tree x) (f.tree n) :: right))) ∧
      ∃ g, f.remove x = .ok g ∧ g.IsTree root ∧
        let (right, pending) := receiveAll (some (f.tree x).leading) right
        g.tree root = (c.receive pending).1.plug (.mk l (left ++ right)) := by
  obtain ⟨s, ss, o, h, rfl⟩ := htree.exists_standing hleaves hx hne
  obtain ⟨m, hm⟩ := hn.exists_outline
  have hown : ∀ i ∈ m.ids, i ∉ (plug (s :: ss) o).ids := by
    rwa [← hm.walk_eq, ← h.walk_eq]
  exact ⟨_, _, _, _, h.tree_root, h.exists_replace_tree hm hown, h.exists_remove_tree⟩

/-!
Removing the qualifiers of a declaration.
-/

section

variable {α β : Type} (h : α → β) (label : β → Label)

theorem markQualifiers_map (cs : List α) :
    markQualifiers label (cs.map h) =
      (markQualifiers (fun c => label (h c)) cs).map fun c => (h c.1, c.2) := by
  induction cs with
  | nil => rfl
  | cons c cs ih =>
    rw [List.map_cons, markQualifiers, markQualifiers, ih]
    split
    · rfl
    · split
      · simp [Function.comp_def]
      · rfl

end

theorem dropMarked_keep (pending : Option String) (n : Node) (ms : List (Node × Bool)) :
    Node.dropMarked pending ((n, false) :: ms) =
      ((n.receive pending).1 :: (Node.dropMarked (n.receive pending).2 ms).1,
        (Node.dropMarked (n.receive pending).2 ms).2) := by
  rw [Node.dropMarked]
  rfl

theorem dropMarked_drop (pending : Option String) (n : Node) (ms : List (Node × Bool)) :
    Node.dropMarked pending ((n, true) :: ms) =
      Node.dropMarked (some (n.receive pending).1.leading) ms := by
  rw [Node.dropMarked]
  rfl

theorem behind_congr (h : ∀ i, (g.label i).isToken = (f.label i).isToken) (ss : Surroundings) :
    behind g ss = behind f ss := by
  induction ss with
  | nil => rfl
  | cons s ss ih =>
    rw [behind, behind, ih, List.flatMap_def, List.flatMap_def,
      List.map_congr_left fun c _ => Outline.tokens_congr h c]

/--
What is known on the way through the children of a node `x`, of which some are taken out: the table
`f` at the start and the table `g` now, the children that were kept and those that are left, and the
trivia that was handed to the first token behind those kept.
-/
structure Stripping (f g : Forest) (root x : Nat) (ss : Surroundings) (kept rest : List Outline)
    (pending : Option String) : Prop where
  outline : g.HasOutline root (plug ss (.mk x (kept ++ rest)))
  encloses : f.Encloses ss x
  holds : ∀ o ∈ rest, ∃ parent, f.Holds parent o
  parent : (f.label x).isToken = false
  inner : ∀ t ∈ ss, (f.label t.id).isToken = false
  isToken : ∀ i, (g.label i).isToken = (f.label i).isToken
  label : ∀ i ∈ rest.flatMap Outline.ids ++ ss.ids,
    g.label i = f.handed pending (rest.flatMap (Outline.tokens f) ++ behind f ss).head? i

namespace Stripping

variable {root x : Nat} {ss : Surroundings} {kept rest : List Outline} {o : Outline}

theorem nodup (h : Stripping f g root x ss kept rest pending) :
    ss.ids.Nodup ∧ (kept.flatMap Outline.ids).Nodup ∧ (rest.flatMap Outline.ids).Nodup ∧
      (∀ i ∈ rest.flatMap Outline.ids ++ ss.ids, i ≠ x ∧ i ∉ kept.flatMap Outline.ids) ∧
      ∀ i ∈ ss.ids, i ∉ rest.flatMap Outline.ids := by
  have hnodup := (ids_plug ss _).nodup_iff.mp h.outline.nodup
  simp only [List.nodup_append, Outline.ids_mk, List.nodup_cons, List.flatMap_append,
    List.mem_cons, List.mem_append, not_or] at hnodup
  obtain ⟨hss, ⟨hx, hkept, hrest, hapart⟩, hdisjoint⟩ := hnodup
  refine ⟨hss, hkept, hrest, fun i hi => ?_, fun i hi hi' => hdisjoint i hi i (.inr (.inr hi')) rfl⟩
  rcases List.mem_append.mp hi with hi | hi
  · refine ⟨?_, fun hi' => hapart i hi' i hi rfl⟩
    rintro rfl
    exact hx.2 hi
  · exact ⟨hdisjoint i hi x (.inl rfl), fun hi' => hdisjoint i hi i (.inr (.inl hi')) rfl⟩

theorem mem_of_head? (h : Stripping f g root x ss kept rest pending) {i : Nat}
    (hi : some i = (rest.flatMap (Outline.tokens f) ++ behind f ss).head?) :
    i ∈ rest.flatMap Outline.ids ++ ss.ids := by
  rcases List.mem_append.mp (List.mem_of_mem_head? hi.symm) with hi | hi
  · exact List.mem_append_left _ ((flatMap_tokens_sublist h.holds).subset hi)
  · exact List.mem_append_right _ (h.encloses.behind_subset hi)

theorem node_head (h : Stripping f g root x ss kept (o :: rest) pending) :
    o.node g = ((o.node f).receive pending).1 := by
  obtain ⟨-, -, hrest, -, hss⟩ := h.nodup
  rw [List.flatMap_cons, List.nodup_append] at hrest
  obtain ⟨ho, -, hdisjoint⟩ := hrest
  obtain ⟨⟨_, hholds⟩, hothers⟩ := List.forall_mem_cons.mp h.holds
  refine hholds.receives ho g pending (rest.flatMap (Outline.tokens f) ++ behind f ss)
    (fun i hi hi' => ?_) fun i hi => ?_
  · rcases List.mem_append.mp hi with hi | hi
    · exact hdisjoint i hi' i ((flatMap_tokens_sublist hothers).subset hi) rfl
    · exact hss i (h.encloses.behind_subset hi) (by simp [hi'])
  · rw [← List.append_assoc]
    exact h.label i (by simp [hi])

theorem keep (h : Stripping f g root x ss kept (o :: rest) pending) :
    Stripping f g root x ss (kept ++ [o]) rest ((o.node f).receive pending).2 := by
  obtain ⟨-, -, hrest, -, hss⟩ := h.nodup
  rw [List.flatMap_cons, List.nodup_append] at hrest
  obtain ⟨⟨_, hholds⟩, hothers⟩ := List.forall_mem_cons.mp h.holds
  refine ⟨?_, h.encloses, hothers, h.parent, h.inner, h.isToken, fun i hi => ?_⟩
  · rw [List.append_assoc]
    exact h.outline
  · have hi' : i ∈ (o :: rest).flatMap Outline.ids ++ ss.ids := by
      rw [List.flatMap_cons, List.append_assoc]
      exact List.mem_append_right _ hi
    rw [h.label i hi', List.flatMap_cons, List.append_assoc, receive_node_snd hholds]
    refine handed_append fun htoken => ?_
    have htoken' := hholds.tokens_sublist.subset htoken
    rcases List.mem_append.mp hi with hi | hi
    · exact hrest.2.2 i htoken' i hi rfl
    · exact hss i hi (by simp [htoken'])

theorem exists_drop (h : Stripping f g root x ss kept (o :: rest) pending) :
    ∃ g', g.remove o.id = .ok g' ∧
      Stripping f g' root x ss kept rest (some ((o.node f).receive pending).1.leading) ∧
      g'.label x = g.label x ∧ kept.map (Outline.node g') = kept.map (Outline.node g) := by
  have hstanding : g.Standing root ⟨x, kept, rest⟩ ss o := by
    refine ⟨h.outline, List.forall_mem_cons.mpr ⟨?_, fun t ht => ?_⟩⟩
    · rw [h.isToken]
      exact h.parent
    · rw [h.isToken]
      exact h.inner t ht
  obtain ⟨g', hg', houtline, hlabel⟩ := hstanding.exists_remove
  rw [hstanding.leading_below, hstanding.tree_below, h.node_head, behind_congr h.isToken,
    behind] at hlabel
  have hkeep := h.keep
  have hne {i : Nat} (hi : i = x ∨ i ∈ kept.flatMap Outline.ids) :
      some i ≠ (rest.flatMap (Outline.tokens f) ++ behind f ss).head? := by
    intro heq
    obtain ⟨hx, hkept⟩ := hkeep.nodup.2.2.2.1 i (hkeep.mem_of_head? heq)
    rcases hi with hi | hi
    · exact hx hi
    · exact hkept (by simp [hi])
  refine ⟨g', hg', ⟨?_, h.encloses, hkeep.holds, h.parent, h.inner, fun i => ?_, fun i hi => ?_⟩,
    ?_, ?_⟩
  · rw [← List.append_nil kept]
    exact houtline
  · rw [← h.isToken, hlabel]
    rfl
  · rw [hlabel, hkeep.label i hi]
    by_cases heq : some i = (rest.flatMap (Outline.tokens f) ++ behind f ss).head?
    · cases ((o.node f).receive pending).2 <;> simp [handed, heq]
    · rw [handed_of_ne heq, handed_of_ne heq, if_neg heq]
  · rw [hlabel, if_neg (hne (.inl rfl))]
  · refine List.map_congr_left fun c hc => ?_
    have hbelow := hstanding.encloses.2.2.2.1 c (List.mem_append_left _ hc)
    refine hbelow.node_congr fun i hi => ?_
    rw [hlabel, if_neg (hne (.inr ((Outline.ids_sublist hc).subset hi)))]

end Stripping

/-- By induction on the children: each one is kept or taken out. -/
theorem removeAll_marked {root x : Nat} {ss : Surroundings} (ms : List (Outline × Bool))
    {kept : List Outline} (h : Stripping f g root x ss kept (ms.map Prod.fst) pending) :
    ∃ g' os, g.removeAll ((ms.filter Prod.snd).map fun m => m.1.id) = (g', .ok ()) ∧
      g'.HasOutline root (plug ss (.mk x (kept ++ os))) ∧ g'.label x = g.label x ∧
      kept.map (Outline.node g') = kept.map (Outline.node g) ∧
      os.map (Outline.node g') =
        (Node.dropMarked pending (ms.map fun m => (m.1.node f, m.2))).1 ∧
      context g' ss = ((context f ss).receive
        (Node.dropMarked pending (ms.map fun m => (m.1.node f, m.2))).2).1 := by
  induction ms generalizing kept g pending with
  | nil =>
    refine ⟨g, [], rfl, h.outline, rfl, rfl, rfl, ?_⟩
    exact h.encloses.context_receive h.nodup.1 fun i hi => h.label i hi
  | cons m ms ih =>
    obtain ⟨o, marked⟩ := m
    have hhead := h.node_head
    cases marked with
    | false =>
      obtain ⟨g', os, hremove, houtline, hlabel, hkept, hnodes, hcontext⟩ := ih h.keep
      simp only [List.map_append, List.map_cons, List.map_nil] at hkept
      obtain ⟨hkept, ho⟩ := List.append_inj hkept (by simp)
      refine ⟨g', o :: os, ?_, ?_, hlabel, hkept, ?_, ?_⟩
      · rw [List.filter_cons_of_neg (by simp)]
        exact hremove
      · rw [List.append_assoc] at houtline
        exact houtline
      · rw [List.map_cons, List.map_cons, dropMarked_keep, hnodes, (List.cons.inj ho).1, hhead]
      · rw [List.map_cons, dropMarked_keep]
        exact hcontext
    | true =>
      obtain ⟨g₁, hg₁, hstripping, hlabel₁, hkept₁⟩ := h.exists_drop
      obtain ⟨g', os, hremove, houtline, hlabel, hkept, hnodes, hcontext⟩ := ih hstripping
      refine ⟨g', os, ?_, houtline, hlabel.trans hlabel₁, hkept.trans hkept₁, ?_, ?_⟩
      · rw [List.filter_cons_of_pos rfl, List.map_cons, removeAll, hg₁]
        exact hremove
      · rw [List.map_cons, dropMarked_drop]
        exact hnodes
      · rw [List.map_cons, dropMarked_drop]
        exact hcontext

theorem qualifiers_children {parent : Option Nat} {x : Nat} {cs : List Outline}
    (h : f.Holds parent (.mk x cs)) :
    qualifiers f.label (f.children x) =
      ((markQualifiers (fun c => f.label c.id) cs).filter Prod.snd).map fun m => m.1.id := by
  rw [(holds_mk.mp h).2.2.1, qualifiers, markQualifiers_map, List.filter_map, List.map_map]
  rfl

theorem markQualifiers_nodes (f : Forest) (cs : List Outline) :
    markQualifiers Node.label (cs.map (Outline.node f)) =
      (markQualifiers (fun c => f.label c.id) cs).map fun m => (m.1.node f, m.2) := by
  rw [markQualifiers_map]
  simp only [label_node]

/--
Taking the qualifiers of a declaration out of a table makes the tree that the conversion of a shader
makes: trivia in front of them goes to the rest of the declaration, or else to what follows it.
-/
theorem strip_tree {root x : Nat} (htree : f.IsTree root)
    (hleaves : ∀ i ∈ f.walk root, (f.label i).isToken → f.children i = [])
    (hx : x ∈ f.walk root) :
    ∃ c g, f.tree root = Context.plug c (f.tree x) ∧ f.strip x = (g, .ok ()) ∧ g.IsTree root ∧
      g.tree root =
        (c.receive ((f.tree x).stripField none).2).1.plug ((f.tree x).stripField none).1 := by
  obtain ⟨o, h⟩ := htree.exists_outline
  have hmem : x ∈ o.ids := by rwa [← h.walk_eq]
  obtain ⟨ss, ⟨y, cs⟩, rfl, hid⟩ := exists_plug h.holds x hmem
  obtain rfl : x = y := hid.symm
  obtain ⟨hencloses, hbelow⟩ := holds_plug.mp h.holds
  have hnodup := (ids_plug ss (.mk x cs)).nodup_iff.mp h.nodup
  have htree_x : f.tree x = (Outline.mk x cs).node f :=
    hbelow.tree_eq (List.nodup_append.mp hnodup).2.1
  have htree_root : f.tree root = (context f ss).plug (f.tree x) := by
    rw [h.tree_eq, node_plug, htree_x]
  have hstrip : f.strip x = f.removeAll (qualifiers f.label (f.children x)) := rfl
  rw [qualifiers_children hbelow] at hstrip
  rw [Outline.node_mk] at htree_x
  by_cases htoken : (f.label x).isToken
  · -- A token has no children, so nothing is taken out.
    have hnil := hleaves x hx htoken
    rw [(holds_mk.mp hbelow).2.2.1, List.map_eq_nil_iff] at hnil
    subst hnil
    refine ⟨_, f, htree_root, hstrip, h.isTree, ?_⟩
    rw [htree_root, htree_x, Node.stripField, Label.receive]
    exact (congrArg (fun c => Context.plug c.1 _) (Context.receive_none _)).symm
  · have hstripping : Stripping f f root x ss []
        ((markQualifiers (fun c => f.label c.id) cs).map Prod.fst) none := by
      rw [map_fst_markQualifiers]
      exact ⟨h, hencloses, fun o ho => ⟨_, (holds_mk.mp hbelow).2.2.2 o ho⟩, by simpa using htoken,
        h.inner hleaves, fun _ => rfl, fun _ _ => rfl⟩
    obtain ⟨g, os, hg, houtline, hlabel, -, hnodes, hcontext⟩ := removeAll_marked _ hstripping
    refine ⟨_, g, htree_root, hstrip.trans hg, houtline.isTree, ?_⟩
    rw [houtline.tree_eq, node_plug, Outline.node_mk, List.nil_append, hlabel, hnodes, hcontext,
      htree_x, Node.stripField, Label.receive, markQualifiers_nodes]

end Forest

end ShaderParams

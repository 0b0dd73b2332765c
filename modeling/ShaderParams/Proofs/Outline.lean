import Mathlib.Data.List.Nodup
import Mathlib.Data.List.Perm.Subperm
import ShaderParams.Syntax.Forest

/-!
This module contains the trees that stand in a table of nodes: which numbers belong to a tree, what
is read off it, and what stands around a node.
-/

namespace ShaderParams

/--
The numbers of the nodes of a tree, in its shape.
-/
inductive Outline where
  | mk (id : Nat) (children : List Outline)

namespace Outline

def id : Outline → Nat
  | mk id _ => id

section

variable {α : Type} (step : Nat → List α → α)

mutual

/-- What `step` makes of a node from what it makes of its children. -/
def fold : Outline → α
  | mk id cs => step id (listFold cs)

def listFold : List Outline → List α
  | [] => []
  | c :: cs => c.fold :: listFold cs

end

theorem listFold_eq_map (cs : List Outline) : listFold step cs = cs.map (fold step) := by
  induction cs with
  | nil => rfl
  | cons c cs ih => rw [listFold, ih, List.map_cons]

theorem fold_mk (id : Nat) (cs : List Outline) :
    (mk id cs).fold step = step id (cs.map (fold step)) := by
  rw [fold, listFold_eq_map]

end

def ids (o : Outline) : List Nat :=
  o.fold fun id rest => id :: rest.flatten

def tokens (f : Forest) (o : Outline) : List Nat :=
  o.fold fun id rest => if (f.label id).isToken then [id] else rest.flatten

def node (f : Forest) (o : Outline) : Node :=
  o.fold fun id rest => .mk (f.label id) rest

theorem ids_mk (id : Nat) (cs : List Outline) : (mk id cs).ids = id :: cs.flatMap ids := by
  rw [ids, fold_mk]
  rfl

theorem tokens_mk (f : Forest) (id : Nat) (cs : List Outline) :
    (mk id cs).tokens f = if (f.label id).isToken then [id] else cs.flatMap (tokens f) := by
  rw [tokens, fold_mk]
  rfl

theorem node_mk (f : Forest) (id : Nat) (cs : List Outline) :
    (mk id cs).node f = .mk (f.label id) (cs.map (node f)) := by
  rw [node, fold_mk]
  rfl

theorem id_mem_ids (o : Outline) : o.id ∈ o.ids := by
  cases o with
  | mk i cs => simp [ids_mk, id]

theorem ids_ne_nil (o : Outline) : o.ids ≠ [] :=
  List.ne_nil_of_mem o.id_mem_ids

theorem ids_sublist {c : Outline} {cs : List Outline} (hc : c ∈ cs) :
    c.ids.Sublist (cs.flatMap ids) := by
  rw [List.flatMap_def]
  exact List.sublist_flatten_of_mem (List.mem_map_of_mem hc)

theorem ids_subset {c : Outline} {cs : List Outline} (hc : c ∈ cs) (id : Nat) :
    c.ids ⊆ (mk id cs).ids := by
  rw [ids_mk]
  exact List.subset_cons_of_subset id (ids_sublist hc).subset

theorem tokens_congr {f g : Forest} (h : ∀ i, (g.label i).isToken = (f.label i).isToken)
    (o : Outline) : o.tokens g = o.tokens f := by
  simp only [tokens, h]

end Outline

namespace Forest

/--
Whether a tree stands in a table: every node of the tree lists its children and is known to them as
their parent.
-/
inductive Holds (f : Forest) : Option Nat → Outline → Prop where
  | mk {parent : Option Nat} {id : Nat} {cs : List Outline} (hlt : id < f.size)
      (hparent : f.parent? id = parent) (hchildren : f.children id = cs.map Outline.id)
      (hbelow : ∀ c ∈ cs, f.Holds (some id) c) :
    Holds f parent (.mk id cs)

def IsTree (f : Forest) (root : Nat) : Prop :=
  ∃ o : Outline, o.id = root ∧ o.ids.Nodup ∧ f.Holds none o

variable {f g : Forest} {parent : Option Nat} {o : Outline}

namespace Holds

theorem parent_eq (h : f.Holds parent o) : f.parent? o.id = parent := by
  cases h with
  | mk _ hparent _ _ => exact hparent

theorem lt_size (h : f.Holds parent o) : ∀ i ∈ o.ids, i < f.size := by
  induction h with
  | @mk _ id cs hlt _ _ _ ih =>
    intro i hi
    rw [Outline.ids_mk, List.mem_cons, List.mem_flatMap] at hi
    rcases hi with rfl | ⟨c, hc, hi⟩
    · exact hlt
    · exact ih c hc i hi

theorem length_ids_le (h : f.Holds parent o) (hnodup : o.ids.Nodup) : o.ids.length ≤ f.size := by
  have hsubset : o.ids ⊆ List.range f.size := fun i hi => List.mem_range.mpr (h.lt_size i hi)
  simpa using (List.subperm_of_subset hnodup hsubset).length_le

/-- A tree stays where only nodes outside of it are changed, and nodes may be added. -/
theorem congr (h : f.Holds parent o) (hsize : f.size ≤ g.size)
    (hparent : ∀ i ∈ o.ids, g.parent? i = f.parent? i)
    (hchildren : ∀ i ∈ o.ids, g.children i = f.children i) : g.Holds parent o := by
  induction h with
  | @mk parent id cs hlt hp hcs _ ih =>
    have hid : id ∈ (Outline.mk id cs).ids := Outline.id_mem_ids _
    refine .mk (by omega) ((hparent id hid).trans hp) ((hchildren id hid).trans hcs) fun c hc => ?_
    have hsub := Outline.ids_subset hc id
    exact ih c hc (fun i hi => hparent i (hsub hi)) fun i hi => hchildren i (hsub hi)

theorem reparent (h : f.Holds parent o) (hnodup : o.ids.Nodup) (hsize : f.size ≤ g.size)
    {parent' : Option Nat} (hroot : g.parent? o.id = parent')
    (hparent : ∀ i ∈ o.ids, i ≠ o.id → g.parent? i = f.parent? i)
    (hchildren : ∀ i ∈ o.ids, g.children i = f.children i) : g.Holds parent' o := by
  cases h with
  | @mk _ id cs hlt hp hcs hbelow =>
    have hid : id ∈ (Outline.mk id cs).ids := Outline.id_mem_ids _
    refine .mk (by omega) hroot ((hchildren id hid).trans hcs) fun c hc => ?_
    have hsub := Outline.ids_subset hc id
    refine (hbelow c hc).congr hsize (fun i hi => hparent i (hsub hi) ?_)
      fun i hi => hchildren i (hsub hi)
    rintro rfl
    rw [Outline.ids_mk, List.nodup_cons] at hnodup
    exact hnodup.1 ((Outline.ids_sublist hc).subset hi)

/--
Searches go down as many levels as there are nodes, which is enough: below a node are fewer nodes
than below its parent.
-/
theorem fold_eq {α : Type} {step : Nat → List α → α} (search : Nat → Nat → α)
    (hzero : ∀ id, search 0 id = step id [])
    (hsucc : ∀ depth id, search (depth + 1) id = step id ((f.children id).map (search depth)))
    (h : f.Holds parent o) (depth : Nat) (hdepth : o.ids.length ≤ depth + 1) :
    search depth o.id = o.fold step := by
  induction h generalizing depth with
  | @mk parent id cs hlt hp hcs hbelow ih =>
    rw [Outline.fold_mk, Outline.id]
    rw [Outline.ids_mk, List.length_cons] at hdepth
    cases depth with
    | zero =>
      cases cs with
      | nil => exact hzero id
      | cons c cs =>
        have hpos := List.length_pos_iff.mpr c.ids_ne_nil
        have hle := (Outline.ids_sublist (List.mem_cons_self (a := c) (l := cs))).length_le
        omega
    | succ depth =>
      rw [hsucc, hcs, List.map_map]
      congr 1
      refine List.map_congr_left fun c hc => ih c hc depth ?_
      have hle := (Outline.ids_sublist hc).length_le
      omega

variable (h : f.Holds parent o) (hnodup : o.ids.Nodup)

include h hnodup

theorem walk_eq : f.walk o.id = o.ids := by
  have hle := h.length_ids_le hnodup
  refine fold_eq f.walkTo (fun id => rfl) (fun depth id => ?_) h f.size (by omega)
  rw [walkTo, List.flatMap_def]

theorem tokens_eq : f.tokens o.id = o.tokens f := by
  have hle := h.length_ids_le hnodup
  refine fold_eq f.tokensTo (fun id => rfl) (fun depth id => ?_) h f.size (by omega)
  rw [tokensTo, List.flatMap_def]

theorem tree_eq : f.tree o.id = o.node f := by
  have hle := h.length_ids_le hnodup
  exact fold_eq f.treeTo (fun id => rfl) (fun depth id => rfl) h f.size (by omega)

end Holds

theorem tokens_node (h : f.Holds parent o) : (o.node f).tokens = (o.tokens f).map f.label := by
  induction h with
  | @mk _ id cs _ _ _ _ ih =>
    rw [Outline.node_mk, Outline.tokens_mk, Node.tokens]
    split
    · rfl
    · rw [Node.listTokens_eq_flatMap, List.flatMap_map, List.map_flatMap, List.flatMap_def,
        List.flatMap_def, List.map_congr_left ih]

theorem flatMap_sublist_flatMap {α β : Type} {l : List α} {p q : α → List β}
    (h : ∀ a ∈ l, (p a).Sublist (q a)) : (l.flatMap p).Sublist (l.flatMap q) := by
  induction l with
  | nil => exact .slnil
  | cons a l ih =>
    exact (h a List.mem_cons_self).append (ih fun b hb => h b (List.mem_cons_of_mem a hb))

theorem Holds.tokens_sublist (h : f.Holds parent o) : (o.tokens f).Sublist o.ids := by
  induction h with
  | @mk _ id cs _ _ _ _ ih =>
    rw [Outline.tokens_mk, Outline.ids_mk]
    split
    · simp
    · exact .cons id (flatMap_sublist_flatMap ih)

theorem flatMap_tokens_sublist {cs : List Outline} (h : ∀ c ∈ cs, ∃ parent, f.Holds parent c) :
    (cs.flatMap (Outline.tokens f)).Sublist (cs.flatMap Outline.ids) := by
  refine flatMap_sublist_flatMap fun c hc => ?_
  obtain ⟨parent, hc⟩ := h c hc
  exact hc.tokens_sublist

def write (f : Forest) (ids : List Nat) : String :=
  Node.renderTokens (ids.map f.label)

theorem write_append (f : Forest) (is js : List Nat) :
    f.write (is ++ js) = f.write is ++ f.write js := by
  simp [write, Node.renderTokens]

def body (f : Forest) : List Nat → String
  | [] => ""
  | t :: ts => (f.label t).text.getD "" ++ f.write ts

theorem write_congr {is : List Nat} (h : ∀ i ∈ is, (g.label i).render = (f.label i).render) :
    g.write is = f.write is := by
  rw [write, write, Node.renderTokens, Node.renderTokens, List.map_map, List.map_map]
  exact congrArg String.join (List.map_congr_left h)

theorem text_tree (h : f.Holds parent o) (hnodup : o.ids.Nodup) :
    (f.tree o.id).text = f.body (f.tokens o.id) := by
  rw [h.tree_eq hnodup, h.tokens_eq hnodup, Node.text, tokens_node h]
  cases o.tokens f <;> rfl

theorem render_tree (h : f.Holds parent o) (hnodup : o.ids.Nodup) :
    (f.tree o.id).render = f.write (f.tokens o.id) := by
  rw [h.tree_eq hnodup, h.tokens_eq hnodup, Node.render, tokens_node h, write]

namespace IsTree

variable {root : Nat}

theorem render_eq (h : f.IsTree root) : (f.tree root).render = f.write (f.tokens root) := by
  obtain ⟨o, rfl, hnodup, ho⟩ := h
  exact render_tree ho hnodup

theorem text_eq (h : f.IsTree root) : (f.tree root).text = f.body (f.tokens root) := by
  obtain ⟨o, rfl, hnodup, ho⟩ := h
  exact text_tree ho hnodup

theorem nodup_tokens (h : f.IsTree root) : (f.tokens root).Nodup := by
  obtain ⟨o, rfl, hnodup, ho⟩ := h
  rw [ho.tokens_eq hnodup]
  exact hnodup.sublist ho.tokens_sublist

theorem tokens_subset (h : f.IsTree root) : f.tokens root ⊆ f.walk root := by
  obtain ⟨o, rfl, hnodup, ho⟩ := h
  rw [ho.tokens_eq hnodup, ho.walk_eq hnodup]
  exact ho.tokens_sublist.subset

theorem parent?_eq (h : f.IsTree root) : f.parent? root = none := by
  obtain ⟨o, rfl, -, ho⟩ := h
  exact ho.parent_eq

end IsTree

end Forest

/-!
What stands around a node.
-/

/--
A parent on the way from a node to the root, with the children in front of the way and behind it.
-/
structure Frame where
  id : Nat
  left : List Outline
  right : List Outline

namespace Frame

def ids (s : Frame) : List Nat :=
  s.id :: (s.left ++ s.right).flatMap Outline.ids

theorem ids_subset {s : Frame} {c : Outline} (hc : c ∈ s.left ++ s.right) : c.ids ⊆ s.ids :=
  List.subset_cons_of_subset s.id (Outline.ids_sublist hc).subset

end Frame

abbrev Surroundings := List Frame

namespace Surroundings

/-- The tree in which a given one has these surroundings. -/
def plug : Surroundings → Outline → Outline
  | [], o => o
  | s :: ss, o => plug ss (.mk s.id (s.left ++ o :: s.right))

def parent? (ss : Surroundings) : Option Nat :=
  ss.head?.map Frame.id

def ids (ss : Surroundings) : List Nat :=
  ss.flatMap Frame.ids

theorem ids_cons (s : Frame) (ss : Surroundings) : ids (s :: ss) = s.ids ++ ids ss := rfl

theorem length_le_ids (ss : Surroundings) : ss.length ≤ (ids ss).length := by
  induction ss with
  | nil => exact Nat.le_refl 0
  | cons s ss ih =>
    rw [ids_cons, Frame.ids, List.length_append, List.length_cons, List.length_cons]
    omega

def before (f : Forest) : Surroundings → List Nat
  | [] => []
  | s :: ss => before f ss ++ s.left.flatMap (Outline.tokens f)

def behind (f : Forest) : Surroundings → List Nat
  | [] => []
  | s :: ss => s.right.flatMap (Outline.tokens f) ++ behind f ss

theorem plug_append (ss ts : Surroundings) (o : Outline) :
    plug (ss ++ ts) o = plug ts (plug ss o) := by
  induction ss generalizing o with
  | nil => rfl
  | cons s ss ih => rw [List.cons_append, plug, plug, ih]

theorem id_plug (ss : Surroundings) {o o' : Outline} (h : o.id = o'.id) :
    (plug ss o).id = (plug ss o').id := by
  induction ss generalizing o o' with
  | nil => exact h
  | cons s ss ih => exact ih rfl

theorem ids_plug (ss : Surroundings) (o : Outline) : (plug ss o).ids.Perm (ids ss ++ o.ids) := by
  induction ss generalizing o with
  | nil => exact .refl _
  | cons s ss ih =>
    refine (ih _).trans ?_
    rw [Outline.ids_mk, ids_cons, Frame.ids]
    simp only [List.flatMap_append, List.flatMap_cons]
    grind

theorem id_mem_plug {ss : Surroundings} {t : Frame} (ht : t ∈ ss) (o : Outline) :
    t.id ∈ (plug ss o).ids := by
  refine (ids_plug ss o).symm.subset (List.mem_append_left _ ?_)
  exact List.mem_flatMap.mpr ⟨t, ht, List.mem_cons_self⟩

theorem tokens_plug {f : Forest} {ss : Surroundings} (h : ∀ s ∈ ss, (f.label s.id).isToken = false)
    (o : Outline) : (plug ss o).tokens f = before f ss ++ o.tokens f ++ behind f ss := by
  induction ss generalizing o with
  | nil => simp [plug, before, behind]
  | cons s ss ih =>
    have hs := h s List.mem_cons_self
    rw [plug, ih (fun s' hs' => h s' (List.mem_cons_of_mem s hs')), Outline.tokens_mk,
      if_neg (by simp [hs]), before, behind]
    simp [List.append_assoc]

theorem exists_plug {f : Forest} {parent : Option Nat} {o : Outline} (h : f.Holds parent o) :
    ∀ i ∈ o.ids, ∃ (ss : Surroundings) (x : Outline), plug ss x = o ∧ x.id = i := by
  induction h with
  | @mk _ id cs _ _ _ _ ih =>
    intro i hi
    rw [Outline.ids_mk, List.mem_cons, List.mem_flatMap] at hi
    rcases hi with rfl | ⟨c, hc, hi⟩
    · exact ⟨[], _, rfl, rfl⟩
    · obtain ⟨ss, x, rfl, hx⟩ := ih c hc i hi
      obtain ⟨left, right, rfl⟩ := List.append_of_mem hc
      exact ⟨ss ++ [⟨id, left, right⟩], x, plug_append .., hx⟩

end Surroundings

namespace Forest

/-- Whether a table has these surroundings around a node. -/
def Encloses (f : Forest) : Surroundings → Nat → Prop
  | [], _ => True
  | s :: ss, hole =>
    s.id < f.size ∧ f.parent? s.id = Surroundings.parent? ss ∧
      f.children s.id = s.left.map Outline.id ++ hole :: s.right.map Outline.id ∧
      (∀ c ∈ s.left ++ s.right, f.Holds (some s.id) c) ∧ f.Encloses ss s.id

variable {f g : Forest}

theorem holds_mk {parent : Option Nat} {id : Nat} {cs : List Outline} :
    f.Holds parent (.mk id cs) ↔ id < f.size ∧ f.parent? id = parent ∧
      f.children id = cs.map Outline.id ∧ ∀ c ∈ cs, f.Holds (some id) c := by
  constructor
  · rintro ⟨hlt, hparent, hchildren, hbelow⟩
    exact ⟨hlt, hparent, hchildren, hbelow⟩
  · rintro ⟨hlt, hparent, hchildren, hbelow⟩
    exact .mk hlt hparent hchildren hbelow

theorem holds_plug {ss : Surroundings} {o : Outline} :
    f.Holds none (ss.plug o) ↔ f.Encloses ss o.id ∧ f.Holds ss.parent? o := by
  induction ss generalizing o with
  | nil => simp [Surroundings.plug, Encloses, Surroundings.parent?]
  | cons s ss ih =>
    have hparent : Surroundings.parent? (s :: ss) = some s.id := rfl
    rw [Surroundings.plug, ih, holds_mk, Encloses, hparent, Outline.id, List.map_append,
      List.map_cons]
    simp only [List.mem_append, List.mem_cons]
    grind

theorem nextTokenTo?_of_none {id : Nat} (h : f.parent? id = none) (depth : Nat) :
    f.nextTokenTo? depth id = none := by
  cases depth <;> simp [nextTokenTo?, h]

theorem nextTokenTo?_of_some {id parent : Nat} (h : f.parent? id = some parent) (depth : Nat) :
    f.nextTokenTo? (depth + 1) id =
      ((f.laterSiblings parent id).findSome? f.firstToken? <|> f.nextTokenTo? depth parent) := by
  simp [nextTokenTo?, h]

/-!
Numbers outside of the table belong to no token.
-/

theorem lt_size_of_isToken {i : Nat} (h : (f.label i).isToken) : i < f.size := by
  by_contra hle
  have hcell : f.cells[i]? = none := Array.getElem?_eq_none (Nat.le_of_not_lt hle)
  rw [label, cell, hcell] at h
  cases h

theorem isToken_of_mem_tokensTo {depth id i : Nat} (h : i ∈ f.tokensTo depth id) :
    (f.label i).isToken := by
  induction depth generalizing id with
  | zero =>
    rw [tokensTo] at h
    split at h
    · obtain rfl := List.mem_singleton.mp h
      assumption
    · cases h
  | succ depth ih =>
    rw [tokensTo] at h
    split at h
    · obtain rfl := List.mem_singleton.mp h
      assumption
    · obtain ⟨c, -, hc⟩ := List.mem_flatMap.mp h
      exact ih hc

theorem firstToken?_lt_size {id t : Nat} (h : f.firstToken? id = some t) : t < f.size :=
  lt_size_of_isToken (isToken_of_mem_tokensTo (List.mem_of_mem_head? h))

theorem nextToken?_lt_size {id t : Nat} (h : f.nextToken? id = some t) : t < f.size := by
  have hsearch (depth id : Nat) (h : f.nextTokenTo? depth id = some t) : t < f.size := by
    induction depth generalizing id with
    | zero => cases h
    | succ depth ih =>
      cases hparent : f.parent? id with
      | none => rw [nextTokenTo?_of_none hparent] at h; cases h
      | some parent =>
        rw [nextTokenTo?_of_some hparent] at h
        cases hlater : (f.laterSiblings parent id).findSome? f.firstToken? with
        | none =>
          rw [hlater] at h
          exact ih parent h
        | some u =>
          rw [hlater] at h
          obtain rfl : u = t := Option.some.inj h
          obtain ⟨c, -, hc⟩ := List.exists_of_findSome?_eq_some hlater
          exact firstToken?_lt_size hc
  exact hsearch f.size id h

namespace Encloses

variable {ss : Surroundings} {hole : Nat}

theorem congr (h : f.Encloses ss hole)
    (hsize : f.size ≤ g.size) (hparent : ∀ i ∈ ss.ids, g.parent? i = f.parent? i)
    (hchildren : ∀ i ∈ ss.ids, g.children i = f.children i) : g.Encloses ss hole := by
  induction ss generalizing hole with
  | nil => trivial
  | cons s ss ih =>
    obtain ⟨hlt, hp, hcs, hbelow, hss⟩ := h
    have hs {i : Nat} (hi : i ∈ s.ids) : i ∈ Surroundings.ids (s :: ss) :=
      List.mem_append_left _ hi
    have hrest {i : Nat} (hi : i ∈ Surroundings.ids ss) : i ∈ Surroundings.ids (s :: ss) :=
      List.mem_append_right _ hi
    refine ⟨by omega, ?_, ?_, fun c hc => ?_, ?_⟩
    · rw [hparent s.id (hs List.mem_cons_self), hp]
    · rw [hchildren s.id (hs List.mem_cons_self), hcs]
    · exact (hbelow c hc).congr hsize (fun i hi => hparent i (hs (Frame.ids_subset hc hi)))
        fun i hi => hchildren i (hs (Frame.ids_subset hc hi))
    · exact ih hss (fun i hi => hparent i (hrest hi)) fun i hi => hchildren i (hrest hi)

theorem children_ne_nil (h : f.Encloses ss hole) :
    ∀ t ∈ ss, f.children t.id ≠ [] := by
  induction ss generalizing hole with
  | nil => simp
  | cons s ss ih =>
    obtain ⟨-, -, hchildren, -, hss⟩ := h
    intro t ht
    rcases List.mem_cons.mp ht with rfl | ht
    · simp [hchildren]
    · exact ih hss t ht

theorem tokens_eq (h : f.Encloses ss hole) (hnodup : ss.ids.Nodup) :
    ∀ s ∈ ss, ∀ c ∈ s.left ++ s.right, f.tokens c.id = c.tokens f := by
  induction ss generalizing hole with
  | nil => simp
  | cons s ss ih =>
    obtain ⟨-, -, -, hbelow, hss⟩ := h
    rw [Surroundings.ids_cons, List.nodup_append] at hnodup
    intro s' hs' c hc
    rcases List.mem_cons.mp hs' with rfl | hs'
    · have hcs := (List.nodup_cons.mp hnodup.1).2
      exact (hbelow c hc).tokens_eq (hcs.sublist (Outline.ids_sublist hc))
    · exact ih hss hnodup.2.1 s' hs' c hc

theorem head?_behind (h : f.Encloses ss hole) (hnodup : ss.ids.Nodup) {s : Frame} (hs : s ∈ ss) :
    (s.right.map Outline.id).findSome? f.firstToken? =
      (s.right.flatMap (Outline.tokens f)).head? := by
  have htokens := h.tokens_eq hnodup s hs
  have hright : (s.right.map Outline.id).flatMap f.tokens =
      s.right.flatMap (Outline.tokens f) := by
    rw [List.flatMap_map, List.flatMap_def, List.flatMap_def,
      List.map_congr_left fun c hc => htokens c (List.mem_append_right _ hc)]
  rw [← hright, List.head?_flatMap]
  rfl

theorem laterSiblings_eq {s : Frame} (h : f.Encloses (s :: ss) hole)
    (hhole : hole ∉ s.ids) : f.laterSiblings s.id hole = s.right.map Outline.id := by
  obtain ⟨-, -, hchildren, -, -⟩ := h
  have hleft : ∀ i ∈ s.left.map Outline.id, i != hole := by
    intro i hi
    obtain ⟨c, hc, rfl⟩ := List.mem_map.mp hi
    rw [bne_iff_ne]
    rintro rfl
    exact hhole (Frame.ids_subset (List.mem_append_left _ hc) c.id_mem_ids)
  rw [laterSiblings, hchildren, List.dropWhile_append_of_pos hleft]
  simp

theorem nextTokenTo?_eq (h : f.Encloses ss hole) (hparent : f.parent? hole = ss.parent?)
    (hnodup : ss.ids.Nodup) (hhole : hole ∉ ss.ids) (depth : Nat) (hdepth : ss.length ≤ depth) :
    f.nextTokenTo? depth hole = (ss.behind f).head? := by
  induction ss generalizing hole depth with
  | nil => exact nextTokenTo?_of_none hparent depth
  | cons s ss ih =>
    cases depth with
    | zero => cases hdepth
    | succ depth =>
      have hfirst := h.head?_behind hnodup List.mem_cons_self
      rw [Surroundings.ids_cons] at hnodup hhole
      have hlater := h.laterSiblings_eq fun hmem => hhole (List.mem_append_left _ hmem)
      obtain ⟨-, hp, -, -, hss⟩ := h
      obtain ⟨-, hnodup', hdisjoint⟩ := List.nodup_append.mp hnodup
      have hs : s.id ∉ Surroundings.ids ss := fun hmem =>
        hdisjoint s.id List.mem_cons_self s.id hmem rfl
      rw [nextTokenTo?_of_some hparent, hlater, hfirst,
        ih hss hp hnodup' hs depth (Nat.le_of_succ_le_succ hdepth), Surroundings.behind,
        List.head?_append, Option.or_eq_orElse]
      rfl

end Encloses

end Forest

end ShaderParams

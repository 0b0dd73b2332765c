import ShaderParams.Proofs.Editing

/-!
This module contains what is read off a table, and walks through a table that is edited on the way.
-/

namespace ShaderParams
namespace Forest

open Surroundings

variable {f g : Forest}

theorem label_tree (f : Forest) (id : Nat) : (f.tree id).label = f.label id := by
  rw [tree]
  cases f.size <;> rfl

/-!
A table is read as the trees in it.
-/

theorem IsTree.exists_below {root x : Nat} (h : f.IsTree root) (hx : x ∈ f.walk root) :
    ∃ parent o, f.Holds parent o ∧ o.ids.Nodup ∧ o.id = x := by
  obtain ⟨o, ho⟩ := h.exists_outline
  rw [ho.walk_eq] at hx
  obtain ⟨ss, c, rfl, rfl⟩ := exists_plug ho.holds x hx
  have hnodup := (ids_plug ss c).nodup_iff.mp ho.nodup
  exact ⟨_, c, (holds_plug.mp ho.holds).2, (List.nodup_append.mp hnodup).2.1, rfl⟩

theorem walk_node {parent : Option Nat} {o : Outline} (h : f.Holds parent o)
    (hnodup : o.ids.Nodup) : (o.node f).walk = o.ids.map f.tree := by
  induction h with
  | @mk parent id cs hlt hparent hchildren hbelow ih =>
    have htree := (Holds.mk hlt hparent hchildren hbelow).tree_eq hnodup
    rw [Outline.id] at htree
    rw [Outline.ids_mk, List.nodup_cons] at hnodup
    rw [Outline.ids_mk, List.map_cons, htree, Outline.node_mk, Node.walk_mk,
      Node.listWalk_eq_flatMap, List.flatMap_map, List.map_flatMap, List.flatMap_def,
      List.flatMap_def]
    congr 2
    exact List.map_congr_left fun c hc =>
      ih c hc (hnodup.2.sublist (Outline.ids_sublist hc))

section

variable {root x : Nat} (h : f.IsTree root) (hx : x ∈ f.walk root)

include h hx

theorem children_tree : (f.tree x).children = (f.children x).map f.tree := by
  obtain ⟨parent, ⟨y, cs⟩, ho, hnodup, hid⟩ := h.exists_below hx
  obtain rfl : x = y := hid.symm
  have htree := ho.tree_eq hnodup
  obtain ⟨-, -, hchildren, hbelow⟩ := holds_mk.mp ho
  rw [Outline.ids_mk, List.nodup_cons] at hnodup
  rw [Outline.id, Outline.node_mk] at htree
  rw [htree, hchildren, List.map_map]
  refine List.map_congr_left fun c hc => ?_
  exact ((hbelow c hc).tree_eq (hnodup.2.sublist (Outline.ids_sublist hc))).symm

theorem walk_tree : (f.tree x).walk = (f.walk x).map f.tree := by
  obtain ⟨parent, o, ho, hnodup, rfl⟩ := h.exists_below hx
  rw [ho.tree_eq hnodup, ho.walk_eq hnodup, walk_node ho hnodup]

theorem namedChildren_tree : (f.tree x).namedChildren = (f.namedChildren x).map f.tree := by
  rw [Node.namedChildren, children_tree h hx, List.filter_map, namedChildren]
  simp only [Function.comp_def, label_tree]

theorem childByField?_tree (field : String) :
    (f.tree x).childByField? field = (f.childByField? field x).map f.tree := by
  rw [Node.childByField?, children_tree h hx, List.find?_map, childByField?]
  simp only [Function.comp_def, label_tree]

theorem findFirst?_tree (types : List String) :
    (f.tree x).findFirst? types = (f.findFirst? types x).map f.tree := by
  rw [Node.findFirst?, walk_tree h hx, List.find?_map, findFirst?]
  simp only [Function.comp_def, Node.type, label_tree]

end

/-!
What changes of a table leave as it was.
-/

/--
What edits leave alone: only some nodes are taken from their parents, and only some get other
children.
-/
structure Kept (f g : Forest) (moved changed : List Nat) : Prop where
  size : f.size ≤ g.size
  type : ∀ i < f.size, (g.label i).type = (f.label i).type
  text : ∀ i < f.size, (g.label i).text = (f.label i).text
  parent? : ∀ i < f.size, i ∉ moved → g.parent? i = f.parent? i
  children : ∀ i < f.size, i ∉ changed → g.children i = f.children i

namespace Kept

variable {moved changed : List Nat}

theorem refl (f : Forest) : f.Kept f moved changed :=
  ⟨Nat.le_refl _, fun _ _ => rfl, fun _ _ => rfl, fun _ _ _ => rfl, fun _ _ _ => rfl⟩

theorem isToken (h : f.Kept g moved changed) {i : Nat} (hi : i < f.size) :
    (g.label i).isToken = (f.label i).isToken := by
  rw [Label.isToken, Label.isToken, h.text i hi]

theorem trans {e : Forest} {moved' changed' : List Nat} (h : e.Kept f moved changed)
    (h' : f.Kept g moved' changed') : e.Kept g (moved ++ moved') (changed ++ changed') := by
  have hsize := h.size
  refine ⟨Nat.le_trans hsize h'.size, fun i hi => ?_, fun i hi => ?_, fun i hi hne => ?_,
    fun i hi hne => ?_⟩
  · rw [h'.type i (by omega), h.type i hi]
  · rw [h'.text i (by omega), h.text i hi]
  · rw [List.mem_append, not_or] at hne
    rw [h'.parent? i (by omega) hne.2, h.parent? i hi hne.1]
  · rw [List.mem_append, not_or] at hne
    rw [h'.children i (by omega) hne.2, h.children i hi hne.1]

theorem mono {moved' changed' : List Nat} (h : f.Kept g moved changed) (hmoved : moved ⊆ moved')
    (hchanged : changed ⊆ changed') : f.Kept g moved' changed' :=
  ⟨h.size, h.type, h.text, fun i hi hne => h.parent? i hi fun hi' => hne (hmoved hi'),
    fun i hi hne => h.children i hi fun hi' => hne (hchanged hi')⟩

theorem holds {parent : Option Nat} {o : Outline} (h : f.Kept g moved changed)
    (ho : f.Holds parent o) (hmoved : ∀ i ∈ o.ids, i ∉ moved)
    (hchanged : ∀ i ∈ o.ids, i ∉ changed) :
    g.Holds parent o :=
  ho.congr h.size (fun i hi => h.parent? i (ho.lt_size i hi) (hmoved i hi))
    fun i hi => h.children i (ho.lt_size i hi) (hchanged i hi)

theorem holds_below {id p : Nat} {cs : List Outline} (h : f.Kept g [id] [p])
    (hcs : ∀ c ∈ cs, f.Holds (some id) c) (hnodup : (id :: cs.flatMap Outline.ids).Nodup)
    (hp : p ∉ cs.flatMap Outline.ids) : ∀ c ∈ cs, g.Holds (some id) c := by
  intro c hc
  have hids := (Outline.ids_sublist hc).subset
  refine h.holds (hcs c hc) (fun i hi => ?_) fun i hi => ?_
  · rw [List.mem_singleton]
    rintro rfl
    exact (List.nodup_cons.mp hnodup).1 (hids hi)
  · rw [List.mem_singleton]
    rintro rfl
    exact hp (hids hi)

end Kept

theorem kept_add (f : Forest) (parent : Option Nat) (n : Node) : f.Kept (f.add parent n) [] [] := by
  obtain ⟨o, -, h⟩ := exists_added f parent n
  have hsize := h.size
  refine ⟨by omega, fun i hi => ?_, fun i hi => ?_, fun i hi _ => ?_, fun i hi _ => ?_⟩
  · rw [Forest.label, h.old i hi, Forest.label]
  · rw [Forest.label, h.old i hi, Forest.label]
  · rw [Forest.parent?, h.old i hi, Forest.parent?]
  · rw [Forest.children, h.old i hi, Forest.children]

/-!
A tree that is listed below a node.
-/

section

variable {x n : Nat}

@[simp]
theorem size_append (f : Forest) (x n : Nat) : (f.append x n).size = f.size := by
  simp [append]

@[simp]
theorem label_append (f : Forest) (x n i : Nat) : (f.append x n).label i = f.label i := by
  simp [append]

theorem parent?_append (hn : n < f.size) (x i : Nat) :
    (f.append x n).parent? i = if i = n then some x else f.parent? i := by
  rw [append, parent?_setChildren, parent?_setParent hn]

theorem children_append (hx : x < f.size) (n i : Nat) :
    (f.append x n).children i = if i = x then f.children x ++ [n] else f.children i := by
  rw [append, children_setChildren (by simpa using hx)]
  simp

theorem kept_append (f : Forest) {x n : Nat} (hx : x < f.size) (hn : n < f.size) :
    f.Kept (f.append x n) [n] [x] := by
  refine ⟨by simp, fun i _ => by simp, fun i _ => by simp, fun i _ hne => ?_, fun i _ hne => ?_⟩
  · rw [parent?_append hn, if_neg (by simpa using hne)]
  · rw [children_append hx, if_neg (by simpa using hne)]

theorem HasOutline.append {root : Nat} {ss : Surroundings} {cs : List Outline} {m : Outline}
    (h : f.HasOutline root (plug ss (.mk x cs))) (hm : f.HasOutline n m)
    (hdetached : ∀ i ∈ m.ids, i ∉ (plug ss (.mk x cs)).ids) :
    (f.append x n).HasOutline root (plug ss (.mk x (cs ++ [m]))) := by
  obtain ⟨hencloses, hbelow⟩ := holds_plug.mp h.holds
  obtain ⟨hlt, hparent, hchildren, hcs⟩ := holds_mk.mp hbelow
  have hparts := ids_plug ss (.mk x cs)
  have hwhole := hparts.nodup_iff.mp h.nodup
  obtain ⟨-, hnodup, hapart⟩ := List.nodup_append.mp hwhole
  rw [Outline.ids_mk, List.nodup_cons] at hnodup
  have hnew {i : Nat} (hi : i ∈ m.ids) : i ∉ ss.ids ∧ i ≠ x ∧ i ∉ cs.flatMap Outline.ids := by
    have hnone := hdetached i hi
    simp only [hparts.mem_iff, Outline.ids_mk, List.mem_append, List.mem_cons, not_or] at hnone
    exact hnone
  have hn : n ∈ m.ids := hm.root ▸ m.id_mem_ids
  have hkept := f.kept_append hlt (hm.holds.lt_size n hn)
  have hparent' := parent?_append (hm.holds.lt_size n hn) x
  have hchildren' := children_append hlt n
  refine ⟨?_, ?_, holds_plug.mpr ⟨?_, holds_mk.mpr ⟨by simpa, ?_, ?_, fun c hc => ?_⟩⟩⟩
  · rw [← h.root]
    exact id_plug ss rfl
  · rw [(ids_plug ss _).nodup_iff, Outline.ids_mk, List.flatMap_append, List.flatMap_singleton,
      ← List.cons_append, ← List.append_assoc, ← Outline.ids_mk, List.nodup_append]
    refine ⟨hwhole, hm.nodup, fun i hi j hj => ?_⟩
    rintro rfl
    exact hdetached i hj (hparts.mem_iff.mpr hi)
  · refine hencloses.congr hkept.size (fun i hi => ?_) fun i hi => ?_
    · rw [hparent', if_neg]
      rintro rfl
      exact (hnew hn).1 hi
    · rw [hchildren', if_neg (hapart i hi x (Outline.id_mem_ids _))]
  · rw [hparent', if_neg (hnew hn).2.1.symm, hparent]
  · rw [hchildren', if_pos rfl, hchildren, List.map_append, List.map_singleton, hm.root]
  · rcases List.mem_append.mp hc with hc | hc
    · have hids := (Outline.ids_sublist hc).subset
      refine hkept.holds (hcs c hc) (fun i hi => ?_) fun i hi => ?_
      · rw [List.mem_singleton]
        rintro rfl
        exact (hnew hn).2.2 (hids hi)
      · rw [List.mem_singleton]
        rintro rfl
        exact hnodup.1 (hids hi)
    · obtain rfl := List.mem_singleton.mp hc
      refine hm.holds.reparent hm.nodup hkept.size ?_ (fun i _ hne => ?_) fun i hi => ?_
      · rw [hparent', if_pos hm.root]
      · rw [hparent', if_neg (hm.root ▸ hne)]
      · rw [hchildren', if_neg (hnew hi).2.1]

/-- A tree that is listed below a node is the last one below it. -/
theorem append_tree {root : Nat} (h : f.IsTree root) (hx : x ∈ f.walk root) (hn : f.IsTree n)
    (hdetached : ∀ i ∈ f.walk n, i ∉ f.walk root) :
    ∃ c, f.tree root = Context.plug c (f.tree x) ∧ (f.append x n).IsTree root ∧
      (f.append x n).tree root =
        c.plug (.mk (f.label x) ((f.tree x).children ++ [f.tree n])) := by
  obtain ⟨o, ho⟩ := h.exists_outline
  obtain ⟨m, hm⟩ := hn.exists_outline
  have hmem : x ∈ o.ids := by rwa [← ho.walk_eq]
  rw [hm.walk_eq, ho.walk_eq] at hdetached
  obtain ⟨ss, ⟨y, cs⟩, rfl, hid⟩ := exists_plug ho.holds x hmem
  obtain rfl : x = y := hid.symm
  have hnodup := List.nodup_append.mp ((ids_plug ss _).nodup_iff.mp ho.nodup)
  have htree : f.tree x = (Outline.mk x cs).node f :=
    (holds_plug.mp ho.holds).2.tree_eq hnodup.2.1
  have houtline := ho.append hm hdetached
  have hnode (o : Outline) : o.node (f.append x n) = o.node f := by
    simp only [Outline.node, label_append]
  refine ⟨context f ss, ?_, houtline.isTree, ?_⟩
  · rw [ho.tree_eq, node_plug, htree]
  · rw [houtline.tree_eq, hnode, node_plug, Outline.node_mk, List.map_append, List.map_singleton,
      htree, Outline.node_mk, hm.tree_eq]
    rfl

end

/-!
Walking through a table that is edited on the way.
-/

theorem exists_edit {x p : Nat} (hp : f.parent? x = some p) (hlt : p < f.size) (hx : x < f.size)
    (edit : WalkEdit) : ∃ g, f.edit x edit = (g, .ok ()) ∧ f.Kept g [x] [p] := by
  cases edit with
  | replace new =>
    have hadded := f.kept_add none new
    have hsize : f.size < (f.add none new).size := by
      obtain ⟨o, hid, hnew⟩ := exists_added f none new
      exact hid ▸ (hnew.holds o List.mem_cons_self).lt_size _ o.id_mem_ids
    have hp' : (f.add none new).parent? x = some p := by
      rw [hadded.parent? x hx List.not_mem_nil, hp]
    obtain ⟨g, hg, hgsize, hparent, hchildren, hlabel⟩ :=
      exists_replace hp' (by omega) (by omega) hsize
    refine ⟨g, by rw [edit, hg], by omega, fun i hi => ?_, fun i hi => ?_, fun i hi hne => ?_,
      fun i hi hne => ?_⟩
    · rw [hlabel, ← hadded.type i hi]
    · rw [hlabel, ← hadded.text i hi]
    · rw [hparent, if_neg (by simpa using hne), if_neg (by omega),
        hadded.parent? i hi List.not_mem_nil]
    · rw [hchildren, if_neg (by simpa using hne), hadded.children i hi List.not_mem_nil]
  | remove =>
    obtain ⟨g, hg, hsize, hparent, hchildren, hlabel⟩ := exists_remove hp hlt hx
    refine ⟨g, by rw [edit, hg], by omega, fun i _ => ?_, fun i _ => ?_, fun i _ hne => ?_,
      fun i _ hne => ?_⟩
    · rw [hlabel]
    · rw [hlabel]
    · rw [hparent, if_neg (by simpa using hne)]
    · rw [hchildren, if_neg (by simpa using hne)]

/-- The refusal of an edit at a root. -/
def WalkEdit.refusal : WalkEdit → EditError
  | replace _ => .replaceRoot
  | remove => .removeRoot

theorem edit_root {x : Nat} (hx : x < f.size) (hp : f.parent? x = none) (edit : WalkEdit) :
    (f.edit x edit).2 = .error edit.refusal := by
  cases edit with
  | replace new =>
    have hp' : (f.add none new).parent? x = none := by
      rw [(f.kept_add none new).parent? x hx List.not_mem_nil, hp]
    rw [Forest.edit, replace, hp']
    rfl
  | remove =>
    rw [Forest.edit, remove, hp]
    rfl

theorem exists_visit {x p : Nat} (hp : f.parent? x = some p) (hlt : p < f.size) (hx : x < f.size)
    (edit : WalkEdit) (type : String) :
    ∃ g, (if (f.label x).type == type then f.edit x edit else (f, .ok ())) = (g, .ok ()) ∧
      f.Kept g [x] [p] := by
  split
  · exact exists_edit hp hlt hx edit
  · exact ⟨f, rfl, .refl f⟩

/-- Behind a visit, a node is walked through as its children are. -/
theorem exists_depth {f₁ : Forest} {edit : WalkEdit} {type : String} {id : Nat} {cs : List Outline}
    (hvisit : (if (f.label id).type == type then f.edit id edit else (f, .ok ())) = (f₁, .ok ()))
    (hchildren : f₁.children id = cs.map Outline.id) {depth : Nat}
    (hdepth : (Outline.mk id cs).ids.length ≤ depth + 1) :
    ∃ below, (∀ c ∈ cs, c.ids.length ≤ below + 1) ∧ ∀ g met,
      walkEditAll edit type below f₁ (cs.map Outline.id) = (g, .ok met) →
        walkEditTo edit type depth f id = (g, .ok (id :: met)) := by
  rw [Outline.ids_mk, List.length_cons] at hdepth
  have hlength {c : Outline} (hc : c ∈ cs) := (Outline.ids_sublist hc).length_le
  cases depth with
  | zero =>
    have hnil : cs = [] := by
      refine List.eq_nil_iff_forall_not_mem.mpr fun c hc => ?_
      have hpos := List.length_pos_iff.mpr c.ids_ne_nil
      have hle := hlength hc
      omega
    subst hnil
    refine ⟨0, by simp, fun g met hg => ?_⟩
    rw [List.map_nil, walkEditAll] at hg
    obtain ⟨rfl, hmet⟩ := Prod.mk.inj hg
    obtain rfl := Except.ok.inj hmet
    rw [walkEditTo, hvisit]
  | succ depth =>
    refine ⟨depth, fun c hc => ?_, fun g met hg => ?_⟩
    · have hle := hlength hc
      omega
    · rw [walkEditTo, hvisit]
      simp only [hchildren, hg]
      rfl

-- By induction on the tree. An edit changes the parent of a node and the list that the node is in,
-- so what is below the node, and its later siblings with what is below them, are met as they were.
mutual

theorem exists_walkEditTo (edit : WalkEdit) (type : String) {p : Nat} :
    (o : Outline) → (f : Forest) → f.Holds (some p) o → p < f.size → (p :: o.ids).Nodup →
      (depth : Nat) → o.ids.length ≤ depth + 1 →
      ∃ g, walkEditTo edit type depth f o.id = (g, .ok o.ids) ∧ f.Kept g o.ids (p :: o.ids)
  | .mk id cs, f, h, hlt, hnodup, depth, hdepth => by
    obtain ⟨hid, hparent, hchildren, hcs⟩ := holds_mk.mp h
    rw [Outline.ids_mk, List.nodup_cons, List.mem_cons, not_or] at hnodup
    obtain ⟨⟨hne, hp⟩, hnodup⟩ := hnodup
    obtain ⟨f₁, hvisit, hkept⟩ := exists_visit hparent hlt hid edit type
    have hsize := hkept.size
    have hchildren₁ : f₁.children id = cs.map Outline.id := by
      rw [hkept.children id hid (by simpa using Ne.symm hne), hchildren]
    obtain ⟨below, hbelow, hwalk⟩ := exists_depth hvisit hchildren₁ hdepth
    obtain ⟨g, hg, hkept'⟩ := exists_walkEditAll edit type cs f₁
      (hkept.holds_below hcs hnodup hp) (by omega) hnodup below hbelow
    rw [Outline.ids_mk]
    exact ⟨g, hwalk g _ hg, hkept.trans hkept'⟩

theorem exists_walkEditAll (edit : WalkEdit) (type : String) {p : Nat} :
    (os : List Outline) → (f : Forest) → (∀ o ∈ os, f.Holds (some p) o) → p < f.size →
      (p :: os.flatMap Outline.ids).Nodup → (depth : Nat) →
      (∀ o ∈ os, o.ids.length ≤ depth + 1) →
      ∃ g, walkEditAll edit type depth f (os.map Outline.id) = (g, .ok (os.flatMap Outline.ids)) ∧
        f.Kept g (os.flatMap Outline.ids) (p :: os.flatMap Outline.ids)
  | [], f, h, hlt, hnodup, depth, hdepth => by
    exact ⟨f, by rw [List.map_nil, walkEditAll]; rfl, .refl f⟩
  | o :: os, f, h, hlt, hnodup, depth, hdepth => by
    obtain ⟨ho, hos⟩ := List.forall_mem_cons.mp h
    obtain ⟨hdepth, hdepths⟩ := List.forall_mem_cons.mp hdepth
    rw [List.flatMap_cons, List.nodup_cons, List.mem_append, not_or, List.nodup_append] at hnodup
    obtain ⟨⟨hp, hps⟩, hnodup, hnodups, hapart⟩ := hnodup
    obtain ⟨f₁, hwalk, hkept⟩ := exists_walkEditTo edit type o f ho hlt
      (List.nodup_cons.mpr ⟨hp, hnodup⟩) depth hdepth
    have hsize := hkept.size
    have hlater : ∀ c ∈ os, f₁.Holds (some p) c := by
      intro c hc
      have hids := (Outline.ids_sublist hc).subset
      refine hkept.holds (hos c hc) (fun i hi hi' => ?_) fun i hi hi' => ?_
      · exact hapart i hi' i (hids hi) rfl
      · rcases List.mem_cons.mp hi' with rfl | hi'
        · exact hps (hids hi)
        · exact hapart i hi' i (hids hi) rfl
    obtain ⟨g, hg, hkept'⟩ := exists_walkEditAll edit type os f₁ hlater (by omega)
      (List.nodup_cons.mpr ⟨hps, hnodups⟩) depth hdepths
    refine ⟨g, ?_, (hkept.trans hkept').mono ?_ ?_⟩
    · rw [List.map_cons, walkEditAll, hwalk]
      simp only [hg]
      rfl
    · rw [List.flatMap_cons]
      exact List.Subset.refl _
    · rw [List.flatMap_cons]
      grind

end

/--
A walk meets the nodes that stood in the tree when it started, whatever is done to them on the way.
Only the root itself cannot be replaced or taken out.
-/
theorem walkEdit_met {root : Nat} (h : f.IsTree root) (edit : WalkEdit) (type : String) :
    (f.walkEdit edit type root).2 =
      if (f.label root).type = type then .error edit.refusal else .ok (f.walk root) := by
  obtain ⟨⟨id, cs⟩, ho⟩ := h.exists_outline
  obtain rfl : root = id := ho.root.symm
  obtain ⟨hid, hparent, hchildren, hcs⟩ := holds_mk.mp ho.holds
  split
  · next htype =>
    have hedit := edit_root hid hparent edit
    rw [walkEdit, walkEditTo, if_pos (beq_iff_eq.mpr htype)]
    cases hresult : f.edit root edit with
    | mk g done =>
      rw [hresult] at hedit
      obtain rfl : done = .error edit.refusal := hedit
      rfl
  · next htype =>
    have hnodup := ho.nodup
    rw [Outline.ids_mk] at hnodup
    have hsize := ho.holds.length_ids_le ho.nodup
    have hdepth : (Outline.mk root cs).ids.length ≤ f.size + edit.size + 1 := by omega
    obtain ⟨below, hbelow, hwalk⟩ :=
      exists_depth (if_neg (by simpa using htype)) hchildren hdepth
    obtain ⟨g, hg, -⟩ := exists_walkEditAll edit type cs f hcs hid hnodup below hbelow
    rw [walkEdit, hwalk g _ hg, ho.walk_eq, Outline.ids_mk]

end Forest
end ShaderParams

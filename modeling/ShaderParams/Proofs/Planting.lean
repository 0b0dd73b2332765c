import ShaderParams.Proofs.Outline

/-!
This module contains the changes of single nodes of a table, and that a tree that is added to a
table stands in it as it was given.
-/

namespace ShaderParams
namespace Forest

variable {f g : Forest} {id i : Nat}

theorem cell_modify (f : Forest) (id : Nat) (h : Cell → Cell) (i : Nat) :
    (f.modify id h).cell i = if i = id ∧ i < f.size then h (f.cell i) else f.cell i := by
  simp only [cell, modify, size, Array.getElem?_modify]
  by_cases hi : id = i
  · subst hi
    by_cases hlt : id < f.cells.size
    · simp [hlt]
    · simp [hlt]
  · simp [hi, Ne.symm hi]

/-- What a change of a node leaves alone. -/
theorem read_modify {β : Type} {h : Cell → Cell} (read : Cell → β)
    (hread : ∀ c, read (h c) = read c) (f : Forest) (id i : Nat) :
    read ((f.modify id h).cell i) = read (f.cell i) := by
  rw [cell_modify]
  split
  · exact hread _
  · rfl

/-- What a change of a node changes. -/
theorem read_modify_of_lt {β : Type} {h : Cell → Cell} (read : Cell → β) (hid : id < f.size)
    (i : Nat) :
    read ((f.modify id h).cell i) = if i = id then read (h (f.cell i)) else read (f.cell i) := by
  rw [cell_modify]
  by_cases hi : i = id
  · rw [if_pos hi, if_pos ⟨hi, hi ▸ hid⟩]
  · rw [if_neg hi, if_neg fun hand => hi hand.1]

section

variable (f : Forest) (id : Nat) (i : Nat)

@[simp]
theorem size_setParent (parent : Option Nat) : (f.setParent id parent).size = f.size :=
  size_modify ..

@[simp]
theorem label_setParent (parent : Option Nat) : (f.setParent id parent).label i = f.label i := by
  refine read_modify Cell.label (fun _ => ?_) ..
  rfl

@[simp]
theorem children_setParent (parent : Option Nat) :
    (f.setParent id parent).children i = f.children i := by
  refine read_modify Cell.children (fun _ => ?_) ..
  rfl

@[simp]
theorem size_setChildren (children : List Nat) : (f.setChildren id children).size = f.size :=
  size_modify ..

@[simp]
theorem label_setChildren (children : List Nat) :
    (f.setChildren id children).label i = f.label i := by
  refine read_modify Cell.label (fun _ => ?_) ..
  rfl

@[simp]
theorem parent?_setChildren (children : List Nat) :
    (f.setChildren id children).parent? i = f.parent? i := by
  refine read_modify Cell.parent (fun _ => ?_) ..
  rfl

@[simp]
theorem size_setTokenLeading (leading : String) : (f.setTokenLeading id leading).size = f.size :=
  size_modify ..

@[simp]
theorem parent?_setTokenLeading (leading : String) :
    (f.setTokenLeading id leading).parent? i = f.parent? i := by
  refine read_modify Cell.parent (fun _ => ?_) ..
  rfl

@[simp]
theorem children_setTokenLeading (leading : String) :
    (f.setTokenLeading id leading).children i = f.children i := by
  refine read_modify Cell.children (fun _ => ?_) ..
  rfl

end

theorem parent?_setParent (h : id < f.size) (parent : Option Nat) (i : Nat) :
    (f.setParent id parent).parent? i = if i = id then parent else f.parent? i :=
  read_modify_of_lt Cell.parent h i

theorem children_setChildren (h : id < f.size) (children : List Nat) (i : Nat) :
    (f.setChildren id children).children i = if i = id then children else f.children i :=
  read_modify_of_lt Cell.children h i

theorem label_setTokenLeading (h : id < f.size) (leading : String) (i : Nat) :
    (f.setTokenLeading id leading).label i =
      if i = id then { f.label i with leading } else f.label i :=
  read_modify_of_lt Cell.label h i

/-- Changes the trivia in front of a token, if there is one. -/
def giveLeading (f : Forest) (token : Option Nat) (leading : String) : Forest :=
  match token with
  | some t => f.setTokenLeading t leading
  | none => f

theorem label_giveLeading {token : Option Nat} (h : ∀ t ∈ token, t < f.size) (leading : String)
    (i : Nat) : (f.giveLeading token leading).label i = { f.label i with
      leading := if some i = token then leading else (f.label i).leading } := by
  cases token with
  | none => simp [giveLeading]
  | some t =>
    rw [giveLeading, label_setTokenLeading (h t rfl)]
    split <;> simp_all

section

variable (f : Forest) (token : Option Nat) (leading : String) (i : Nat)

@[simp]
theorem size_giveLeading : (f.giveLeading token leading).size = f.size := by
  cases token <;> simp [giveLeading]

@[simp]
theorem parent?_giveLeading : (f.giveLeading token leading).parent? i = f.parent? i := by
  cases token <;> simp [giveLeading]

@[simp]
theorem children_giveLeading : (f.giveLeading token leading).children i = f.children i := by
  cases token <;> simp [giveLeading]

end

/-- Assigns a role to a node that has none yet. -/
def defaultField (f : Forest) (id : Nat) (field : Option String) : Forest :=
  f.modify id fun c => { c with label := { c.label with field := c.label.field <|> field } }

section

variable (f : Forest) (id : Nat) (i : Nat) (field : Option String)

@[simp]
theorem size_defaultField : (f.defaultField id field).size = f.size :=
  size_modify ..

@[simp]
theorem parent?_defaultField : (f.defaultField id field).parent? i = f.parent? i := by
  refine read_modify Cell.parent (fun _ => ?_) ..
  rfl

@[simp]
theorem children_defaultField : (f.defaultField id field).children i = f.children i := by
  refine read_modify Cell.children (fun _ => ?_) ..
  rfl

end

theorem label_defaultField (h : id < f.size) (field : Option String) (i : Nat) :
    (f.defaultField id field).label i = { f.label i with
      field := if i = id then (f.label i).field <|> field else (f.label i).field } := by
  refine (read_modify_of_lt Cell.label h i).trans ?_
  split <;> rfl

/-!
Adding a tree.
-/

theorem cell_push (f : Forest) (c : Cell) (i : Nat) :
    (⟨f.cells.push c⟩ : Forest).cell i = if i = f.size then c else f.cell i := by
  change ((f.cells.push c)[i]?).getD {} = if i = f.cells.size then c else f.cell i
  rw [Array.getElem?_push]
  split
  · rfl
  · rfl

/-- A tree keeps its labels where only nodes outside of it are changed. -/
theorem Holds.node_congr {parent : Option Nat} {o : Outline} (h : f.Holds parent o)
    (hlabel : ∀ i ∈ o.ids, g.label i = f.label i) : o.node g = o.node f := by
  induction h with
  | @mk _ id cs _ _ _ _ ih =>
    rw [Outline.node_mk, Outline.node_mk, hlabel id (Outline.id_mem_ids _)]
    congr 1
    refine List.map_congr_left fun c hc => ih c hc fun i hi => hlabel i ?_
    exact Outline.ids_subset hc id hi

/--
What is true of a table `g` that trees were added to `f` for. They have consecutive numbers from
`f.size` on, parents before their children.
-/
structure Added (f g : Forest) (parent : Option Nat) (ns : List Node) (os : List Outline) :
    Prop where
  size : g.size = f.size + (Node.listWalk ns).length
  old : ∀ i < f.size, g.cell i = f.cell i
  ids : os.flatMap Outline.ids = List.range' f.size (Node.listWalk ns).length
  holds : ∀ o ∈ os, g.Holds parent o
  nodes : os.map (Outline.node g) = ns

theorem Added.lt_size {parent : Option Nat} {ns : List Node} {os : List Outline}
    (h : Added f g parent ns os) {o : Outline} (ho : o ∈ os) : ∀ i ∈ o.ids, f.size ≤ i := by
  intro i hi
  have hmem := (Outline.ids_sublist ho).subset hi
  rw [h.ids, List.mem_range'_1] at hmem
  exact hmem.1

theorem Added.cons {e : Forest} {parent : Option Nat} {n : Node} {ns : List Node} {o : Outline}
    {os : List Outline} (h : Added e f parent [n] [o]) (h' : Added f g parent ns os) :
    Added e g parent (n :: ns) (o :: os) := by
  have hsize : f.size = e.size + n.walk.length := by simpa [Node.listWalk] using h.size
  have hids : o.ids = List.range' e.size n.walk.length := by simpa [Node.listWalk] using h.ids
  have ho := h.holds o List.mem_cons_self
  -- The first tree is not touched when the others are added.
  have hsame : ∀ i ∈ o.ids, g.cell i = f.cell i := fun i hi => h'.old i (ho.lt_size i hi)
  have hgrows : f.size ≤ g.size := by
    have := h'.size
    omega
  constructor
  · rw [h'.size, hsize, Node.listWalk, List.length_append]
    omega
  · intro i hi
    rw [h'.old i (by omega), h.old i hi]
  · rw [List.flatMap_cons, hids, h'.ids, hsize, List.range'_append_1, Node.listWalk,
      List.length_append]
  · intro o' ho'
    rcases List.mem_cons.mp ho' with rfl | ho'
    · refine ho.congr hgrows (fun i hi => ?_) fun i hi => ?_
      · rw [parent?, hsame i hi, parent?]
      · rw [children, hsame i hi, children]
    · exact h'.holds o' ho'
  · rw [List.map_cons, h'.nodes]
    have hnode := List.cons.inj h.nodes
    rw [ho.node_congr fun i hi => by rw [label, hsame i hi, label], hnode.1]

/-- A root that is put in front of its children, and is told them when they are there. -/
theorem Added.root {l : Label} {parent : Option Nat} {cs : List Node} {os : List Outline}
    (h : Added ⟨f.cells.push { label := l, parent }⟩ g (some f.size) cs os) {ids : List Nat}
    (hids : os.map Outline.id = ids) :
    Added f (g.setChildren f.size ids) parent [.mk l cs] [.mk f.size os] := by
  have hpush : (⟨f.cells.push { label := l, parent }⟩ : Forest).size = f.size + 1 :=
    Array.size_push _
  have hsize := h.size
  rw [hpush] at hsize
  have hroot : g.cell f.size = { label := l, parent } := by
    rw [h.old f.size (by omega), cell_push, if_pos rfl]
  have hother {i : Nat} (hi : i ≠ f.size) : (g.setChildren f.size ids).cell i = g.cell i := by
    rw [setChildren, cell_modify, if_neg fun hand => hi hand.1]
  have hbelow {o : Outline} (ho : o ∈ os) {i : Nat} (hi : i ∈ o.ids) : i ≠ f.size := by
    have hle := h.lt_size ho i hi
    omega
  have hwalk : (Node.listWalk [.mk l cs]).length = (Node.listWalk cs).length + 1 := by
    simp [Node.listWalk, Node.walk]
  constructor
  · rw [size_setChildren, hsize, hwalk]
    omega
  · intro i hi
    rw [hother (Nat.ne_of_lt hi), h.old i (by omega), cell_push, if_neg (Nat.ne_of_lt hi)]
  · rw [hwalk, List.range'_succ, ← hpush, ← h.ids, List.flatMap_cons, List.flatMap_nil,
      List.append_nil, Outline.ids_mk]
  · intro o ho
    obtain rfl := List.mem_singleton.mp ho
    have hlt : f.size < g.size := by omega
    refine .mk (by rwa [size_setChildren]) ?_ ?_ fun o ho => ?_
    · rw [parent?_setChildren, Forest.parent?, hroot]
    · rw [children_setChildren hlt, if_pos rfl, hids]
    · refine (h.holds o ho).congr (Nat.le_of_eq (size_setChildren ..).symm) (fun i hi => ?_)
        fun i hi => ?_
      · rw [parent?_setChildren]
      · rw [children_setChildren hlt, if_neg (hbelow ho hi)]
  · rw [List.map_singleton, Outline.node_mk, label_setChildren, Forest.label, hroot, ← h.nodes]
    congr 2
    refine List.map_congr_left fun o ho => (h.holds o ho).node_congr fun i hi => ?_
    rw [label_setChildren]

-- By induction on the tree; each part is added to the table with all parts before it.
mutual

theorem exists_added (f : Forest) (parent : Option Nat) :
    (n : Node) → ∃ o, o.id = f.size ∧ Added f (f.add parent n) parent [n] [o]
  | .mk l cs => by
    obtain ⟨os, hids, hos⟩ := exists_addedAll ⟨f.cells.push { label := l, parent }⟩ f.size cs
    exact ⟨.mk f.size os, rfl, hos.root hids⟩

theorem exists_addedAll (f : Forest) (parent : Nat) :
    (ns : List Node) → ∃ os, os.map Outline.id = (f.addAll parent ns).2 ∧
      Added f (f.addAll parent ns).1 (some parent) ns os
  | [] => by
    refine ⟨[], rfl, rfl, fun _ _ => rfl, rfl, ?_, rfl⟩
    simp
  | n :: ns => by
    obtain ⟨o, hid, ho⟩ := exists_added f (some parent) n
    obtain ⟨os, hids, hos⟩ := exists_addedAll (f.add (some parent) n) parent ns
    refine ⟨o :: os, ?_, ?_⟩
    · rw [List.map_cons, hid, hids, addAll]
    · rw [addAll]
      exact ho.cons hos

end

/-- The trees of a table are not touched when another one is added. -/
theorem Added.holds_old {parent parent' : Option Nat} {ns : List Node} {os : List Outline}
    (h : Added f g parent ns os) {o : Outline} (ho : f.Holds parent' o) : g.Holds parent' o := by
  have hsize := h.size
  refine ho.congr (by omega) (fun i hi => ?_) fun i hi => ?_
  · rw [Forest.parent?, h.old i (ho.lt_size i hi), Forest.parent?]
  · rw [Forest.children, h.old i (ho.lt_size i hi), Forest.children]

theorem IsTree.add {root : Nat} (h : f.IsTree root) (parent : Option Nat) (n : Node) :
    (f.add parent n).IsTree root := by
  obtain ⟨o, hid, hnodup, ho⟩ := h
  obtain ⟨_, -, hadded⟩ := exists_added f parent n
  exact ⟨o, hid, hnodup, hadded.holds_old ho⟩

/-- A tree that is added to a table stands there as it was given, with new numbers. -/
theorem add_isTree (f : Forest) (n : Node) :
    (f.add none n).IsTree f.size ∧ (f.add none n).tree f.size = n ∧
      (f.add none n).walk f.size = List.range' f.size n.walk.length := by
  obtain ⟨o, hid, h⟩ := exists_added f none n
  have hids : o.ids = List.range' f.size n.walk.length := by simpa [Node.listWalk] using h.ids
  have hnodup : o.ids.Nodup := by
    rw [hids]
    exact List.nodup_range'
  have ho := h.holds o List.mem_cons_self
  have htree := ho.tree_eq hnodup
  have hwalk := ho.walk_eq hnodup
  rw [hid] at htree hwalk
  exact ⟨⟨o, hid, hnodup, ho⟩, htree.trans (List.cons.inj h.nodes).1, hwalk.trans hids⟩

end Forest
end ShaderParams

import ShaderParams.Proofs.Walking

/-!
This module contains what a walk that edits a tree leaves of it: all nodes that are neither of the
type that is edited nor below a node of that type, in their order.
-/

namespace ShaderParams
namespace Forest

/-- The nodes of a tree that are neither of a type nor below a node of that type. -/
def sparedTo (f : Forest) (type : String) (depth id : Nat) : List Nat :=
  if (f.label id).type == type then
    []
  else
    match depth with
    | 0 => [id]
    | depth + 1 => id :: (f.children id).flatMap (f.sparedTo type depth)

def spared (f : Forest) (type : String) (id : Nat) : List Nat :=
  f.sparedTo type f.size id

end Forest

namespace Outline

/-- The nodes that are neither of a type nor below a node of that type, in the shape of a tree. -/
def spared (f : Forest) (type : String) (o : Outline) : List Nat :=
  o.fold fun id rest => if (f.label id).type == type then [] else id :: rest.flatten

theorem spared_mk (f : Forest) (type : String) (id : Nat) (cs : List Outline) :
    (mk id cs).spared f type =
      if (f.label id).type == type then [] else id :: cs.flatMap (spared f type) := by
  rw [spared, fold_mk]
  rfl

theorem spared_congr {f g : Forest} {parent : Option Nat} {o : Outline} (h : f.Holds parent o)
    (htype : ∀ i < f.size, (g.label i).type = (f.label i).type) (type : String) :
    o.spared g type = o.spared f type := by
  induction h with
  | @mk _ id cs hlt _ _ _ ih =>
    rw [spared_mk, spared_mk, htype id hlt, List.flatMap_def, List.flatMap_def,
      List.map_congr_left ih]

end Outline

namespace Forest

open Surroundings

variable {f g : Forest}

theorem Holds.spared_eq {parent : Option Nat} {o : Outline} (h : f.Holds parent o)
    (hnodup : o.ids.Nodup) (type : String) : f.spared type o.id = o.spared f type := by
  have hle := h.length_ids_le hnodup
  refine fold_eq (f.sparedTo type) (fun id => rfl) (fun depth id => ?_) h f.size (by omega)
  rw [sparedTo, List.flatMap_def]

/-- What becomes of a tree where one of its nodes is edited. -/
theorem Standing.exists_edit {root : Nat} {s : Frame} {ss : Surroundings} {o : Outline}
    (h : f.Standing root s ss o) (edit : WalkEdit) :
    ∃ g new, f.edit o.id edit = (g, .ok ()) ∧ g.HasOutline root (Surroundings.graft s ss new) ∧
      ∀ i ∈ new.flatMap Outline.ids, f.size ≤ i := by
  cases edit with
  | remove =>
    obtain ⟨g, hg, houtline, -⟩ := h.exists_remove
    exact ⟨g, [], by rw [edit, hg], houtline, by simp⟩
  | replace new =>
    obtain ⟨n, hid, hadded⟩ := exists_added f none new
    have hown : ∀ i ∈ n.ids, f.size ≤ i := hadded.lt_size List.mem_cons_self
    have hn : (f.add none new).HasOutline f.size n := by
      refine ⟨hid, ?_, hadded.holds n List.mem_cons_self⟩
      rw [← List.flatMap_singleton Outline.ids n, hadded.ids]
      exact List.nodup_range'
    have hold : (f.add none new).Standing root s ss o :=
      ⟨⟨h.root, h.nodup, hadded.holds_old h.holds⟩, fun t ht => by
        rw [(f.kept_add none new).isToken (h.holds.lt_size _ (id_mem_plug ht o))]
        exact h.inner t ht⟩
    obtain ⟨g, hg, houtline, -⟩ := hold.exists_replace hn fun i hi hi' => by
      have hlt := h.holds.lt_size i hi'
      have hle := hown i hi
      omega
    exact ⟨g, [n], by rw [edit, hg], houtline, by simpa using hown⟩

/-- Where new trees took the place of a node, none of its numbers is left. -/
theorem Standing.not_mem_of_graft {root : Nat} {s : Frame} {ss : Surroundings} {o : Outline}
    (h : f.Standing root s ss o) {new : List Outline}
    (hnew : ∀ i ∈ new.flatMap Outline.ids, f.size ≤ i) :
    ∀ i ∈ (Surroundings.graft s ss new).ids, i ∉ o.ids := by
  obtain ⟨-, -, hapart⟩ := h.nodup_parts
  intro i hi hi'
  rcases List.mem_append.mp ((ids_graft s ss new).mem_iff.mp hi) with hi | hi
  · exact hapart i hi hi'
  · have hle := hnew i hi
    have hlt := h.below.lt_size i hi'
    omega

/-- The later siblings of a node are apart from the node and what is below it. -/
theorem Standing.not_mem_of_later {root x : Nat} {done os : List Outline} {ss : Surroundings}
    {o : Outline} (h : f.Standing root ⟨x, done, os⟩ ss o) :
    ∀ i ∈ os.flatMap Outline.ids, i ∉ x :: o.ids := by
  obtain ⟨hparts, -, hapart⟩ := h.nodup_parts
  intro i hi hi'
  have hframe : i ∈ (done ++ os).flatMap Outline.ids := by
    rw [List.flatMap_append]
    exact List.mem_append_right _ hi
  rcases List.mem_cons.mp hi' with rfl | hi'
  · rw [Surroundings.ids_cons, Frame.ids, List.cons_append, List.nodup_cons] at hparts
    exact hparts.1 (List.mem_append_left _ hframe)
  · exact hapart i (List.mem_append_left _ (List.mem_cons_of_mem x hframe)) hi'

/-- A node that is edited is left behind, with what is below it, before the walk goes on there. -/
theorem Standing.exists_walkEditTo {root id : Nat} {s : Frame} {ss : Surroundings}
    {cs : List Outline} (h : f.Standing root s ss (.mk id cs)) (edit : WalkEdit) {type : String}
    (htype : (f.label id).type == type) {depth : Nat}
    (hdepth : (Outline.mk id cs).ids.length ≤ depth + 1) :
    ∃ g new, walkEditTo edit type depth f id = (g, .ok (Outline.mk id cs).ids) ∧
      g.HasOutline root (Surroundings.graft s ss new) ∧
      ∀ i ∈ new.flatMap Outline.ids, f.size ≤ i := by
  obtain ⟨hid, hparent, hchildren, hcs⟩ := holds_mk.mp h.below
  obtain ⟨-, hnodup, hapart⟩ := h.nodup_parts
  obtain ⟨f₁, new, hedit, houtline, hnew⟩ := h.exists_edit edit
  obtain ⟨f₂, hedit', hkept⟩ := Forest.exists_edit hparent h.encloses.1 hid edit
  obtain rfl : f₂ = f₁ := (Prod.mk.inj (hedit'.symm.trans hedit)).1
  have hp := hapart s.id List.mem_cons_self
  have hforeign := h.not_mem_of_graft hnew
  rw [Outline.ids_mk] at hnodup hp hforeign
  rw [List.mem_cons, not_or] at hp
  have hchildren₁ : f₂.children id = cs.map Outline.id := by
    rw [hkept.children id hid (by simpa using Ne.symm hp.1), hchildren]
  obtain ⟨below, hbelow, hwalk⟩ := exists_depth ((if_pos htype).trans hedit) hchildren₁ hdepth
  have hsize := hkept.size
  obtain ⟨g, hg, hkept'⟩ := exists_walkEditAll edit type cs f₂
    (hkept.holds_below hcs hnodup hp.2) (by omega) hnodup below hbelow
  rw [Outline.ids_mk]
  refine ⟨g, new, hwalk g _ hg, ⟨houtline.root, houtline.nodup, ?_⟩, hnew⟩
  exact hkept'.holds houtline.holds
    (fun i hi hi' => hforeign i hi (List.mem_cons_of_mem id hi')) hforeign

/--
What is known of nodes ahead of a walk: they were there at its start, when there were `n` nodes, and
tokens have no children.
-/
structure Ahead (f : Forest) (n : Nat) (ids : List Nat) : Prop where
  size : n ≤ f.size
  old : ∀ i ∈ ids, i < n
  leaves : ∀ i ∈ ids, (f.label i).isToken → f.children i = []

namespace Ahead

variable {n : Nat} {ids ids' : List Nat}

theorem mono (h : f.Ahead n ids) (hids : ids' ⊆ ids) : f.Ahead n ids' :=
  ⟨h.size, fun i hi => h.old i (hids hi), fun i hi => h.leaves i (hids hi)⟩

theorem kept {moved changed : List Nat} (h : f.Ahead n ids) (hkept : f.Kept g moved changed)
    (hids : ∀ i ∈ ids, i ∉ changed) : g.Ahead n ids := by
  have hsize := h.size
  refine ⟨Nat.le_trans hsize hkept.size, h.old, fun i hi htoken => ?_⟩
  have hlt : i < f.size := Nat.lt_of_lt_of_le (h.old i hi) hsize
  rw [hkept.isToken hlt] at htoken
  rw [hkept.children i hlt (hids i hi), h.leaves i hi htoken]

end Ahead

-- By induction on the tree: an edited node is left behind with what is below it, and the trees that
-- are put in have numbers of their own.
mutual

theorem walkEditTo_spared (edit : WalkEdit) (type : String) {root n : Nat} :
    (o : Outline) → (f : Forest) → {s : Frame} → {ss : Surroundings} → f.Standing root s ss o →
      f.Ahead n o.ids → (depth : Nat) → o.ids.length ≤ depth + 1 →
      ∃ g new, walkEditTo edit type depth f o.id = (g, .ok o.ids) ∧
        g.HasOutline root (graft s ss new) ∧
        (new.flatMap Outline.ids).filter (· < n) = o.spared f type
  | .mk id cs, f, s, ss, h, hahead, depth, hdepth => by
    obtain ⟨-, -, hchildren, -⟩ := holds_mk.mp h.below
    have hsize := hahead.size
    rw [Outline.spared_mk]
    by_cases htype : (f.label id).type == type
    · obtain ⟨g, new, hg, houtline, hnew⟩ := h.exists_walkEditTo edit htype hdepth
      rw [if_pos htype]
      refine ⟨g, new, hg, houtline, List.filter_eq_nil_iff.mpr fun i hi => ?_⟩
      have hle := hnew i hi
      simp only [decide_eq_true_eq]
      omega
    · rw [Outline.ids_mk] at hahead
      obtain ⟨below, hbelow, hwalk⟩ := exists_depth (if_neg htype) hchildren hdepth
      have hleaf (htoken : (f.label id).isToken) : cs = [] := by
        have hnil := hahead.leaves id List.mem_cons_self htoken
        rwa [hchildren, List.map_eq_nil_iff] at hnil
      have houtline : f.HasOutline root (plug (s :: ss) (.mk id ([] ++ cs))) := h.toHasOutline
      obtain ⟨g, new, hg, houtline, hspared⟩ := walkEditAll_spared edit type cs f houtline h.inner
        hleaf (hahead.mono (List.subset_cons_self ..)) below hbelow
      rw [if_neg htype, Outline.ids_mk]
      refine ⟨g, [.mk id new], hwalk g _ hg, ?_, ?_⟩
      · rwa [← plug_eq_graft]
      · have hlt := hahead.old id List.mem_cons_self
        rw [List.flatMap_singleton, Outline.ids_mk, List.filter_cons_of_pos (by simpa using hlt),
          hspared]

theorem walkEditAll_spared (edit : WalkEdit) (type : String) {root n : Nat} :
    (os : List Outline) → (f : Forest) → {x : Nat} → {done : List Outline} → {ss : Surroundings} →
      f.HasOutline root (plug ss (.mk x (done ++ os))) →
      (∀ t ∈ ss, (f.label t.id).isToken = false) → ((f.label x).isToken → os = []) →
      f.Ahead n (os.flatMap Outline.ids) → (depth : Nat) →
      (∀ o ∈ os, o.ids.length ≤ depth + 1) →
      ∃ g new, walkEditAll edit type depth f (os.map Outline.id) =
          (g, .ok (os.flatMap Outline.ids)) ∧
        g.HasOutline root (plug ss (.mk x (done ++ new))) ∧
        (new.flatMap Outline.ids).filter (· < n) = os.flatMap (Outline.spared f type)
  | [], f, x, done, ss, h, hinner, hleaf, hahead, depth, hdepth => by
    exact ⟨f, [], by rw [List.map_nil, walkEditAll]; rfl, h, rfl⟩
  | o :: os, f, x, done, ss, h, hinner, hleaf, hahead, depth, hdepth => by
    obtain ⟨hdepth, hdepths⟩ := List.forall_mem_cons.mp hdepth
    have hx : (f.label x).isToken = false := by
      by_contra htoken
      exact List.cons_ne_nil o os (hleaf (by simpa using htoken))
    have hstanding : f.Standing root ⟨x, done, os⟩ ss o :=
      ⟨h, List.forall_mem_cons.mpr ⟨hx, hinner⟩⟩
    rw [List.flatMap_cons] at hahead
    obtain ⟨f₁, first, hwalk, houtline, hspared⟩ := walkEditTo_spared edit type o f hstanding
      (hahead.mono (List.subset_append_left ..)) depth hdepth
    obtain ⟨-, hnodup, hapart⟩ := hstanding.nodup_parts
    obtain ⟨f₂, hwalk', hkept⟩ := exists_walkEditTo edit type o f hstanding.below
      hstanding.encloses.1 (List.nodup_cons.mpr ⟨hapart x List.mem_cons_self, hnodup⟩) depth hdepth
    obtain rfl : f₂ = f₁ := (Prod.mk.inj (hwalk'.symm.trans hwalk)).1
    obtain ⟨-, -, -, hbelow, -⟩ := hstanding.encloses
    have hinner₁ : ∀ t ∈ ss, (f₂.label t.id).isToken = false := by
      intro t ht
      rw [hkept.isToken (h.holds.lt_size _ (id_mem_plug ht _))]
      exact hinner t ht
    have hleaf₁ : (f₂.label x).isToken → os = [] := by
      rw [hkept.isToken hstanding.encloses.1, hx]
      simp
    have houtline₁ : f₂.HasOutline root (plug ss (.mk x ((done ++ first) ++ os))) := houtline
    obtain ⟨g, rest, hg, hgoutline, hgspared⟩ := walkEditAll_spared edit type os f₂ houtline₁
      hinner₁ hleaf₁
      ((hahead.mono (List.subset_append_right ..)).kept hkept hstanding.not_mem_of_later) depth
      hdepths
    refine ⟨g, first ++ rest, ?_, ?_, ?_⟩
    · rw [List.map_cons, walkEditAll, hwalk]
      simp only [hg]
      rfl
    · rwa [← List.append_assoc]
    · rw [List.flatMap_append, List.filter_append, hspared, hgspared, List.flatMap_cons,
        List.flatMap_def, List.flatMap_def, List.map_congr_left fun c hc =>
          Outline.spared_congr (hbelow c (List.mem_append_right _ hc)) hkept.type type]

end

/--
After a walk stand in the tree, apart from what was put in, the nodes that are neither of the type
that was edited nor below one of that type, in their order.
-/
theorem walkEdit_spared {root : Nat} (h : f.IsTree root)
    (hleaves : ∀ i ∈ f.walk root, (f.label i).isToken → f.children i = []) (edit : WalkEdit)
    {type : String} (htype : (f.label root).type ≠ type) :
    ∃ g, f.walkEdit edit type root = (g, .ok (f.walk root)) ∧ g.IsTree root ∧
      (g.walk root).filter (· < f.size) = f.spared type root := by
  obtain ⟨⟨id, cs⟩, ho⟩ := h.exists_outline
  obtain rfl : root = id := ho.root.symm
  obtain ⟨hid, hparent, hchildren, hcs⟩ := holds_mk.mp ho.holds
  have hsize := ho.holds.length_ids_le ho.nodup
  have hdepth : (Outline.mk root cs).ids.length ≤ f.size + edit.size + 1 := by omega
  have hne : ¬ ((f.label root).type == type) = true := by simpa using htype
  obtain ⟨below, hbelow, hwalk⟩ := exists_depth (if_neg hne) hchildren hdepth
  have hspared := ho.holds.spared_eq ho.nodup type
  rw [Outline.spared_mk, if_neg hne] at hspared
  rw [ho.walk_eq] at hleaves
  have hahead : f.Ahead f.size (Outline.mk root cs).ids :=
    ⟨Nat.le_refl _, ho.holds.lt_size, hleaves⟩
  rw [Outline.ids_mk] at hahead
  have houtline : f.HasOutline root (plug [] (.mk root ([] ++ cs))) := ho
  obtain ⟨g, new, hg, hgoutline, hgspared⟩ := walkEditAll_spared edit type cs f houtline (by simp)
    (fun htoken => by
      have hnil := hahead.leaves root List.mem_cons_self htoken
      rwa [hchildren, List.map_eq_nil_iff] at hnil)
    (hahead.mono (List.subset_cons_self ..)) below hbelow
  refine ⟨g, ?_, hgoutline.isTree, ?_⟩
  · rw [walkEdit, hwalk g _ hg, ho.walk_eq, Outline.ids_mk]
  · have hspared' : f.spared type root = root :: cs.flatMap (Outline.spared f type) := hspared
    rw [hgoutline.walk_eq, hspared', ← hgspared]
    exact (congrArg _ (Outline.ids_mk root new)).trans
      (List.filter_cons_of_pos (by simpa using hid))

end Forest
end ShaderParams

import ShaderParams.Proofs.Planting

/-!
This module contains the edits of a tree in a table: what they do to its tokens and its source text,
and that they change nothing else.
-/

namespace ShaderParams

/-!
Trees that differ below one parent.
-/

namespace Surroundings

/-- The tree in which other trees stand in the place of a node with these surroundings. -/
def graft (s : Frame) (ss : Surroundings) (new : List Outline) : Outline :=
  plug ss (.mk s.id (s.left ++ new ++ s.right))

variable {s : Frame} {ss : Surroundings}

theorem plug_eq_graft (s : Frame) (ss : Surroundings) (o : Outline) :
    plug (s :: ss) o = graft s ss [o] := by
  rw [plug, graft, List.append_assoc, List.singleton_append]

theorem id_graft (s : Frame) (ss : Surroundings) (new new' : List Outline) :
    (graft s ss new).id = (graft s ss new').id :=
  id_plug ss rfl

theorem ids_graft (s : Frame) (ss : Surroundings) (new : List Outline) :
    (graft s ss new).ids.Perm (ids (s :: ss) ++ new.flatMap Outline.ids) := by
  refine (ids_plug ss _).trans ?_
  rw [Outline.ids_mk, ids_cons, Frame.ids]
  simp only [List.flatMap_append]
  grind

theorem tokens_graft {f : Forest} (h : ∀ t ∈ s :: ss, (f.label t.id).isToken = false)
    (new : List Outline) :
    (graft s ss new).tokens f =
      before f (s :: ss) ++ new.flatMap (Outline.tokens f) ++ behind f (s :: ss) := by
  have hs := h s List.mem_cons_self
  rw [graft, tokens_plug fun t ht => h t (List.mem_cons_of_mem s ht), Outline.tokens_mk,
    if_neg (by simp [hs]), before, behind]
  simp [List.append_assoc]

end Surroundings

namespace Forest

open Surroundings

variable {f g : Forest}

/--
Where only the children of one parent change, its surroundings stay, and so do the children that it
keeps.
-/
theorem Encloses.graft {s : Frame} {ss : Surroundings} {hole : Nat} {new : List Outline}
    (h : f.Encloses (s :: ss) hole) (hnodup : (Surroundings.ids (s :: ss)).Nodup)
    (hsize : f.size ≤ g.size)
    (hparent : ∀ i ∈ Surroundings.ids (s :: ss), g.parent? i = f.parent? i)
    (hchildren : ∀ i ∈ Surroundings.ids (s :: ss), i ≠ s.id → g.children i = f.children i)
    (hcs : g.children s.id = (s.left ++ new ++ s.right).map Outline.id)
    (hnew : ∀ c ∈ new, g.Holds (some s.id) c) : g.Holds none (graft s ss new) := by
  obtain ⟨hlt, hp, -, hbelow, hss⟩ := h
  rw [Surroundings.ids_cons] at hparent hchildren hnodup
  obtain ⟨hs, -, hdisjoint⟩ := List.nodup_append.mp hnodup
  have hkept : ∀ c ∈ s.left ++ s.right, g.Holds (some s.id) c := by
    intro c hc
    refine (hbelow c hc).congr hsize (fun i hi => ?_) fun i hi => ?_
    · exact hparent i (List.mem_append_left _ (Frame.ids_subset hc hi))
    · refine hchildren i (List.mem_append_left _ (Frame.ids_subset hc hi)) ?_
      rintro rfl
      exact (List.nodup_cons.mp hs).1 ((Outline.ids_sublist hc).subset hi)
  refine holds_plug.mpr ⟨?_, holds_mk.mpr ⟨by omega, ?_, hcs, fun c hc => ?_⟩⟩
  · refine hss.congr hsize (fun i hi => hparent i (List.mem_append_right _ hi)) fun i hi => ?_
    refine hchildren i (List.mem_append_right _ hi) ?_
    rintro rfl
    exact hdisjoint s.id List.mem_cons_self s.id hi rfl
  · rw [hparent s.id (List.mem_append_left _ List.mem_cons_self), hp]
  · simp only [List.mem_append] at hc hkept
    rcases hc with (hc | hc) | hc
    · exact hkept c (.inl hc)
    · exact hnew c hc
    · exact hkept c (.inr hc)

/-!
The edits, node by node.
-/

theorem replace_eq {x p : Nat} (hp : f.parent? x = some p) (n : Nat) :
    let f' := f.giveLeading (f.firstToken? n) (f.leading x)
    let g := f'.defaultField n (f'.label x).field
    f.replace x n = .ok
      (((g.setChildren p ((g.children p).replace x n)).setParent n (some p)).setParent x none) := by
  rw [replace, hp]
  rfl

theorem exists_replace {x n p : Nat} (hp : f.parent? x = some p) (hlt : p < f.size)
    (hx : x < f.size) (hn : n < f.size) :
    ∃ g, f.replace x n = .ok g ∧ g.size = f.size ∧
      (∀ i, g.parent? i = if i = x then none else if i = n then some p else f.parent? i) ∧
      (∀ i, g.children i = if i = p then (f.children p).replace x n else f.children i) ∧
      ∀ i, g.label i = { f.label i with
        leading := if some i = f.firstToken? n then f.leading x else (f.label i).leading
        field := if i = n then (f.label n).field <|> (f.label x).field
          else (f.label i).field } := by
  have ht : ∀ t ∈ f.firstToken? n, t < f.size := fun _ => firstToken?_lt_size
  refine ⟨_, replace_eq hp n, ?_, fun i => ?_, fun i => ?_, fun i => ?_⟩
  · simp
  · rw [parent?_setParent (by simpa), parent?_setParent (by simpa)]
    simp
  · rw [children_setParent, children_setParent, children_setChildren (by simpa)]
    simp
  · rw [label_setParent, label_setParent, label_setChildren, label_defaultField (by simpa),
      label_giveLeading ht, label_giveLeading ht]
    split <;> simp_all

theorem remove_eq {x p : Nat} (hp : f.parent? x = some p) :
    let g := f.giveLeading (f.nextToken? x) (f.leading x)
    f.remove x = .ok ((g.setChildren p ((g.children p).erase x)).setParent x none) := by
  rw [remove, hp]
  rfl

theorem exists_remove {x p : Nat} (hp : f.parent? x = some p) (hlt : p < f.size)
    (hx : x < f.size) :
    ∃ g, f.remove x = .ok g ∧ g.size = f.size ∧
      (∀ i, g.parent? i = if i = x then none else f.parent? i) ∧
      (∀ i, g.children i = if i = p then (f.children p).erase x else f.children i) ∧
      ∀ i, g.label i = { f.label i with
        leading := if some i = f.nextToken? x then f.leading x else (f.label i).leading } := by
  refine ⟨_, remove_eq hp, ?_, fun i => ?_, fun i => ?_, fun i => ?_⟩
  · simp
  · rw [parent?_setParent (by simpa)]
    simp
  · rw [children_setParent, children_setChildren (by simpa)]
    simp
  · rw [label_setParent, label_setChildren, label_giveLeading fun _ => nextToken?_lt_size]

/-!
A node in its tree.
-/

/-- Whether a table has a tree of a given shape, in which no node stands twice. -/
structure HasOutline (f : Forest) (root : Nat) (o : Outline) : Prop where
  root : o.id = root
  nodup : o.ids.Nodup
  holds : f.Holds none o

namespace HasOutline

variable {root : Nat} {o : Outline} (h : f.HasOutline root o)

include h

theorem isTree : f.IsTree root :=
  ⟨o, h.root, h.nodup, h.holds⟩

theorem tree_eq : f.tree root = o.node f := by
  rw [← h.root]
  exact h.holds.tree_eq h.nodup

theorem tokens_eq : f.tokens root = o.tokens f := by
  rw [← h.root]
  exact h.holds.tokens_eq h.nodup

theorem walk_eq : f.walk root = o.ids := by
  rw [← h.root]
  exact h.holds.walk_eq h.nodup

end HasOutline

theorem IsTree.exists_outline {root : Nat} (h : f.IsTree root) : ∃ o, f.HasOutline root o := by
  obtain ⟨o, hroot, hnodup, ho⟩ := h
  exact ⟨o, hroot, hnodup, ho⟩

/-- Whether a node, the root of `o`, stands in a tree below parents that are no tokens. -/
structure Standing (f : Forest) (root : Nat) (s : Frame) (ss : Surroundings) (o : Outline) : Prop
    extends f.HasOutline root (plug (s :: ss) o) where
  inner : ∀ t ∈ s :: ss, (f.label t.id).isToken = false

theorem HasOutline.inner {root : Nat} {ss : Surroundings} {o : Outline}
    (h : f.HasOutline root (plug ss o))
    (hleaves : ∀ i ∈ f.walk root, (f.label i).isToken → f.children i = []) :
    ∀ t ∈ ss, (f.label t.id).isToken = false := by
  intro t ht
  have hmem : t.id ∈ f.walk root := by
    rw [h.walk_eq]
    exact id_mem_plug ht o
  by_contra htoken
  exact (holds_plug.mp h.holds).1.children_ne_nil t ht (hleaves _ hmem (by simpa using htoken))

theorem IsTree.exists_standing {root x : Nat} (h : f.IsTree root)
    (hleaves : ∀ i ∈ f.walk root, (f.label i).isToken → f.children i = [])
    (hx : x ∈ f.walk root) (hne : x ≠ root) :
    ∃ s ss o, f.Standing root s ss o ∧ o.id = x := by
  obtain ⟨o, ho⟩ := h.exists_outline
  rw [ho.walk_eq] at hx
  obtain ⟨ss, c, rfl, rfl⟩ := exists_plug ho.holds x hx
  cases ss with
  | nil => exact absurd ho.root hne
  | cons s ss => exact ⟨s, ss, c, ⟨ho, ho.inner hleaves⟩, rfl⟩

namespace Standing

variable {root : Nat} {s : Frame} {ss : Surroundings} {o : Outline} (h : f.Standing root s ss o)

include h

theorem encloses : f.Encloses (s :: ss) o.id :=
  (holds_plug.mp h.holds).1

theorem below : f.Holds (some s.id) o :=
  (holds_plug.mp h.holds).2

theorem nodup_parts : (Surroundings.ids (s :: ss)).Nodup ∧ o.ids.Nodup ∧
    ∀ i ∈ Surroundings.ids (s :: ss), i ∉ o.ids := by
  have hparts := List.nodup_append.mp ((ids_plug _ o).nodup_iff.mp h.nodup)
  exact ⟨hparts.1, hparts.2.1, fun i hi hi' => hparts.2.2 i hi i hi' rfl⟩

theorem tokens_below : f.tokens o.id = o.tokens f :=
  h.below.tokens_eq h.nodup_parts.2.1

theorem render_eq : (f.tree o.id).render = f.write (f.tokens o.id) :=
  render_tree h.below h.nodup_parts.2.1

theorem tokens_root :
    f.tokens root = before f (s :: ss) ++ f.tokens o.id ++ behind f (s :: ss) := by
  rw [h.tokens_eq, tokens_plug h.inner, h.tokens_below]

theorem nextToken?_eq : f.nextToken? o.id = (behind f (s :: ss)).head? := by
  obtain ⟨hnodup, -, hdisjoint⟩ := h.nodup_parts
  refine h.encloses.nextTokenTo?_eq h.below.parent_eq hnodup
    (fun hmem => hdisjoint _ hmem o.id_mem_ids) f.size ?_
  have hlength := (ids_plug (s :: ss) o).length_eq
  have hsize := h.holds.length_ids_le h.nodup
  have hle := length_le_ids (s :: ss)
  rw [List.length_append] at hlength
  omega

theorem graft (new : List Outline) (hids : (new.flatMap Outline.ids).Nodup)
    (hnew : ∀ i ∈ new.flatMap Outline.ids, i ∉ Surroundings.ids (s :: ss))
    (hsize : f.size ≤ g.size)
    (hparent : ∀ i ∈ Surroundings.ids (s :: ss), g.parent? i = f.parent? i)
    (hchildren : ∀ i ∈ Surroundings.ids (s :: ss), i ≠ s.id → g.children i = f.children i)
    (hcs : g.children s.id = (s.left ++ new ++ s.right).map Outline.id)
    (hholds : ∀ c ∈ new, g.Holds (some s.id) c) :
    g.HasOutline root (Surroundings.graft s ss new) := by
  refine ⟨?_, ?_, h.encloses.graft h.nodup_parts.1 hsize hparent hchildren hcs hholds⟩
  · rw [← h.root, plug_eq_graft]
    exact id_graft ..
  · rw [(ids_graft s ss new).nodup_iff, List.nodup_append]
    refine ⟨h.nodup_parts.1, hids, fun i hi j hj => ?_⟩
    rintro rfl
    exact hnew i hj hi

theorem tokens_graft {new : List Outline} (hg : g.HasOutline root (Surroundings.graft s ss new))
    (htoken : ∀ i, (g.label i).isToken = (f.label i).isToken) :
    g.tokens root =
      before f (s :: ss) ++ new.flatMap (Outline.tokens f) ++ behind f (s :: ss) := by
  rw [hg.tokens_eq, Outline.tokens_congr htoken, Surroundings.tokens_graft h.inner]

theorem not_mem_left : o.id ∉ s.left.map Outline.id := by
  intro hmem
  obtain ⟨c, hc, hid⟩ := List.mem_map.mp hmem
  have hc' := Frame.ids_subset (List.mem_append_left s.right hc) c.id_mem_ids
  rw [hid] at hc'
  exact h.nodup_parts.2.2 _ (List.mem_append_left _ hc') o.id_mem_ids

theorem exists_replace {m : Nat} {n : Outline} (hn : f.HasOutline m n)
    (hdetached : ∀ i ∈ n.ids, i ∉ (plug (s :: ss) o).ids) :
    ∃ g, f.replace o.id m = .ok g ∧ g.HasOutline root (Surroundings.graft s ss [n]) ∧
      ∀ i, g.label i = { f.label i with
        leading := if some i = (n.tokens f).head? then f.leading o.id else (f.label i).leading
        field := if i = m then (f.label m).field <|> (f.label o.id).field
          else (f.label i).field } := by
  obtain ⟨rfl, hnodup, hn⟩ := hn
  obtain ⟨-, -, hdisjoint⟩ := h.nodup_parts
  have hnew : ∀ i ∈ n.ids, i ∉ Surroundings.ids (s :: ss) ∧ i ∉ o.ids := by
    intro i hi
    have hnone := hdetached i hi
    rw [(ids_plug (s :: ss) o).mem_iff, List.mem_append, not_or] at hnone
    exact hnone
  have hfirst : f.firstToken? n.id = (n.tokens f).head? := by
    rw [firstToken?, hn.tokens_eq hnodup]
  obtain ⟨g, hg, hsize, hparent, hchildren, hlabel⟩ := Forest.exists_replace h.below.parent_eq
    h.encloses.1 (h.below.lt_size _ o.id_mem_ids) (hn.lt_size _ n.id_mem_ids)
  rw [hfirst] at hlabel
  refine ⟨g, hg, ?_, hlabel⟩
  apply h.graft [n] (by simpa) (by simpa using fun i hi => (hnew i hi).1) (by omega)
  · intro i hi
    rw [hparent, if_neg, if_neg]
    · rintro rfl
      exact (hnew _ n.id_mem_ids).1 hi
    · rintro rfl
      exact hdisjoint _ hi o.id_mem_ids
  · intro i _ hne
    rw [hchildren, if_neg hne]
  · obtain ⟨-, -, hcs, -, -⟩ := h.encloses
    rw [hchildren, if_pos rfl, hcs, List.replace_append_right h.not_mem_left,
      List.replace_cons_self]
    simp
  · intro c hc
    obtain rfl := List.mem_singleton.mp hc
    have hold {i : Nat} (hi : i ∈ c.ids) : i ≠ o.id := by
      rintro rfl
      exact (hnew _ hi).2 o.id_mem_ids
    refine hn.reparent hnodup (by omega) ?_ (fun i hi hne => ?_) fun i hi => ?_
    · rw [hparent, if_neg (hold c.id_mem_ids), if_pos rfl]
    · rw [hparent, if_neg (hold hi), if_neg hne]
    · rw [hchildren, if_neg]
      rintro rfl
      exact (hnew _ hi).1 List.mem_cons_self

theorem exists_remove :
    ∃ g, f.remove o.id = .ok g ∧ g.HasOutline root (Surroundings.graft s ss []) ∧
      ∀ i, g.label i = { f.label i with
        leading := if some i = (behind f (s :: ss)).head? then f.leading o.id
          else (f.label i).leading } := by
  obtain ⟨-, -, hdisjoint⟩ := h.nodup_parts
  obtain ⟨g, hg, hsize, hparent, hchildren, hlabel⟩ := Forest.exists_remove h.below.parent_eq
    h.encloses.1 (h.below.lt_size _ o.id_mem_ids)
  rw [h.nextToken?_eq] at hlabel
  refine ⟨g, hg, ?_, hlabel⟩
  apply h.graft [] (by simp) (by simp) (by omega)
  · intro i hi
    rw [hparent, if_neg]
    rintro rfl
    exact hdisjoint _ hi o.id_mem_ids
  · intro i _ hne
    rw [hchildren, if_neg hne]
  · obtain ⟨-, -, hcs, -, -⟩ := h.encloses
    rw [hchildren, if_pos rfl, hcs, List.erase_append_right _ h.not_mem_left,
      List.erase_cons_head]
    simp
  · simp

end Standing

/-!
The source text after an edit.
-/

/-- Whether two tables differ in the trivia in front of one token, as far as texts go. -/
def Retold (f g : Forest) (token : Option Nat) (leading : String) : Prop :=
  ∀ i, (g.label i).render =
    (if some i = token then leading else (f.label i).leading) ++ (f.label i).text.getD ""

namespace Retold

variable {token : Option Nat} {leading : String} (h : f.Retold g token leading)

include h

theorem write_eq {is : List Nat} (htoken : ∀ t ∈ token, t ∉ is) : g.write is = f.write is := by
  refine write_congr fun i hi => ?_
  rw [h i, if_neg, Label.render]
  intro heq
  exact htoken i heq.symm hi

theorem write_of_head {ids : List Nat} (htoken : token = ids.head?) (hnodup : ids.Nodup)
    (hne : ids ≠ []) : g.write ids = leading ++ f.body ids := by
  cases ids with
  | nil => exact absurd rfl hne
  | cons t ts =>
    have hts : g.write ts = f.write ts := by
      apply h.write_eq
      rw [htoken]
      rintro _ ⟨⟩
      exact (List.nodup_cons.mp hnodup).1
    rw [body, ← List.singleton_append, write_append, hts, ← String.append_assoc]
    congr 1
    have hlabel := h t
    rw [if_pos (by rw [htoken]; rfl)] at hlabel
    simp [write, Node.renderTokens, hlabel]

end Retold

/--
What the edits of a tree do to its tokens and its text. A tree that takes the place of a node gets
the trivia in front of the node, and its role unless it has one. The token behind a node that is
removed gets the trivia in front of the node, wherever it stands. All else stays, and the root is
neither replaced nor removed.
-/
theorem edit_tokens {root x n : Nat} (htree : f.IsTree root)
    (hleaves : ∀ i ∈ f.walk root, (f.label i).isToken → f.children i = [])
    (hx : x ∈ f.walk root) (hne : x ≠ root) (hn : f.IsTree n)
    (hdetached : ∀ i ∈ f.walk n, i ∉ f.walk root) (htokens : f.tokens n ≠ []) (tail : String) :
    ∃ pre post, f.tokens root = pre ++ f.tokens x ++ post ∧
      Document.render ⟨f.tree root, tail⟩ =
        f.write pre ++ (f.tree x).render ++ f.write post ++ tail ∧
      f.nextToken? x = post.head? ∧
      (∃ g, f.replace x n = .ok g ∧ g.IsTree root ∧ g.tokens root = pre ++ f.tokens n ++ post ∧
        (∀ i, g.label i = { f.label i with
          leading := if some i = (f.tokens n).head? then f.leading x else (f.label i).leading
          field := if i = n then (f.label n).field <|> (f.label x).field else (f.label i).field }) ∧
        Document.render ⟨g.tree root, tail⟩ =
          f.write pre ++ (f.leading x ++ (f.tree n).text) ++ f.write post ++ tail) ∧
      (∃ g, f.remove x = .ok g ∧ g.IsTree root ∧ g.tokens root = pre ++ post ∧
        (∀ i, g.label i = { f.label i with
          leading := if some i = post.head? then f.leading x else (f.label i).leading }) ∧
        Document.render ⟨g.tree root, tail⟩ =
          f.write pre ++ (if post = [] then "" else f.leading x ++ f.body post) ++ tail) ∧
      (∀ m, f.replace root m = .error .replaceRoot) ∧ f.remove root = .error .removeRoot := by
  obtain ⟨s, ss, o, h, rfl⟩ := htree.exists_standing hleaves hx hne
  have htext := h.render_eq
  have hroot := h.tokens_root
  have hnext := h.nextToken?_eq
  obtain ⟨m, hm⟩ := hn.exists_outline
  have hown : ∀ i ∈ m.ids, i ∉ (plug (s :: ss) o).ids := by
    rwa [← hm.walk_eq, ← h.walk_eq]
  obtain ⟨g, hg, hgoutline, hglabel⟩ := h.exists_remove
  have hgtokens := h.tokens_graft hgoutline fun i => by rw [hglabel]; rfl
  have hgtree := hgoutline.isTree
  obtain ⟨g', hg', hgoutline', hglabel'⟩ := h.exists_replace hm hown
  have hgtokens' := h.tokens_graft hgoutline' fun i => by rw [hglabel']; rfl
  have hgtree' := hgoutline'.isTree
  rw [List.flatMap_nil, List.append_nil] at hgtokens
  rw [List.flatMap_singleton, ← hm.tokens_eq] at hgtokens'
  rw [← hm.tokens_eq] at hglabel'
  clear hgoutline hgoutline'
  generalize before f (s :: ss) = pre, behind f (s :: ss) = post at *
  have hnodup := htree.nodup_tokens
  rw [hroot, List.nodup_append, List.nodup_append] at hnodup
  obtain ⟨-, hpost, hapart⟩ := hnodup
  have hsubset := htree.tokens_subset
  rw [hroot] at hsubset
  refine ⟨pre, post, hroot, ?_, hnext, ⟨g', hg', hgtree', hgtokens', hglabel', ?_⟩,
    ⟨g, hg, hgtree, hgtokens, hglabel, ?_⟩, fun m => ?_, ?_⟩
  · rw [Document.render, htree.render_eq, hroot, write_append, write_append, htext]
  · have hretold : f.Retold g' (f.tokens n).head? (f.leading o.id) := fun i => by
      rw [hglabel', Label.render]
    -- The token with the new trivia is one of the new tree.
    have hforeign {is : List Nat} (his : is ⊆ f.walk root) : g'.write is = f.write is :=
      hretold.write_eq fun t ht hmem =>
        hdetached t (hn.tokens_subset (List.mem_of_mem_head? ht)) (his hmem)
    have hpre : g'.write pre = f.write pre := hforeign fun i hi => hsubset (by simp [hi])
    have hpost : g'.write post = f.write post := hforeign fun i hi => hsubset (by simp [hi])
    rw [Document.render, hgtree'.render_eq, hgtokens', write_append, write_append, hpre, hpost,
      hretold.write_of_head rfl hn.nodup_tokens htokens, hn.text_eq]
  · have hretold : f.Retold g post.head? (f.leading o.id) := fun i => by
      rw [hglabel, Label.render]
    have hpre : g.write pre = f.write pre := hretold.write_eq fun t ht hmem =>
      hapart t (List.mem_append_left _ hmem) t (List.mem_of_mem_head? ht) rfl
    rw [Document.render, hgtree.render_eq, hgtokens, write_append, hpre]
    split
    · simp [*, write, Node.renderTokens]
    · rw [hretold.write_of_head rfl hpost ‹_›]
  · rw [replace, htree.parent?_eq]
  · rw [remove, htree.parent?_eq]

/--
A declaration with a qualifier two levels down, in front of a node without tokens. The next token is
the type, on the first level. A qualifier that takes its place is the second tree of the table.
-/
def qualified : Forest :=
  (ofNode (.branch "declaration" [
    .branch "qualifiers" [
      .branch "storage" [.symbol "uniform" "    "] (some "qualifier"),
      .branch "layout" []],
    .token "type" "float" " ",
    .token "identifier" "x" " "])).add none
  (.branch "storage" [.symbol "const" "\n", .symbol "in" " "])

theorem edit_tokens_qualified :
    qualified.IsTree 0 ∧
      (∀ i ∈ qualified.walk 0, (qualified.label i).isToken → qualified.children i = []) ∧
      2 ∈ qualified.walk 0 ∧ 2 ≠ 0 ∧ qualified.IsTree 7 ∧
      (∀ i ∈ qualified.walk 7, i ∉ qualified.walk 0) ∧ qualified.tokens 7 ≠ [] ∧
      qualified.nextToken? 2 = some 5 ∧
      (∃ g, qualified.replace 2 7 = .ok g ∧ g.tokens 0 = [8, 9, 5, 6] ∧
        (g.label 7).field = some "qualifier" ∧
        Document.render ⟨g.tree 0, "\n"⟩ = "    const in float x\n") ∧
      ∃ g, qualified.remove 2 = .ok g ∧ g.tokens 0 = [5, 6] ∧
        Document.render ⟨g.tree 0, "\n"⟩ = "    float x\n" := by
  have hroot : qualified.IsTree 0 := (add_isTree {} _).1.add none _
  have hleaves : ∀ i ∈ qualified.walk 0,
      (qualified.label i).isToken → qualified.children i = [] := by decide
  have hx : 2 ∈ qualified.walk 0 := by decide
  have hnew : qualified.IsTree 7 := (add_isTree (ofNode _) _).1
  have hdetached : ∀ i ∈ qualified.walk 7, i ∉ qualified.walk 0 := by decide
  have htokens : qualified.tokens 7 ≠ [] := by decide
  obtain ⟨pre, post, hsplit, -, hnext, ⟨g, hg, -, hgtokens, hglabel, hgtext⟩,
    ⟨g', hg', -, hgtokens', -, hgtext'⟩, -⟩ :=
    edit_tokens hroot hleaves hx (by decide) hnew hdetached htokens "\n"
  have hparts : [3, 5, 6] = pre ++ [3] ++ post := hsplit
  obtain ⟨rfl, rfl⟩ : pre = [] ∧ post = [5, 6] := by
    cases pre with
    | nil => simpa using hparts.symm
    | cons i pre =>
      have hmem : 3 ∈ [5, 6] := by
        rw [(List.cons.inj hparts).2]
        simp
      simp at hmem
  refine ⟨hroot, hleaves, hx, by decide, hnew, hdetached, htokens, hnext,
    ⟨g, hg, hgtokens, ?_, hgtext.trans (by decide +kernel)⟩,
    ⟨g', hg', hgtokens', hgtext'.trans (by decide +kernel)⟩⟩
  rw [hglabel]
  decide

end Forest

end ShaderParams

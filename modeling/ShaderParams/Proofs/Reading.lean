import ShaderParams.Proofs.Complete

/-!
This module contains where the parts stand that an extraction reads off a tree: the texts of tokens,
the fields of a block, the operands of expressions and the values of layout entries.
-/

namespace ShaderParams
namespace Node

mutual

theorem walk_subset : (n : Node) → {m : Node} → m ∈ n.walk → ∀ x ∈ m.walk, x ∈ n.walk
  | mk l cs, m => by
    intro hm x hx
    rw [walk_mk] at hm ⊢
    rcases List.mem_cons.mp hm with rfl | hm
    · rwa [walk_mk] at hx
    · exact List.mem_cons_of_mem _ (listWalk_subset cs hm x hx)

theorem listWalk_subset : (cs : List Node) → {m : Node} → m ∈ listWalk cs →
    ∀ x ∈ m.walk, x ∈ listWalk cs
  | [], m => by
    intro hm
    cases hm
  | c :: cs, m => by
    intro hm x hx
    rw [listWalk] at hm ⊢
    rcases List.mem_append.mp hm with hm | hm
    · exact List.mem_append_left _ (walk_subset c hm x hx)
    · exact List.mem_append_right _ (listWalk_subset cs hm x hx)

end

theorem mem_walk_of_mem_fields {n f : Node} (h : f ∈ n.fields) : f ∈ n.walk := by
  rw [fields] at h
  split at h
  · next list hlist =>
    have hlist := List.mem_of_find?_eq_some hlist
    have hf := walk_subset_of_mem (List.mem_of_mem_filter h) (self_mem_walk f)
    exact walk_subset_of_mem hlist hf
  · cases h

theorem text_of_token {l : Label} {text : String} (h : l.text = some text) (cs : List Node) :
    (mk l cs).text = text := by
  simp [Node.text, tokens, Label.isToken, h, renderTokens]

theorem literal_of_type {n : Node} (h : n.type = "number_literal") : n.literal = n.readLiteral := by
  have hunary : (n.type == "unary_expression") = false := by
    rw [h]
    decide
  rw [literal, signedLiteral?, hunary, h]
  rfl

/--
A node whose parts can be told apart: the operator and the operand of a sign, the function and the
arguments of a call.
-/
structure Applied (n : Node) : Prop where
  unary : n.type = "unary_expression" →
    (n.childByField? "operator").isSome ∧ (n.childByField? "argument").isSome
  call : n.type = "call_expression" →
    (n.childByField? "function").isSome ∧ (n.childByField? "arguments").isSome

instance (n : Node) : Decidable n.Applied :=
  decidable_of_iff
    ((n.type = "unary_expression" →
        (n.childByField? "operator").isSome ∧ (n.childByField? "argument").isSome) ∧
      (n.type = "call_expression" →
        (n.childByField? "function").isSome ∧ (n.childByField? "arguments").isSome))
    ⟨fun h => ⟨h.1, h.2⟩, fun h => ⟨h.unary, h.call⟩⟩

theorem Applied.signedLiteral? {n : Node} (h : n.Applied) :
    ∃ signed, n.signedLiteral? = .ok signed := by
  rw [Node.signedLiteral?]
  split
  · next htype =>
    obtain ⟨hoperator, hoperand⟩ := h.unary (by simpa using htype)
    obtain ⟨operator, hoperator⟩ := Option.isSome_iff_exists.mp hoperator
    obtain ⟨operand, hoperand⟩ := Option.isSome_iff_exists.mp hoperand
    rw [hoperator, hoperand]
    simp only [Option.orElse_eq_orElse, Option.orElse_some]
    split <;> exact ⟨_, rfl⟩
  · exact ⟨_, rfl⟩

/-!
Where the values of layout entries stand.
-/

mutual

theorem parenthesized?_mem_walk : (n : Node) → {cs : List Node} → n.parenthesized? = some cs →
    ∀ c ∈ cs, c ∈ n.walk
  | mk l ds, cs => by
    intro h c hc
    rw [parenthesized?] at h
    rw [walk_mk]
    split at h
    · cases h
      exact List.mem_cons_of_mem _ (mem_listWalk.mpr ⟨c, hc, self_mem_walk c⟩)
    · exact List.mem_cons_of_mem _ (lastParenthesized?_mem_listWalk ds h c hc)

theorem lastParenthesized?_mem_listWalk : (ds : List Node) → {cs : List Node} →
    lastParenthesized? ds = some cs → ∀ c ∈ cs, c ∈ listWalk ds
  | [], cs => by
    intro h
    cases h
  | d :: ds, cs => by
    intro h c hc
    rw [lastParenthesized?] at h
    rw [listWalk]
    split at h
    · exact List.mem_append_right _ (lastParenthesized?_mem_listWalk ds h c hc)
    · split at h
      · cases h
      · exact List.mem_append_left _ (parenthesized?_mem_walk d h c hc)

end

theorem mem_of_mem_splitList {inside : Bool} {cur cs g : List Node}
    (hg : g ∈ splitList inside cur cs) : ∀ c ∈ g, c ∈ cur ++ cs := by
  induction cs generalizing inside cur with
  | nil =>
    rw [splitList, List.mem_singleton] at hg
    intro c hc
    rw [List.append_nil, ← hg]
    exact hc
  | cons d ds ih =>
    rw [splitList] at hg
    intro c hc
    split at hg
    · have hmem := ih hg c hc
      grind
    · split at hg
      · rw [List.mem_singleton] at hg
        rw [← hg]
        exact List.mem_append_left _ hc
      · split at hg
        · rcases List.mem_cons.mp hg with rfl | hg
          · exact List.mem_append_left _ hc
          · have hmem := ih hg c hc
            grind
        · split at hg
          · have hmem := ih hg c hc
            grind
          · have hmem := ih hg c hc
            grind

theorem entryNodes_mem_walk {g : List Node} {m : Node} (h : m ∈ entryNodes g) :
    ∃ c ∈ g, m ∈ c.walk := by
  rcases g with _ | ⟨n, _ | ⟨n', rest⟩⟩
  · cases h
  · rw [entryNodes] at h
    split at h
    · exact ⟨m, h, self_mem_walk m⟩
    · have hmem : m ∈ n.children := List.mem_of_mem_filter h
      exact ⟨n, List.mem_cons_self, walk_subset_of_mem hmem (self_mem_walk m)⟩
  · exact ⟨m, h, self_mem_walk m⟩

/-- The entry that consists of given nodes. -/
def entryOf : List Node → Except Error LayoutEntry
  | [] => .error .missingChild
  | name :: eq :: value :: _ => .ok ⟨name.text, if eq.type == "=" then some value else none, name⟩
  | name :: _ => .ok ⟨name.text, none, name⟩

theorem layoutEntry_eq (g : List Node) : layoutEntry g = entryOf (entryNodes g) := by
  rcases g with _ | ⟨n, _ | ⟨n', _ | ⟨n'', rest⟩⟩⟩
  · rfl
  · rw [layoutEntry, entryNodes]
    generalize (if n.isToken then [n] else withoutComments n.children) = nodes
    rcases nodes with _ | ⟨name, _ | ⟨eq, _ | ⟨value, rest⟩⟩⟩ <;> rfl
  · rfl
  · rfl

theorem value_mem_entryNodes {g : List Node} {e : LayoutEntry} {v : Node}
    (h : layoutEntry g = .ok e) (hv : e.value = some v) : v ∈ entryNodes g := by
  rw [layoutEntry_eq] at h
  generalize entryNodes g = nodes at h ⊢
  rcases nodes with _ | ⟨name, _ | ⟨eq, _ | ⟨value, rest⟩⟩⟩
  · cases h
  · cases h
    cases hv
  · cases h
    cases hv
  · cases h
    simp only [Option.ite_none_right_eq_some, Option.some.injEq] at hv
    simp [← hv.2]

/-- The value of a layout entry stands below the layout. -/
theorem value_mem_walk {layout : Node} {es : List LayoutEntry} (h : layout.layoutEntries = .ok es)
    {e : LayoutEntry} (he : e ∈ es) {v : Node} (hv : e.value = some v) : v ∈ layout.walk := by
  rw [layoutEntries] at h
  split at h
  · cases h
    cases he
  · next cs hcs =>
    obtain ⟨-, hall⟩ := exists_of_mapM_eq_ok h
    obtain ⟨g, hg, hentry⟩ := hall e he
    obtain ⟨c, hc, hmem⟩ := entryNodes_mem_walk (value_mem_entryNodes hentry hv)
    have hc' := mem_of_mem_splitList (List.mem_of_mem_filter hg) c hc
    exact walk_subset layout (parenthesized?_mem_walk layout hcs c hc') v hmem

theorem value_mem_walk_of_fieldSettings {f : Node} {es : List LayoutEntry}
    (h : f.fieldSettings = .ok es) {e : LayoutEntry} (he : e ∈ es) {v : Node}
    (hv : e.value = some v) : v ∈ f.walk := by
  rw [fieldSettings] at h
  split at h
  · next layout hlayout =>
    obtain ⟨q, hq, hlayout⟩ := Option.bind_eq_some_iff.mp hlayout
    have hq := mem_of_mem_qualifiers _ (List.mem_of_head? hq)
    obtain ⟨hmem, -⟩ := layout?_mem_walk q hlayout
    exact walk_subset f (walk_subset_of_mem hq hmem) v (value_mem_walk h he hv)
  · cases h
    cases he

end Node
end ShaderParams

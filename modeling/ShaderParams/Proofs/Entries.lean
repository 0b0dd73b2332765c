import ShaderParams.Proofs.Reading

/-!
This module contains the written forms of a layout specification, and that reading its entries gives
back what was written: entries may be wrapped or not, slots between commas may be empty, and
comments may stand anywhere.
-/

namespace ShaderParams

open Node

/-- Whether a node is of one of the types that structure a layout specification. -/
def Node.IsDelimiter (n : Node) : Prop :=
  n.type ∈ ["(", ")", ",", "comment"]

instance (n : Node) : Decidable n.IsDelimiter :=
  inferInstanceAs (Decidable (_ ∈ _))

/-- A setting of a layout specification: a name, and a value unless it has none. -/
structure Setting where
  name : Node
  value : Option Node
  isToken_name : name.isToken
  name_plain : ¬name.IsDelimiter
  value_plain : ∀ v ∈ value, ¬v.IsDelimiter

namespace Setting

/-- What is read from a setting. -/
def entry (s : Setting) : LayoutEntry :=
  ⟨s.name.text, s.value, s.name⟩

/-- Whether nodes are `name` or `name = value`. -/
inductive Nodes (s : Setting) : List Node → Prop where
  | name (h : s.value = none) : Nodes s [s.name]
  | assignment (eq v : Node) (heq : eq.type = "=") (h : s.value = some v) :
    Nodes s [s.name, eq, v]

/--
What is written between two commas: nothing, a setting, or a setting that is wrapped in an inner
node. Comments may stand in between.
-/
inductive Slot : List Setting → List Node → Prop where
  | empty {ns : List Node} (h : withoutComments ns = []) : Slot [] ns
  | flat {s : Setting} {ns : List Node} (h : s.Nodes (withoutComments ns)) : Slot [s] ns
  | wrapped {s : Setting} {ns : List Node} (w : Node) (h : withoutComments ns = [w])
      (hbranch : w.isToken = false) (hplain : ¬w.IsDelimiter)
      (hnodes : s.Nodes (withoutComments w.children)) :
    Slot [s] ns

/-- What is written between the parentheses: slots with commas in between. -/
inductive Slots : List Setting → List Node → Prop where
  | last {ss : List Setting} {ns : List Node} (h : Slot ss ns) : Slots ss ns
  | comma {ss ts : List Setting} {ns ms : List Node} (h : Slot ss ns) (comma : Node)
      (hcomma : comma.type = ",") (hrest : Slots ts ms) :
    Slots (ss ++ ts) (ns ++ comma :: ms)

/--
A layout specification with given settings. The parentheses stand in the node itself, or in the last
inner child, at any depth.
-/
inductive Written (ss : List Setting) : Node → Prop where
  | here (l : Label) (before behind : List Node) {list : List Node} (opening closing : Node)
      (hbefore : ∀ n ∈ before, n.type ≠ "(" ∧ n.type ≠ ")") (hopening : opening.type = "(")
      (hlist : Slots ss list) (hclosing : closing.type = ")") :
    Written ss (.mk l (before ++ opening :: (list ++ closing :: behind)))
  | inner (l : Label) (before behind : List Node) (n : Node)
      (houter : ∀ m ∈ before ++ n :: behind, m.type ≠ "(") (hbranch : n.isToken = false)
      (hbehind : ∀ m ∈ behind, m.isToken) (h : Written ss n) :
    Written ss (.mk l (before ++ n :: behind))

/-!
Finding the parentheses.
-/

theorem lastParenthesized?_eq {before behind : List Node} {n : Node} (hbranch : n.isToken = false)
    (hbehind : ∀ m ∈ behind, m.isToken) :
    lastParenthesized? (before ++ n :: behind) = n.parenthesized? := by
  induction before with
  | nil =>
    have hnone : behind.any (fun m => !m.isToken) = false := by
      simpa using hbehind
    rw [List.nil_append, lastParenthesized?, if_neg (by simp [hnone]), if_neg (by simp [hbranch])]
  | cons c before ih =>
    rw [List.cons_append, lastParenthesized?, if_pos (by simp [hbranch]), ih]

theorem Written.exists_list {ss : List Setting} {n : Node} (h : Written ss n) :
    ∃ before opening list closing behind,
      n.parenthesized? = some (before ++ opening :: (list ++ closing :: behind)) ∧
        (∀ m ∈ before, m.type ≠ "(" ∧ m.type ≠ ")") ∧ opening.type = "(" ∧ Slots ss list ∧
        closing.type = ")" := by
  induction h with
  | @here l before behind list opening closing hbefore hopening hlist hclosing =>
    refine ⟨before, opening, list, closing, behind, ?_, hbefore, hopening, hlist, hclosing⟩
    rw [parenthesized?, if_pos (by simp [hopening])]
  | inner l before behind n houter hbranch hbehind _ ih =>
    have hnone : ¬(before ++ n :: behind).any fun m => m.type == "(" := by
      simpa only [List.any_eq_true, beq_iff_eq, not_exists, not_and] using houter
    rw [parenthesized?, if_neg hnone, lastParenthesized?_eq hbranch hbehind]
    exact ih

/-!
Splitting the list at its commas.
-/

theorem splitList_before {before rest : List Node} {opening : Node}
    (hbefore : ∀ n ∈ before, n.type ≠ "(" ∧ n.type ≠ ")") (hopening : opening.type = "(") :
    ((splitList false [] (before ++ opening :: rest)).filter fun g => !g.isEmpty) =
      (splitList true [] rest).filter fun g => !g.isEmpty := by
  induction before with
  | nil => rw [List.nil_append, splitList, if_pos (by simp [hopening])]
  | cons c before ih =>
    have hc := hbefore c List.mem_cons_self
    have ih := ih fun n hn => hbefore n (List.mem_cons_of_mem c hn)
    rw [List.cons_append, splitList, if_neg (by simp [hc.1]), if_neg (by simp [hc.2])]
    split
    · exact ih
    · exact ih

theorem splitList_slot {ns rest cur : List Node}
    (h : ∀ n ∈ withoutComments ns, ¬n.IsDelimiter) :
    splitList true cur (ns ++ rest) = splitList true (cur ++ withoutComments ns) rest := by
  induction ns generalizing cur with
  | nil => simp [withoutComments]
  | cons c ns ih =>
    rw [List.cons_append, splitList]
    by_cases hc : c.label.isComment
    · have htype : c.type = "comment" := eq_of_beq hc
      have hcons : withoutComments (c :: ns) = withoutComments ns := by
        simp [withoutComments, hc]
      rw [hcons] at h ⊢
      simp [htype, hc, ih h]
    · have hcons : withoutComments (c :: ns) = c :: withoutComments ns := by
        simp [withoutComments, hc]
      rw [hcons] at h ⊢
      have hplain := h c List.mem_cons_self
      simp only [IsDelimiter, List.mem_cons, List.not_mem_nil, or_false, not_or] at hplain
      simp [hplain, hc, ih fun n hn => h n (List.mem_cons_of_mem c hn)]

theorem Nodes.plain {s : Setting} {ns : List Node} (h : s.Nodes ns) : ∀ n ∈ ns, ¬n.IsDelimiter := by
  intro n hn
  cases h with
  | name h =>
    rw [List.mem_singleton.mp hn]
    exact s.name_plain
  | assignment eq v heq h =>
    simp only [List.mem_cons, List.not_mem_nil, or_false] at hn
    rcases hn with rfl | rfl | rfl
    · exact s.name_plain
    · simp [IsDelimiter, heq]
    · exact s.value_plain n h

theorem Slot.plain {ss : List Setting} {ns : List Node} (h : Slot ss ns) :
    ∀ n ∈ withoutComments ns, ¬n.IsDelimiter := by
  cases h with
  | empty h => simp [h]
  | flat h => exact h.plain
  | wrapped w h hbranch hplain hnodes => simpa [h] using hplain

/-!
Reading the entries.
-/

theorem Nodes.entryOf {s : Setting} {ns : List Node} (h : s.Nodes ns) :
    Node.entryOf ns = .ok s.entry := by
  cases h with
  | name h => simp [Node.entryOf, entry, h]
  | assignment eq v heq h => simp [Node.entryOf, entry, heq, h]

theorem Nodes.entryNodes {s : Setting} {ns : List Node} (h : s.Nodes ns) :
    Node.entryNodes ns = ns := by
  cases h with
  | name h => rw [Node.entryNodes, if_pos s.isToken_name]
  | assignment eq v heq h => rfl

theorem Nodes.isEmpty {s : Setting} {ns : List Node} (h : s.Nodes ns) : ns.isEmpty = false := by
  cases h <;> rfl

/-- The group of nodes between two commas is read as the setting that is written there. -/
theorem Slot.read {ss : List Setting} {ns : List Node} (h : Slot ss ns) :
    ([withoutComments ns].filter fun g => !g.isEmpty).mapM layoutEntry = .ok (ss.map entry) := by
  cases h with
  | empty h =>
    rw [h]
    rfl
  | @flat s ns h =>
    rw [List.filter_cons_of_pos (by simp [h.isEmpty]), List.filter_nil, List.mapM_cons,
      List.mapM_nil, layoutEntry_eq, h.entryNodes, h.entryOf]
    rfl
  | @wrapped s ns w h hbranch hplain hnodes =>
    rw [h, List.filter_cons_of_pos (by simp), List.filter_nil, List.mapM_cons, List.mapM_nil,
      layoutEntry_eq, Node.entryNodes, if_neg (by simp [hbranch]), hnodes.entryOf]
    rfl

theorem Slots.read {ss : List Setting} {ns behind : List Node} {closing : Node} (h : Slots ss ns)
    (hclosing : closing.type = ")") :
    ((splitList true [] (ns ++ closing :: behind)).filter fun g => !g.isEmpty).mapM layoutEntry =
      .ok (ss.map entry) := by
  induction h with
  | last h =>
    rw [splitList_slot h.plain, List.nil_append, splitList, if_neg (by simp [hclosing]),
      if_pos (by simp [hclosing])]
    exact h.read
  | @comma ss ts ns ms h comma hcomma hrest ih =>
    rw [List.append_assoc, splitList_slot h.plain, List.nil_append, List.cons_append, splitList,
      if_neg (by simp [hcomma]), if_neg (by simp [hcomma]), if_pos (by simp [hcomma]),
      ← List.singleton_append, List.filter_append, List.mapM_append, h.read, ih, List.map_append]
    rfl

theorem Written.layoutEntries {ss : List Setting} {n : Node} (h : Written ss n) :
    n.layoutEntries = .ok (ss.map entry) := by
  obtain ⟨before, opening, list, closing, behind, hlist, hbefore, hopening, hslots, hclosing⟩ :=
    h.exists_list
  rw [Node.layoutEntries, hlist]
  dsimp only
  rw [splitList_before hbefore hopening]
  exact hslots.read hclosing

end Setting

theorem layoutEntries_bindingLayout (set binding : Int) :
    (bindingLayout set binding).layoutEntries =
      .ok [⟨"set", some (.token "number_literal" (toString set) " "), .token "identifier" "set"⟩,
        ⟨"binding", some (.token "number_literal" (toString binding) " "),
          .token "identifier" "binding" " "⟩] := by
  rfl

/--
Reading a written layout specification gives back its settings, in order, with their names and their
values. The specification of a converted block has the two that it was made of.
-/
theorem layoutEntries_written {ss : List Setting} {layout : Node} (h : Setting.Written ss layout) :
    layout.layoutEntries = .ok (ss.map fun s => ⟨s.name.text, s.value, s.name⟩) ∧
      ∀ set binding : Int, ((bindingLayout set binding).layoutEntries.map
          (List.map fun e => (e.name, e.value.map fun v => (v.type, v.text)))) =
        .ok [("set", some ("number_literal", toString set)),
          ("binding", some ("number_literal", toString binding))] := by
  refine ⟨h.layoutEntries, fun set binding => ?_⟩
  have hvalue (n : Int) : (Node.token "number_literal" (toString n) " ").type = "number_literal" ∧
      (Node.token "number_literal" (toString n) " ").text = toString n :=
    ⟨rfl, text_of_token rfl []⟩
  rw [layoutEntries_bindingLayout]
  simp only [Except.map, List.map, Option.map, hvalue]

/-!
A specification whose list stands one level down: a name alone, nothing, a wrapped setting, and one
whose value has a comma in it. There are comments on both levels and in the wrapper.
-/

def colorSetting : Setting where
  name := .token "identifier" "color"
  value := none
  isToken_name := rfl
  name_plain := by decide
  value_plain := by simp

def maxSetting : Setting where
  name := .token "identifier" "max"
  value := some (.token "number_literal" "2")
  isToken_name := rfl
  name_plain := by decide
  value_plain := by simp [Node.IsDelimiter, Node.type, Node.token, Node.label]

def initSetting : Setting where
  name := .token "identifier" "init"
  value := some (.branch "argument_list" [.symbol "(", .symbol ",", .symbol ")"])
  isToken_name := rfl
  name_plain := by decide
  value_plain := by simp [Node.IsDelimiter, Node.type, Node.branch, Node.label]

def spaciousLayout : Node :=
  let remark := .token "comment" "/* , ) */"
  .branch "layout_specification" [
    .symbol "layout",
    remark,
    .branch "layout_qualifiers" [
      .symbol "(",
      .token "identifier" "color",
      .symbol ",",
      remark,
      .symbol ",",
      remark,
      .branch "qualifier" [
        .token "identifier" "max", remark, .symbol "=", .token "number_literal" "2"],
      .symbol ",",
      .token "identifier" "init",
      .symbol "=",
      remark,
      .branch "argument_list" [.symbol "(", .symbol ",", .symbol ")"],
      .symbol ")"],
    remark]

theorem written_spaciousLayout :
    Setting.Written [colorSetting, maxSetting, initSetting] spaciousLayout := by
  let remark : Node := .token "comment" "/* , ) */"
  let wrapper : Node := .branch "qualifier" [
    .token "identifier" "max", remark, .symbol "=", .token "number_literal" "2"]
  have hcolor : Setting.Slot [colorSetting] [.token "identifier" "color"] := .flat (.name rfl)
  have hnothing : Setting.Slot [] [remark] := .empty rfl
  have hmax : Setting.Slot [maxSetting] [remark, wrapper] :=
    .wrapped wrapper rfl rfl (by decide) (.assignment (.symbol "=") _ rfl rfl)
  have hinit : Setting.Slot [initSetting] [.token "identifier" "init", .symbol "=", remark,
      .branch "argument_list" [.symbol "(", .symbol ",", .symbol ")"]] :=
    .flat (.assignment (.symbol "=") _ rfl rfl)
  have hslots := Setting.Slots.comma hcolor (.symbol ",") rfl <|
    .comma hnothing (.symbol ",") rfl <| .comma hmax (.symbol ",") rfl <| .last hinit
  have hlist : Setting.Written _ (.branch "layout_qualifiers" _) :=
    .here { type := "layout_qualifiers" } [] [] (.symbol "(") (.symbol ")") (by simp) rfl hslots rfl
  exact .inner { type := "layout_specification" } [.symbol "layout", remark] [remark] _ (by decide)
    rfl (by decide) hlist

theorem layoutEntries_written_spaciousLayout :
    Setting.Written [colorSetting, maxSetting, initSetting] spaciousLayout ∧
      spaciousLayout.layoutEntries = .ok [
        ⟨"color", none, .token "identifier" "color"⟩,
        ⟨"max", some (.token "number_literal" "2"), .token "identifier" "max"⟩,
        ⟨"init", some (.branch "argument_list" [.symbol "(", .symbol ",", .symbol ")"]),
          .token "identifier" "init"⟩] :=
  ⟨written_spaciousLayout, (layoutEntries_written written_spaciousLayout).1⟩

end ShaderParams

import ShaderParams.Proofs.Edit

/-!
This module contains the conversion of a params block: the words that it leaves, and the nodes that
stand where the members and the qualifiers of the block stood.
-/

namespace ShaderParams
namespace Node

theorem leading_eq (n : Node) : n.leading = Edit.leading n.words := by
  rw [leading, words]
  cases n.tokens <;> rfl

theorem leading_receive (pending : Option String) {n : Node} (h : n.words ≠ []) :
    (n.receive pending).1.leading = pending.getD (Edit.leading n.words) := by
  have hwords : (n.receive pending).1.words = (receiveWords pending n.words).1 :=
    congrArg Prod.fst (words_receive pending n)
  rw [leading_eq, hwords]
  cases hn : n.words with
  | nil => exact absurd hn h
  | cons w ws => cases pending <;> rfl

theorem words_dropMarked (pending : Option String) (ms : List (Node × Bool))
    (h : ∀ m ∈ ms, m.1.words ≠ []) :
    (listWords (dropMarked pending ms).1, (dropMarked pending ms).2) =
      Edit.run pending (ms.map fun (c, marked) => if marked then .drop c.words else .keep c.words) := by
  induction ms generalizing pending with
  | nil => rfl
  | cons m ms ih =>
    rcases m with ⟨c, marked⟩
    rw [dropMarked, List.map_cons, Edit.run_cons]
    cases marked with
    | true =>
      simp only [↓reduceIte]
      rw [ih _ fun m hm => h m (List.mem_cons_of_mem _ hm),
        leading_receive pending (h (c, true) List.mem_cons_self)]
      rfl
    | false =>
      have hc := words_receive pending c
      simp only [Bool.false_eq_true, ↓reduceIte, listWords_cons, Edit.apply, ← hc,
        ← ih _ fun m hm => h m (List.mem_cons_of_mem _ hm)]

theorem words_stripField (pending : Option String) {n : Node} (h : n.WellFormed) :
    ((n.stripField pending).1.words, (n.stripField pending).2) = Edit.run pending n.fieldEdits := by
  cases n with
  | mk l cs =>
    rw [stripField, fieldEdits]
    by_cases hl : l.isToken
    · cases h.children_eq_nil hl
      simp only [markQualifiers, dropMarked, if_pos hl]
      rw [words_mk_receive pending [] hl, Edit.run_singleton, Edit.apply]
    · rw [Label.receive_of_not_isToken pending l hl]
      simp only [words_mk, if_neg hl]
      apply words_dropMarked
      intro m hm
      have hmem : m.1 ∈ cs := by
        rw [← map_fst_markQualifiers label cs]
        apply List.mem_map_of_mem hm
      exact (h.of_mem hmem).words_ne_nil

/-- One member of a block without the qualifiers of fields. -/
def stripMember (pending : Option String) (c : Node) : Node × Option String :=
  if c.isField then c.stripField pending else c.receive pending

theorem stripMembers_cons (pending : Option String) (c : Node) (cs : List Node) :
    stripMembers pending (c :: cs) =
      ((c.stripMember pending).1 :: (stripMembers (c.stripMember pending).2 cs).1,
        (stripMembers (c.stripMember pending).2 cs).2) := rfl

theorem words_stripMember (pending : Option String) {c : Node} (h : c.WellFormed) :
    ((c.stripMember pending).1.words, (c.stripMember pending).2) =
      Edit.run pending (if c.isField then c.fieldEdits else [.keep c.words]) := by
  unfold stripMember
  split
  · apply words_stripField pending h
  · rw [words_receive, Edit.run_singleton, Edit.apply]

theorem words_stripMembers (pending : Option String) {cs : List Node}
    (h : ∀ c ∈ cs, c.WellFormed) :
    (listWords (stripMembers pending cs).1, (stripMembers pending cs).2) =
      Edit.run pending (memberEdits cs) := by
  induction cs generalizing pending with
  | nil => rfl
  | cons c cs ih =>
    rw [stripMembers_cons, memberEdits, List.flatMap_cons, Edit.run_append, ← memberEdits,
      ← words_stripMember pending (h c List.mem_cons_self),
      ← ih _ fun d hd => h d (List.mem_cons_of_mem _ hd), listWords_cons]

theorem words_stripFieldList (pending : Option String) {n : Node} (h : n.WellFormed) :
    ((n.stripFieldList pending).1.words, (n.stripFieldList pending).2) =
      Edit.run pending n.fieldListEdits := by
  cases n with
  | mk l cs =>
    rw [stripFieldList, fieldListEdits]
    by_cases hl : l.isToken
    · cases h.children_eq_nil hl
      simp only [stripMembers, if_pos hl]
      rw [words_mk_receive pending [] hl, Edit.run_singleton, Edit.apply]
    · rw [Label.receive_of_not_isToken pending l hl]
      simp only [words_mk, if_neg hl]
      apply words_stripMembers pending fun c hc => h.of_mem hc

open stripFirstFieldList (receiveAll)

theorem words_receiveAll (pending : Option String) (cs : List Node) :
    (listWords (receiveAll pending cs).1, (receiveAll pending cs).2) =
      receiveWords pending (listWords cs) := by
  induction cs generalizing pending with
  | nil => simp [receiveAll]
  | cons c cs ih =>
    rw [receiveAll_cons, listWords_cons, listWords_cons, receiveWords_append,
      ← words_receive pending c, ← ih]

theorem exists_fieldList {n : Node} (h : n.isBlock) :
    ∃ front list behind, n.children = front ++ list :: behind ∧
      (∀ c ∈ front, c.label.isFieldList = false) ∧ list.label.isFieldList := by
  rw [isBlock, Bool.and_eq_true, List.any_eq_true] at h
  obtain ⟨⟨c, hc, hlist⟩, -⟩ := h
  obtain ⟨list, hfind⟩ := Option.isSome_iff_exists.mp
    (List.find?_isSome (p := fun c => c.label.isFieldList).mpr ⟨c, hc, hlist⟩)
  obtain ⟨hl, front, behind, hsplit, hfront⟩ := List.find?_eq_some_iff_append.mp hfind
  exact ⟨front, list, behind, hsplit, fun c hc => by simpa using hfront c hc, hl⟩

/-- The list of members of a block. -/
def memberList? (block : Node) : Option Node :=
  block.children.find? fun c => c.label.isFieldList

theorem fields_eq {n list : Node} (h : n.memberList? = some list) :
    n.fields = list.children.filter isField := by
  rw [memberList?] at h
  rw [fields, h]

section

variable {front behind : List Node} {list : Node}

theorem memberList?_append (l : Label) (hfront : ∀ c ∈ front, c.label.isFieldList = false)
    (hlist : list.label.isFieldList) :
    (mk l (front ++ list :: behind)).memberList? = some list := by
  rw [memberList?, children, List.find?_append,
    List.find?_eq_none.mpr fun c hc => by simp [hfront c hc], Option.none_or, List.find?_cons,
    hlist]

theorem stripFirstFieldList_append (hfront : ∀ c ∈ front, c.label.isFieldList = false)
    (hlist : list.label.isFieldList) :
    stripFirstFieldList none (front ++ list :: behind) =
      (front ++ (list.stripFieldList none).1 :: (receiveAll (list.stripFieldList none).2 behind).1,
        (receiveAll (list.stripFieldList none).2 behind).2) := by
  induction front with
  | nil => simp [stripFirstFieldList, hlist]
  | cons c front ih =>
    rw [List.cons_append, stripFirstFieldList, if_neg (by simp [hfront c List.mem_cons_self])]
    simp only [receive_none, ih fun d hd => hfront d (List.mem_cons_of_mem _ hd),
      List.cons_append]

theorem blockEdits_append (new : Node) (l : Label)
    (hfront : ∀ c ∈ front, c.label.isFieldList = false) (hlist : list.label.isFieldList) :
    blockEdits new (mk l (front ++ list :: behind)) =
      qualifierEdits new front ++ (list.fieldListEdits ++ [.keep (listWords behind)]) := by
  have hp : ∀ c ∈ front, (!c.label.isFieldList) = true := fun c hc => by simp [hfront c hc]
  rw [blockEdits]
  simp only [children, List.takeWhile_append_of_pos hp, List.dropWhile_append_of_pos hp]
  simp [hlist]

end

section

variable (new : Node)

theorem replaceQualifierLayout_cons (c : Node) (cs : List Node) :
    replaceQualifierLayout new (c :: cs) =
      if c.label.isComment then
        c :: replaceQualifierLayout new cs
      else if c.label.endsQualifiers then
        c :: cs
      else if c.label.isQualifier then
        replaceLayout new c :: cs
      else
        c :: replaceQualifierLayout new cs := by
  have hfalse : ∀ ds : List Node, replaceQualifierLayout.go new (ds.map (·, false)) = ds := by
    intro ds
    induction ds with
    | nil => rfl
    | cons d ds ih => rw [List.map_cons, replaceQualifierLayout.go, ih]
  rw [replaceQualifierLayout, markQualifiers]
  split
  · rfl
  · split
    · rw [replaceQualifierLayout.go, hfalse]
    · cases c.label.isQualifier with
      | true => rw [replaceQualifierLayout.go, map_fst_markQualifiers, if_pos rfl]
      | false => rfl

theorem replaceQualifierLayout_append {c : Node} (cs ds : List Node)
    (hcomment : c.label.isComment = false) (hends : c.label.endsQualifiers) :
    replaceQualifierLayout new (cs ++ c :: ds) = replaceQualifierLayout new cs ++ c :: ds := by
  induction cs with
  | nil =>
    rw [List.nil_append, replaceQualifierLayout_cons, if_neg (by simp [hcomment]), if_pos hends]
    rfl
  | cons d cs ih =>
    rw [List.cons_append, replaceQualifierLayout_cons, replaceQualifierLayout_cons, ih]
    split
    · rfl
    · split
      · rfl
      · split <;> rfl

theorem forall_mem_replaceQualifierLayout {P : Node → Prop} {cs : List Node} (h : ∀ c ∈ cs, P c)
    (hnew : ∀ c ∈ cs, P (replaceLayout new c)) : ∀ c ∈ replaceQualifierLayout new cs, P c := by
  induction cs with
  | nil => exact h
  | cons c cs ih =>
    obtain ⟨hc, hcs⟩ := List.forall_mem_cons.mp h
    obtain ⟨hc', hcs'⟩ := List.forall_mem_cons.mp hnew
    rw [replaceQualifierLayout_cons]
    split
    · exact List.forall_mem_cons.mpr ⟨hc, ih hcs hcs'⟩
    · split
      · exact h
      · split
        · exact List.forall_mem_cons.mpr ⟨hc', hcs⟩
        · exact List.forall_mem_cons.mpr ⟨hc, ih hcs hcs'⟩

theorem setLeading_eq_receive (leading : String) (n : Node) :
    n.setLeading leading = (n.receive (some leading)).1 := by
  rw [setLeading, receive]
  cases n.setLeading? leading <;> rfl

theorem words_defaultField (field : Option String) (n : Node) :
    (n.defaultField field).words = n.words := by
  cases n with
  | mk l cs =>
    rw [defaultField, words_mk, words_mk]
    rfl

theorem label_inPlaceOf (old : Node) :
    (inPlaceOf old new).label.type = new.label.type ∧
      (inPlaceOf old new).label.text = new.label.text := by
  have hlabel := (Alike.receive (some old.leading) new).bare_label
  rw [inPlaceOf, setLeading_eq_receive]
  generalize (new.receive (some old.leading)).1 = m at hlabel ⊢
  cases m with
  | mk l cs =>
    rw [defaultField]
    exact ⟨(congrArg Label.type hlabel).symm, (congrArg Label.text hlabel).symm⟩

theorem words_inPlaceOf (old : Node) (hnew : new.words ≠ []) :
    ((inPlaceOf old new).words, none) = Edit.apply none (.swap old.words new.words) := by
  rw [inPlaceOf, words_defaultField, setLeading_eq_receive, leading_eq, Edit.apply,
    ← words_receive, Option.getD_none, receive_snd hnew]

mutual

theorem words_replaceLayout (hnew : new.words ≠ []) :
    (q : Node) → ((replaceLayout new q).words, none) = Edit.run none (layoutEdits new q)
  | mk l cs => by
    rw [replaceLayout, layoutEdits]
    by_cases hlayout : l.isLayout
    · rw [if_pos hlayout, if_pos hlayout, Edit.run_singleton, words_inPlaceOf new _ hnew]
    · rw [if_neg hlayout, if_neg hlayout]
      by_cases hwrapper : l.isWrapper
      · by_cases hl : l.isToken
        · simp [hwrapper, hl, words_mk, Edit.apply]
        · simp only [hwrapper, hl, words_mk, Bool.false_eq_true, Bool.not_false, Bool.and_self,
            ↓reduceIte]
          apply words_replaceFirstLayout hnew cs
      · simp [hwrapper, Edit.apply]

theorem words_replaceFirstLayout (hnew : new.words ≠ []) :
    (cs : List Node) →
      (listWords (replaceFirstLayout new cs), none) = Edit.run none (firstLayoutEdits new cs)
  | [] => rfl
  | c :: cs => by
    rw [replaceFirstLayout, firstLayoutEdits]
    split
    · rw [Edit.run_cons, Edit.apply, receiveWords_none, ← words_replaceFirstLayout hnew cs,
        listWords_cons]
    · rw [Edit.run_append, ← words_replaceLayout hnew c, Edit.run_singleton, Edit.apply,
        receiveWords_none, listWords_cons]

end

theorem words_replaceQualifierLayout (hnew : new.words ≠ []) (cs : List Node) :
    (listWords (replaceQualifierLayout new cs), none) =
      Edit.run none (qualifierEdits new cs) := by
  induction cs with
  | nil => rfl
  | cons c cs ih =>
    have hkeep : (listWords (c :: replaceQualifierLayout new cs), none) =
        Edit.run none (.keep c.words :: qualifierEdits new cs) := by
      rw [listWords_cons, Edit.run_cons, Edit.apply, receiveWords_none, ← ih]
    rw [replaceQualifierLayout_cons, qualifierEdits]
    split
    · exact hkeep
    · split
      · rw [Edit.run_singleton, Edit.apply, receiveWords_none]
      · split
        · rw [Edit.run_append, ← words_replaceLayout new hnew c, Edit.run_singleton, Edit.apply,
            receiveWords_none, listWords_cons]
        · exact hkeep

end

theorem words_layout_ne_nil (o : Options) : o.layout.words ≠ [] := by
  simp [Options.layout, bindingLayout, branch, symbol, token, words_mk, Label.isToken]

theorem ofDouble_words_ne_nil (x : Double) : (ofDouble x).words ≠ [] := by
  rw [ofDouble]
  split <;> simp [branch, symbol, token, words_mk, Label.isToken]

theorem endsQualifiers_of_isFieldList {l : Label} (h : l.isFieldList) :
    l.endsQualifiers ∧ l.isComment = false := by
  rw [Label.isFieldList, beq_iff_eq] at h
  simp [Label.endsQualifiers, Label.isFieldList, Label.isComment, h]

theorem isFieldList_stripFieldList (pending : Option String) (n : Node) :
    (n.stripFieldList pending).1.label.isFieldList = n.label.isFieldList := by
  cases n with
  | mk l cs => exact Label.read_receive Label.isFieldList (fun _ => rfl) pending l

theorem convertBlock_append (o : Options) (place : QualifierPlace) (l : Label)
    {front behind : List Node} {list : Node}
    (hfront : ∀ c ∈ front, c.label.isFieldList = false) (hlist : list.label.isFieldList) :
    (mk l (front ++ list :: behind)).convertBlock o place none =
      (mk l ((if place = .own then replaceQualifierLayout o.layout front else front) ++
          (list.stripFieldList none).1 :: (receiveAll (list.stripFieldList none).2 behind).1),
        (receiveAll (list.stripFieldList none).2 behind).2) := by
  have hstripped := isFieldList_stripFieldList none list
  rw [hlist] at hstripped
  obtain ⟨hends, hcomment⟩ := endsQualifiers_of_isFieldList hstripped
  rw [convertBlock]
  simp only [Label.receive, stripFirstFieldList_append hfront hlist]
  cases place with
  | own =>
    dsimp only
    rw [replaceQualifierLayout_append o.layout front _ hcomment hends, if_pos rfl]
  | preceding => rfl

theorem words_convertBlock (o : Options) {n : Node} (h : n.WellFormed) (hblock : n.isBlock) :
    ((n.convertBlock o .own none).1.words, (n.convertBlock o .own none).2) =
      Edit.run none (blockEdits o.layout n) := by
  obtain ⟨front, list, behind, hsplit, hfront, hlist⟩ := exists_fieldList hblock
  cases n with
  | mk l cs =>
    rw [children] at hsplit
    subst hsplit
    have hl := h.not_isToken (by simp)
    have hwords := words_stripFieldList none (h.of_mem (c := list) (by simp [children]))
    rw [convertBlock_append o .own l hfront hlist, if_pos rfl, words_mk, if_neg hl,
      blockEdits_append o.layout l hfront hlist, Edit.run_append,
      ← words_replaceQualifierLayout o.layout (words_layout_ne_nil o) front, Edit.run_append,
      ← hwords, Edit.run_singleton, Edit.apply, ← words_receiveAll]
    simp

end Node
end ShaderParams

import ShaderParams.Grammar.Derivation
import ShaderParams.Proofs.Lexing

/-!
This module contains the trees of derivations: whichever readings are chosen, the tokens of a
derivation follow each other in the source, between the places where it starts and stops.
-/

namespace ShaderParams.Grammar

open SpanTree (Between)

variable {text : String}

/-!
The trees of single steps.
-/

theorem extents_setField (field : String) (t : SpanTree) :
    (setField field t).leaves.map (fun s => (s.start, s.stop)) =
      t.leaves.map fun s => (s.start, s.stop) := by
  cases t with
  | mk s cs => cases cs <;> rfl

theorem extents_assignField (field : Option String) (ts : List SpanTree) :
    (SpanTree.listLeaves (assignField field ts)).map (fun s => (s.start, s.stop)) =
      (SpanTree.listLeaves ts).map fun s => (s.start, s.stop) := by
  cases field with
  | none => rfl
  | some field =>
    induction ts with
    | nil => rfl
    | cons t ts ih =>
      rw [assignField, List.map_cons, SpanTree.listLeaves, SpanTree.listLeaves, List.map_append,
        List.map_append]
      congr 1
      split
      · rfl
      · exact extents_setField field t

section

variable {start stop : Nat} {ts : List SpanTree}

theorem between_assignField (field : Option String) (h : Between text start stop ts) :
    Between text start stop (assignField field ts) :=
  LaidTo.congr h (extents_assignField field ts)

theorem between_makeNode (type : String) {place : Place} (hplace : place.Of text)
    (h : Between text start place.offset ts) :
    Between text start place.offset (makeNode type place ts) := by
  rw [makeNode]
  cases hchildren : ts.dropWhile isComment with
  | nil =>
    have hall : ts.takeWhile isComment = ts := by
      rw [← List.append_nil (ts.takeWhile isComment), ← hchildren,
        List.takeWhile_append_dropWhile]
    rw [hall]
    exact h.append (.token hplace hplace (Nat.le_refl _) rfl rfl)
  | cons c cs =>
    rw [← List.takeWhile_append_dropWhile (p := isComment) (l := ts), hchildren] at h
    rw [Between, SpanTree.listLeaves_append] at h ⊢
    rwa [SpanTree.listLeaves, SpanTree.leaves, SpanTree.listLeaves, List.append_nil]

theorem between_leafTrees (t : Token) (type : Option String) {l : Lexed}
    (h : l.ReadFrom text start) : Between text start l.stop.offset (leafTrees t type l) := by
  rw [leafTrees]
  split
  · exact h.comments.mono (Nat.le_refl _) h.le
  · exact h.comments.append (.token h.start h.stop h.le rfl rfl)

end

/-!
Derivations in their places.
-/

/-- Whether derivations follow each other from one place to another. -/
def Chain (ds : Array Derivation) (stop : Place) : Place → List Nat → Prop
  | start, [] => start = stop
  | start, d :: parts => ∃ x, ds[d]? = some x ∧ x.start = start ∧ Chain ds stop x.stop parts

theorem Chain.append {ds : Array Derivation} {start mid stop : Place} {ps qs : List Nat}
    (h : Chain ds mid start ps) (h' : Chain ds stop mid qs) : Chain ds stop start (ps ++ qs) := by
  induction ps generalizing start with
  | nil =>
    obtain rfl : start = mid := h
    exact h'
  | cons d ps ih =>
    obtain ⟨x, hx, hstart, hrest⟩ := h
    exact ⟨x, hx, hstart, ih hrest⟩

/-- Whether a derivation stands in a text, with readings whose parts follow each other. -/
def Derivation.Stands (text : String) (ds : Array Derivation) : Derivation → Prop
  | leaf start lexed => start.Of text ∧ lexed.ReadFrom text start.offset
  | inner start stop readings =>
    start.Of text ∧ stop.Of text ∧ start.offset ≤ stop.offset ∧
      ∀ r ∈ readings, Chain ds stop start r.2

/-- Whether all derivations stand in a text. -/
def Placed (text : String) (ds : Array Derivation) : Prop :=
  ∀ (d : Nat) (x : Derivation), ds[d]? = some x → x.Stands text ds

namespace Derivation.Stands

variable {ds : Array Derivation} {x : Derivation}

theorem le (h : x.Stands text ds) : x.start.offset ≤ x.stop.offset := by
  cases x with
  | leaf => exact Nat.le_trans h.2.comments.le h.2.le
  | inner => exact h.2.2.1

end Derivation.Stands

theorem Chain.le {ds : Array Derivation} {start stop : Place} {parts : List Nat}
    (hds : Placed text ds) (h : Chain ds stop start parts) : start.offset ≤ stop.offset := by
  induction parts generalizing start with
  | nil =>
    obtain rfl : start = stop := h
    exact Nat.le_refl _
  | cons d parts ih =>
    obtain ⟨x, hx, rfl, hrest⟩ := h
    exact Nat.le_trans (hds d x hx).le (ih hrest)

/-!
The readings that are chosen.
-/

/-- Whether the readings that were chosen before fit their derivations. -/
def Fitting (text : String) (ds : Array Derivation) (chosen : Table.Chosen) : Prop :=
  ∀ (d : Nat) (r : Reading) (x : Derivation), chosen[d]? = some (some r) → ds[d]? = some x →
    Between text x.start.offset x.stop.offset r.trees

theorem Fitting.set {ds : Array Derivation} {chosen : Table.Chosen} {d : Nat} {r : Reading}
    (h : Fitting text ds chosen)
    (hr : ∀ x, ds[d]? = some x → Between text x.start.offset x.stop.offset r.trees) :
    Fitting text ds (chosen.setIfInBounds d (some r)) := by
  intro d' r' x hchosen hx
  rw [Array.getElem?_setIfInBounds] at hchosen
  split at hchosen
  · subst d'
    split at hchosen
    · obtain rfl : r = r' := by simpa using hchosen
      exact hr x hx
    · cases hchosen
  · exact h d' r' x hchosen hx

namespace Table

variable (t : Table)

/-- What is preferred is one of the two. -/
theorem prefer_of_both {P : Candidate → Prop} {a b : Candidate} (ha : P a) (hb : P b) :
    P (t.prefer a b) := by
  rw [prefer]
  grind

theorem between_typed {start stop : Place} (hstop : stop.Of text) (type : Option String)
    {trees : List SpanTree} (h : Between text start.offset stop.offset trees) :
    Between text start.offset stop.offset
      (match type with
      | some type => makeNode type stop trees
      | none => trees) := by
  cases type with
  | none => exact h
  | some type => exact between_makeNode type hstop h

-- By induction on the nesting, as the choice is made. What was chosen before stays as it is.
mutual

theorem choose_between {ds : Array Derivation} (hds : Placed text ds) (depth id : Nat)
    {chosen : Chosen} (hchosen : Fitting text ds chosen) :
    Fitting text ds (t.choose ds depth id chosen).2 ∧
      ∀ x, ds[id]? = some x →
        Between text x.start.offset x.stop.offset (t.choose ds depth id chosen).1.trees := by
  have hempty {x : Derivation} (hx : ds[id]? = some x) :
      Between text x.start.offset x.stop.offset [] := .nil (hds id x hx).le
  cases depth with
  | zero =>
    rw [choose]
    exact ⟨hchosen, fun x hx => hempty hx⟩
  | succ depth =>
    rw [choose]
    split
    · next r hr => exact ⟨hchosen, fun x hx => hchosen id r x (Option.join_eq_some_iff.mp hr) hx⟩
    · split
      · next start stop readings hid =>
        obtain ⟨hstart, hstop, hle, hreadings⟩ := hds id _ hid
        have hamong := chooseAmong_between hds depth hstop start.offset readings
          (fun r hr => ⟨start, Nat.le_refl _, hreadings r hr⟩) hchosen
        generalize t.chooseAmong ds depth stop readings chosen = result at hamong
        obtain ⟨best, chosen'⟩ := result
        have hbest : Between text start.offset stop.offset
            ((best.map Candidate.toReading).getD {}).trees := by
          cases best with
          | none => exact .nil hle
          | some c => exact hamong.2 c rfl
        have hx : ∀ x, ds[id]? = some x → Between text x.start.offset x.stop.offset
            ((best.map Candidate.toReading).getD {}).trees := by
          intro x hx
          rw [hid] at hx
          obtain rfl := Option.some.inj hx
          exact hbest
        exact ⟨hamong.1.set hx, hx⟩
      · exact ⟨hchosen, fun x hx => hempty hx⟩
termination_by (depth, 0, 0)

theorem chooseAmong_between {ds : Array Derivation} (hds : Placed text ds) (depth : Nat)
    {stop : Place} (hstop : stop.Of text) (offset : Nat) (readings : List (Nat × List Nat))
    (hreadings : ∀ r ∈ readings, ∃ start : Place, offset ≤ start.offset ∧ Chain ds stop start r.2)
    {chosen : Chosen} (hchosen : Fitting text ds chosen) :
    Fitting text ds (t.chooseAmong ds depth stop readings chosen).2 ∧
      ∀ c ∈ (t.chooseAmong ds depth stop readings chosen).1,
        Between text offset stop.offset c.trees := by
  cases readings with
  | nil =>
    rw [chooseAmong]
    exact ⟨hchosen, by simp⟩
  | cons r rest =>
    obtain ⟨production, parts⟩ := r
    obtain ⟨⟨start, hoffset, hparts⟩, hrest⟩ := List.forall_mem_cons.mp hreadings
    rw [chooseAmong]
    split
    · exact chooseAmong_between hds depth hstop offset rest hrest hchosen
    · next p hp =>
      have hfirst := chooseParts_between hds depth p.steps parts hparts hchosen
      generalize t.chooseParts ds depth p.steps parts chosen = result at hfirst
      obtain ⟨r, chosen⟩ := result
      have hothers := chooseAmong_between hds depth hstop offset rest hrest hfirst.1
      simp only
      generalize t.chooseAmong ds depth stop rest chosen = result at hothers
      obtain ⟨other, chosen⟩ := result
      have htrees := between_typed hstop (t.types[p.head]?).join hfirst.2
      refine ⟨hothers.1, fun c hc => ?_⟩
      obtain rfl := Option.some.inj hc
      cases other with
      | none => exact htrees.mono hoffset (Nat.le_refl _)
      | some other =>
        exact t.prefer_of_both (P := fun c => Between text offset stop.offset c.trees)
          (htrees.mono hoffset (Nat.le_refl _)) (hothers.2 other rfl)
termination_by (depth, 1, readings.length)

theorem chooseParts_between {ds : Array Derivation} (hds : Placed text ds) (depth : Nat)
    (steps : List Step) {start stop : Place} (parts : List Nat) (hparts : Chain ds stop start parts)
    {chosen : Chosen} (hchosen : Fitting text ds chosen) :
    Fitting text ds (t.chooseParts ds depth steps parts chosen).2 ∧
      Between text start.offset stop.offset
        (t.chooseParts ds depth steps parts chosen).1.trees := by
  cases steps with
  | nil =>
    rw [chooseParts]
    · exact ⟨hchosen, .nil (hparts.le hds)⟩
    · simp
  | cons s steps =>
    cases parts with
    | nil =>
      rw [chooseParts]
      · exact ⟨hchosen, .nil (hparts.le hds)⟩
      · simp
    | cons d parts =>
      obtain ⟨x, hx, rfl, hrest⟩ := hparts
      have hfirst := chooseStep_between hds depth s hx hchosen
      rw [chooseParts]
      generalize t.chooseStep ds depth s d chosen = result at hfirst
      obtain ⟨r, chosen⟩ := result
      have hothers := chooseParts_between hds depth steps parts hrest hfirst.1
      simp only
      generalize t.chooseParts ds depth steps parts chosen = result at hothers
      obtain ⟨rest, chosen⟩ := result
      exact ⟨hothers.1, (between_assignField s.field hfirst.2).append hothers.2⟩
termination_by (depth, 0, steps.length + 2)

theorem chooseStep_between {ds : Array Derivation} (hds : Placed text ds) (depth : Nat) (s : Step)
    {d : Nat} {x : Derivation} (hx : ds[d]? = some x) {chosen : Chosen}
    (hchosen : Fitting text ds chosen) :
    Fitting text ds (t.chooseStep ds depth s d chosen).2 ∧
      Between text x.start.offset x.stop.offset
        (t.chooseStep ds depth s d chosen).1.trees := by
  rw [chooseStep]
  split
  · next token start l _ hleaf =>
    rw [hx] at hleaf
    obtain rfl := Option.some.inj hleaf
    exact ⟨hchosen, between_leafTrees token s.type (hds d _ hx).2⟩
  · have hchoice := choose_between hds depth d hchosen
    exact ⟨hchoice.1, hchoice.2 x hx⟩
termination_by (depth, 0, 1)

end

end Table

end ShaderParams.Grammar

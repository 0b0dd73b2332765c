import ShaderParams.Grammar.Stack
import ShaderParams.Proofs.Choice

/-!
This module contains the stacks of the parser: the derivations on the links from a stack node down
to another one follow each other in the source, whatever was put on the stacks.
-/

namespace ShaderParams.Grammar

variable {text : String}

/-- Derivations stay in their places when others are added and when they get more readings. -/
def Settled (ds ds' : Array Derivation) : Prop :=
  ∀ (d : Nat) (x : Derivation), ds[d]? = some x →
    ∃ x', ds'[d]? = some x' ∧ x'.start = x.start ∧ x'.stop = x.stop

theorem Settled.refl (ds : Array Derivation) : Settled ds ds :=
  fun _ x hx => ⟨x, hx, rfl, rfl⟩

theorem Settled.trans {ds ds' ds'' : Array Derivation} (h : Settled ds ds')
    (h' : Settled ds' ds'') : Settled ds ds'' := by
  intro d x hx
  obtain ⟨x', hx', hstart, hstop⟩ := h d x hx
  obtain ⟨x'', hx'', hstart', hstop'⟩ := h' d x' hx'
  exact ⟨x'', hx'', hstart'.trans hstart, hstop'.trans hstop⟩

theorem Chain.settled {ds ds' : Array Derivation} (hds : Settled ds ds') {start stop : Place}
    {parts : List Nat} (h : Chain ds stop start parts) : Chain ds' stop start parts := by
  induction parts generalizing start with
  | nil => exact h
  | cons d parts ih =>
    obtain ⟨x, hx, hstart, hrest⟩ := h
    obtain ⟨x', hx', hstart', hstop'⟩ := hds d x hx
    refine ⟨x', hx', hstart'.trans hstart, ?_⟩
    rw [hstop']
    exact ih hrest

theorem Derivation.Stands.settled {ds ds' : Array Derivation} (hds : Settled ds ds')
    {x : Derivation} (h : x.Stands text ds) : x.Stands text ds' := by
  cases x with
  | leaf => exact h
  | inner start stop readings =>
    exact ⟨h.1, h.2.1, h.2.2.1, fun r hr => (h.2.2.2 r hr).settled hds⟩

theorem getElem?_push_of_eq_some {α : Type} {xs : Array α} {i : Nat} {a : α} (h : xs[i]? = some a)
    (b : α) : (xs.push b)[i]? = some a := by
  obtain ⟨hlt, rfl⟩ := Array.getElem?_eq_some_iff.mp h
  exact Array.getElem?_push_lt hlt

theorem getElem?_modify_of_eq_some {α : Type} {xs : Array α} {i : Nat} {a : α}
    (h : xs[i]? = some a) (f : α → α) (j : Nat) :
    (xs.modify i f)[j]? = if i = j then some (f a) else xs[j]? := by
  rw [Array.getElem?_modify]
  split
  · subst j
    rw [h]
    rfl
  · rfl

theorem settled_push (ds : Array Derivation) (x : Derivation) : Settled ds (ds.push x) :=
  fun _ x' hx' => ⟨x', getElem?_push_of_eq_some hx' x, rfl, rfl⟩

theorem Placed.push {ds : Array Derivation} {x : Derivation} (h : Placed text ds)
    (hx : x.Stands text ds) : Placed text (ds.push x) := by
  intro d y hy
  refine Derivation.Stands.settled (settled_push ds x) ?_
  rw [Array.getElem?_push] at hy
  split at hy
  · obtain rfl := Option.some.inj hy
    exact hx
  · exact h d y hy

section

variable (x : Derivation) (reading : Nat × List Nat)

theorem Derivation.start_addReading : (x.addReading reading).start = x.start := by
  cases x <;> rfl

theorem Derivation.stop_addReading : (x.addReading reading).stop = x.stop := by
  cases x <;> rfl

end

theorem Derivation.Stands.addReading {ds : Array Derivation} {x : Derivation}
    (h : x.Stands text ds) {reading : Nat × List Nat} (hparts : Chain ds x.stop x.start reading.2) :
    (x.addReading reading).Stands text ds := by
  cases x with
  | leaf => exact h
  | inner start stop readings =>
    refine ⟨h.1, h.2.1, h.2.2.1, fun r hr => ?_⟩
    rcases List.mem_append.mp hr with hr | hr
    · exact h.2.2.2 r hr
    · obtain rfl := List.mem_singleton.mp hr
      exact hparts

namespace StackGraph

variable {g g' g'' : StackGraph} {place : Place}

/-- Whether there is a stack node at a place. -/
def At (g : StackGraph) (place : Place) (n : Nat) : Prop :=
  ∃ m, g.nodes[n]? = some m ∧ m.place = place

/-- Whether the derivation of a link goes from the node below it to a place. -/
def Fits (g : StackGraph) (place : Place) (l : Link) : Prop :=
  ∃ x start, g.derivations[l.derivation]? = some x ∧ g.At start l.target ∧ x.start = start ∧
    x.stop = place

/-- What is kept to when something is put on a stack. -/
structure Sound (text : String) (g : StackGraph) : Prop where
  derivations : Placed text g.derivations
  places : ∀ (n : Nat) (m : StackNode), g.nodes[n]? = some m → m.place.Of text
  links : ∀ (n : Nat) (m : StackNode), g.nodes[n]? = some m → ∀ l ∈ m.links, g.Fits m.place l

/-- What stays of a graph when something is put on a stack. -/
structure Grows (g g' : StackGraph) : Prop where
  derivations : Settled g.derivations g'.derivations
  nodes : ∀ place n, g.At place n → g'.At place n

namespace Grows

theorem refl (g : StackGraph) : g.Grows g :=
  ⟨.refl _, fun _ _ h => h⟩

theorem trans (h : g.Grows g') (h' : g'.Grows g'') : g.Grows g'' :=
  ⟨h.derivations.trans h'.derivations, fun place n hn => h'.nodes place n (h.nodes place n hn)⟩

theorem fits (h : g.Grows g') {l : Link} (hl : g.Fits place l) : g'.Fits place l := by
  obtain ⟨x, start, hx, hn, hstart, hstop⟩ := hl
  obtain ⟨x', hx', hstart', hstop'⟩ := h.derivations _ x hx
  exact ⟨x', start, hx', h.nodes start _ hn, hstart'.trans hstart, hstop'.trans hstop⟩

end Grows

theorem Sound.of (h : g.Sound text) {n : Nat} (hn : g.At place n) : place.Of text := by
  obtain ⟨m, hm, rfl⟩ := hn
  exact h.places n m hm

theorem place_eq {n : Nat} (h : g.At place n) : g.place n = place := by
  obtain ⟨m, hm, rfl⟩ := h
  rw [StackGraph.place, hm]
  rfl

theorem Sound.fits_links (h : g.Sound text) {n : Nat} (hn : g.At place n) :
    ∀ l ∈ g.links n, g.Fits place l := by
  obtain ⟨m, hm, rfl⟩ := hn
  rw [StackGraph.links, hm]
  exact h.links n m hm

/-- By induction on the way down. -/
theorem Sound.paths (h : g.Sound text) (k : Nat) {n : Nat} (hn : g.At place n) :
    ∀ path ∈ g.paths k n, ∃ start, g.At start path.2 ∧ Chain g.derivations place start path.1 := by
  induction k generalizing n place with
  | zero =>
    intro path hpath
    obtain rfl := List.mem_singleton.mp hpath
    exact ⟨place, hn, rfl⟩
  | succ k ih =>
    intro path hpath
    obtain ⟨l, hl, hpath⟩ := List.mem_flatMap.mp hpath
    obtain ⟨⟨ds, m⟩, hbelow, rfl⟩ := List.mem_map.mp hpath
    obtain ⟨x, mid, hx, htarget, hstart, hstop⟩ := h.fits_links hn l hl
    obtain ⟨start, hm, hchain⟩ := ih htarget _ hbelow
    exact ⟨start, hm, hchain.append ⟨x, hx, hstart, hstop⟩⟩

/-!
Adding to a graph.
-/

theorem addDerivation_spec (h : g.Sound text) {x : Derivation} (hx : x.Stands text g.derivations) :
    (g.addDerivation x).2.Sound text ∧ g.Grows (g.addDerivation x).2 ∧
      (g.addDerivation x).2.derivations[(g.addDerivation x).1]? = some x := by
  have hgrows : g.Grows (g.addDerivation x).2 := ⟨settled_push _ x, fun _ _ hn => hn⟩
  refine ⟨⟨h.derivations.push hx, h.places, fun n m hm l hl => hgrows.fits (h.links n m hm l hl)⟩,
    hgrows, ?_⟩
  exact Array.getElem?_push_size

theorem addReading_spec (h : g.Sound text) {d : Nat} {x : Derivation}
    (hx : g.derivations[d]? = some x) (reading : Nat × List Nat)
    (hparts : Chain g.derivations x.stop x.start reading.2) :
    (g.addReading d reading).Sound text ∧ g.Grows (g.addReading d reading) := by
  have hget (d' : Nat) : (g.addReading d reading).derivations[d']? =
      if d = d' then some (x.addReading reading) else g.derivations[d']? :=
    getElem?_modify_of_eq_some hx _ d'
  have hgrows : g.Grows (g.addReading d reading) := by
    refine ⟨fun d' y hy => ?_, fun _ _ hn => hn⟩
    rw [hget]
    split
    · subst d'
      rw [hx] at hy
      obtain rfl := Option.some.inj hy
      exact ⟨_, rfl, x.start_addReading reading, x.stop_addReading reading⟩
    · exact ⟨y, hy, rfl, rfl⟩
  refine ⟨⟨fun d' y hy => ?_, h.places, fun n m hm l hl => hgrows.fits (h.links n m hm l hl)⟩,
    hgrows⟩
  refine Derivation.Stands.settled hgrows.derivations ?_
  rw [hget] at hy
  split at hy
  · obtain rfl := Option.some.inj hy
    exact (h.derivations d x hx).addReading hparts
  · exact h.derivations d' y hy

theorem Sound.setNodes (h : g.Sound text) {nodes : Array StackNode}
    (hgrows : g.Grows { g with nodes })
    (hnodes : ∀ (n : Nat) (m : StackNode), nodes[n]? = some m →
      m.place.Of text ∧ ∀ l ∈ m.links, g.Fits m.place l) : Sound text { g with nodes } :=
  ⟨h.derivations, fun n m hm => (hnodes n m hm).1,
    fun n m hm l hl => hgrows.fits ((hnodes n m hm).2 l hl)⟩

/-- A node gets another link. -/
theorem modify_spec (h : g.Sound text) {n : Nat} {m : StackNode} (hm : g.nodes[n]? = some m)
    {l : Link} (hl : g.Fits m.place l) :
    Sound text { g with nodes := g.nodes.modify n fun m => { m with links := m.links ++ [l] } } ∧
      g.Grows { g with nodes := g.nodes.modify n fun m => { m with links := m.links ++ [l] } } := by
  have hget := getElem?_modify_of_eq_some hm fun m => { m with links := m.links ++ [l] }
  have hgrows : g.Grows
      { g with nodes := g.nodes.modify n fun m => { m with links := m.links ++ [l] } } := by
    refine ⟨.refl _, ?_⟩
    rintro _ n' ⟨m', hm', rfl⟩
    rw [At, hget]
    split
    · subst n'
      rw [hm] at hm'
      obtain rfl := Option.some.inj hm'
      exact ⟨_, rfl, rfl⟩
    · exact ⟨m', hm', rfl⟩
  refine ⟨h.setNodes hgrows fun n' m' hm' => ?_, hgrows⟩
  rw [hget] at hm'
  split at hm'
  · obtain rfl := Option.some.inj hm'
    refine ⟨h.places n m hm, fun l' hl' => ?_⟩
    rcases List.mem_append.mp hl' with hl' | hl'
    · exact h.links n m hm l' hl'
    · obtain rfl := List.mem_singleton.mp hl'
      exact hl
  · exact ⟨h.places n' m' hm', h.links n' m' hm'⟩

/-- A node with one link is put up. -/
theorem push_spec (h : g.Sound text) (hplace : place.Of text) (state : State) {l : Link}
    (hl : g.Fits place l) :
    Sound text { g with nodes := g.nodes.push ⟨state, place, [l]⟩ } ∧
      g.Grows { g with nodes := g.nodes.push ⟨state, place, [l]⟩ } := by
  have hgrows : g.Grows { g with nodes := g.nodes.push ⟨state, place, [l]⟩ } := by
    refine ⟨.refl _, ?_⟩
    rintro _ n ⟨m, hm, rfl⟩
    exact ⟨m, getElem?_push_of_eq_some hm _, rfl⟩
  refine ⟨h.setNodes hgrows fun n m hm => ?_, hgrows⟩
  rw [Array.getElem?_push] at hm
  split at hm
  · obtain rfl := Option.some.inj hm
    refine ⟨hplace, fun l' hl' => ?_⟩
    obtain rfl := List.mem_singleton.mp hl'
    exact hl
  · exact ⟨h.places n m hm, h.links n m hm⟩

theorem addLink_spec (h : g.Sound text) (hplace : place.Of text) {among : List Nat}
    (hamong : ∀ n ∈ among, g.At place n) (state : State) {l : Link} (hl : g.Fits place l) :
    (g.addLink among state place l).2.Sound text ∧ g.Grows (g.addLink among state place l).2 ∧
      (g.addLink among state place l).2.At place (g.addLink among state place l).1 := by
  rw [addLink]
  split
  · next n hn =>
    obtain ⟨m, hm, rfl⟩ := hamong n (List.mem_of_find?_eq_some hn)
    obtain ⟨hsound, hgrows⟩ := modify_spec h hm hl
    exact ⟨hsound, hgrows, hgrows.nodes _ n ⟨m, hm, rfl⟩⟩
  · obtain ⟨hsound, hgrows⟩ := push_spec h hplace state hl
    exact ⟨hsound, hgrows, _, Array.getElem?_push_size, rfl⟩

end StackGraph

end ShaderParams.Grammar

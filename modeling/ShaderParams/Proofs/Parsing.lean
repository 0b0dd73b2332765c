import ShaderParams.Grammar.Statement
import ShaderParams.Proofs.Stacks

/-!
This module contains the parser, for any grammar: whatever it makes of a source, its tokens follow
each other there. So the document of a source has the text of the source, and a source that does not
fit is rejected at a place in it.
-/

namespace ShaderParams.Grammar

open SpanTree (Between)

variable {text : String} {place : Place}

namespace StackGraph

variable {g : StackGraph}

theorem Sound.setTokens (h : g.Sound text) (tokens : Std.HashMap Top NumberSet) :
    Sound text { g with tokens } :=
  ⟨h.derivations, h.places, h.links⟩

theorem grows_setTokens (g : StackGraph) (tokens : Std.HashMap Top NumberSet) :
    g.Grows { g with tokens } :=
  ⟨.refl _, fun _ _ h => h⟩

end StackGraph

namespace Table

variable (t : Table)

/-!
Working out which tokens can come next leaves the stacks alone.
-/

theorem exists_allowedFrom (fuel : Nat) (g : StackGraph) (tops : List Top) :
    ∃ tokens, (t.allowedFrom g fuel tops).2 = { g with tokens } := by
  induction fuel generalizing g tops with
  | zero => exact ⟨g.tokens, by rw [allowedFrom]⟩
  | succ fuel ih =>
    cases tops with
    | nil => exact ⟨g.tokens, by rw [allowedFrom]; simp⟩
    | cons top tops =>
      rw [allowedFrom]
      cases htop : g.tokens[top]? with
      | some set =>
        obtain ⟨tokens, htokens⟩ := ih g tops
        exact ⟨tokens, htokens⟩
      | none =>
        obtain ⟨tokens, htokens⟩ := ih g
          ((t.finished top.1).flatMap fun p => t.finishTops g p top.2)
        simp only [htokens]
        obtain ⟨tokens', htokens'⟩ := ih { g with tokens := tokens.insert top _ } tops
        exact ⟨tokens', htokens'⟩

theorem exists_finishable (g : StackGraph) (fuel token : Nat) (state : State) (node : Nat) :
    ∃ tokens, (t.finishable g fuel token state node).2 = { g with tokens } := by
  rw [finishable]
  induction t.finished state with
  | nil => exact ⟨g.tokens, rfl⟩
  | cons p ps ih =>
    rw [List.foldr_cons]
    generalize ps.foldr _ _ = rest at ih
    obtain ⟨found, _⟩ := rest
    obtain ⟨tokens, rfl⟩ := ih
    obtain ⟨tokens', htokens'⟩ :=
      t.exists_allowedFrom fuel { g with tokens } (t.finishTops { g with tokens } p node)
    exact ⟨tokens', htokens'⟩

theorem exists_next (g : StackGraph) (c : Cursor) (fuel top : Nat) :
    ∃ tokens, (t.next g c fuel top).2 = { g with tokens } :=
  t.exists_allowedFrom ..

theorem next_readFrom {c : Cursor} (hc : c.Of text) (g : StackGraph) (fuel top : Nat) :
    ∀ l ∈ (t.next g c fuel top).1, l.ReadFrom text c.place.offset :=
  readToken_readFrom _ _ c hc

/-!
Finishing productions.
-/

/-- Whether a stack node and its last link are at a place. -/
def Ready (g : StackGraph) (place : Place) (x : Nat × Link) : Prop :=
  g.At place x.1 ∧ g.Fits place x.2

theorem Ready.grow {g g' : StackGraph} (hg : g.Grows g') {x : Nat × Link}
    (h : Ready g place x) : Ready g' place x :=
  ⟨hg.nodes place _ h.1, hg.fits h.2⟩

/-- What is kept to at a place. -/
structure Round.Sound (text : String) (place : Place) (r : Round) : Prop where
  graph : r.graph.Sound text
  members : ∀ n ∈ r.members, r.graph.At place n
  shifting : ∀ n ∈ r.shifting, r.graph.At place n
  names : ∀ (key : Nat × Nat) (d : Nat), r.names[key]? = some d →
    r.graph.Fits place ⟨key.2, d⟩

theorem Round.Sound.grow {r : Round} (h : r.Sound text place) {g : StackGraph}
    (hgrows : r.graph.Grows g) (hg : g.Sound text) :
    Round.Sound text place { r with graph := g } :=
  ⟨hg, fun n hn => hgrows.nodes place n (h.members n hn),
    fun n hn => hgrows.nodes place n (h.shifting n hn),
    fun key d hd => hgrows.fits (h.names key d hd)⟩

/-- A name is read at a stack node. -/
theorem Round.Sound.enter {r : Round} (h : r.Sound text place) {top d : Nat} {key : Nat × Nat}
    (htop : r.graph.At place top) (hlink : r.graph.Fits place ⟨key.2, d⟩) :
    Round.Sound text place { r with
      members := if r.members.contains top then r.members else r.members ++ [top]
      names := r.names.insert key d } := by
  refine ⟨h.graph, fun n hn => ?_, h.shifting, fun key' d' hd' => ?_⟩
  · simp only at hn
    split at hn
    · exact h.members n hn
    · rcases List.mem_append.mp hn with hn | hn
      · exact h.members n hn
      · obtain rfl := List.mem_singleton.mp hn
        exact htop
  · rw [Std.HashMap.getElem?_insert] at hd'
    split at hd'
    · next hkey =>
      obtain rfl := beq_iff_eq.mp hkey
      obtain rfl := Option.some.inj hd'
      exact hlink
    · exact h.names key' d' hd'

/-- A token may be put on a stack node. -/
theorem Round.Sound.allow {r : Round} (h : r.Sound text place) {top : Nat}
    (htop : r.graph.At place top) (shifts : Bool) :
    Round.Sound text place { r with
      shifting :=
        if shifts && !r.shifting.contains top then r.shifting ++ [top] else r.shifting } := by
  refine ⟨h.graph, h.members, fun n hn => ?_, h.names⟩
  simp only at hn
  split at hn
  · rcases List.mem_append.mp hn with hn | hn
    · exact h.shifting n hn
    · obtain rfl := List.mem_singleton.mp hn
      exact htop
  · exact h.shifting n hn

theorem finish_spec {r : Round} (h : r.Sound text place) (hplace : place.Of text)
    {start : Place} {node : Nat} (hnode : r.graph.At start node) (production : Nat)
    {parts : List Nat} (hparts : Chain r.graph.derivations place start parts) :
    (t.finish r place production parts node).1.Sound text place ∧
      r.graph.Grows (t.finish r place production parts node).1.graph ∧
      ∀ x ∈ (t.finish r place production parts node).2,
        Ready (t.finish r place production parts node).1.graph place x := by
  rw [finish]
  generalize t.shape production = shape
  obtain ⟨head, _⟩ := shape
  simp only
  split
  · next d hd =>
    obtain ⟨x, start', hx, hnode', hstart, hstop⟩ := h.names _ d hd
    obtain rfl : start' = start := by
      rw [← StackGraph.place_eq hnode', ← StackGraph.place_eq hnode]
    obtain ⟨hsound, hgrows⟩ := StackGraph.addReading_spec h.graph hx
      (production, parts) (by rwa [hstart, hstop])
    exact ⟨h.grow hgrows hsound, hgrows, by simp⟩
  · have hstands : (Derivation.inner (r.graph.place node) place [(production, parts)]).Stands text
        r.graph.derivations := by
      rw [StackGraph.place_eq hnode]
      refine ⟨h.graph.of hnode, hplace, hparts.le h.graph.derivations, fun reading hreading => ?_⟩
      obtain rfl := List.mem_singleton.mp hreading
      exact hparts
    obtain ⟨hsound, hgrows, hget⟩ := StackGraph.addDerivation_spec h.graph hstands
    generalize r.graph.addDerivation _ = result at hsound hgrows hget ⊢
    obtain ⟨d, g⟩ := result
    have hlink : g.Fits place ⟨node, d⟩ :=
      ⟨_, start, hget, hgrows.nodes start node hnode, StackGraph.place_eq hnode, rfl⟩
    obtain ⟨hsound', hgrows', htop⟩ := StackGraph.addLink_spec hsound hplace
      (fun n hn => hgrows.nodes place n (h.members n hn)) (t.goto (g.state node) head) hlink
    generalize g.addLink _ _ _ _ = result at hsound' hgrows' htop ⊢
    obtain ⟨top, g'⟩ := result
    have hround := h.grow (hgrows.trans hgrows') hsound'
    refine ⟨hround.enter htop (hgrows'.fits hlink), hgrows.trans hgrows', fun x hx => ?_⟩
    obtain rfl := Option.some.inj hx
    exact ⟨htop, hgrows'.fits hlink⟩

/-- What is known of new tops, and of the graph since `g`. -/
structure Finished (text : String) (place : Place) (g : StackGraph) (r : Round)
    (new : List (Nat × Link)) : Prop where
  round : r.Sound text place
  grows : g.Grows r.graph
  ready : ∀ x ∈ new, Ready r.graph place x

theorem finishPaths_spec {g : StackGraph} (hplace : place.Of text) (production : Nat) (link : Link)
    {r : Round} {new : List (Nat × Link)} (h : Finished text place g r new)
    (paths : List (List Nat × Nat)) (hpaths : ∀ path ∈ paths, ∃ start, g.At start path.2 ∧
      Chain g.derivations place start (path.1 ++ [link.derivation])) :
    Finished text place g (t.finishPaths place production link r new paths).1
      (t.finishPaths place production link r new paths).2 := by
  induction paths generalizing r new with
  | nil => exact h
  | cons path paths ih =>
    obtain ⟨⟨start, hnode, hparts⟩, hpaths⟩ := List.forall_mem_cons.mp hpaths
    obtain ⟨hround, hgrows, hready⟩ := t.finish_spec h.round hplace
      (h.grows.nodes start _ hnode) production (hparts.settled h.grows.derivations)
    refine ih ⟨hround, h.grows.trans hgrows, fun x hx => ?_⟩ hpaths
    rcases List.mem_append.mp hx with hx | hx
    · exact (h.ready x hx).grow hgrows
    · exact hready x (Option.mem_toList.mp hx)

theorem finishEach_spec {g : StackGraph} (hplace : place.Of text) {top : Nat} {link : Link}
    (hlink : Ready g place (top, link)) {r : Round} {new : List (Nat × Link)}
    (h : Finished text place g r new) (productions : List Nat) :
    Finished text place g (t.finishEach place link r new productions).1
      (t.finishEach place link r new productions).2 := by
  induction productions generalizing r new with
  | nil => exact h
  | cons p ps ih =>
    obtain ⟨x, mid, hx, htarget, hstart, hstop⟩ := h.grows.fits hlink.2
    have hpaths := t.finishPaths_spec hplace p link ⟨h.round, .refl r.graph, h.ready⟩
      (r.graph.paths ((t.shape p).2 - 1) link.target) fun path hpath => by
        obtain ⟨start, hnode, hchain⟩ := h.round.graph.paths _ htarget path hpath
        exact ⟨start, hnode, hchain.append ⟨x, hx, hstart, hstop⟩⟩
    exact ih ⟨hpaths.round, h.grows.trans hpaths.grows, hpaths.ready⟩

theorem finishAll_spec (hplace : place.Of text) (token fuel : Nat) {todo : List (Nat × Link)}
    {r : Round} (h : r.Sound text place) (htodo : ∀ x ∈ todo, Ready r.graph place x) :
    (t.finishAll place token fuel todo r).Sound text place ∧
      r.graph.Grows (t.finishAll place token fuel todo r).graph := by
  induction fuel generalizing todo r with
  | zero =>
    rw [finishAll]
    exact ⟨h, .refl _⟩
  | succ fuel ih =>
    cases todo with
    | nil =>
      rw [finishAll]
      · exact ⟨h, .refl _⟩
      · simp
    | cons x todo =>
      obtain ⟨top, link⟩ := x
      obtain ⟨hfirst, htodo⟩ := List.forall_mem_cons.mp htodo
      rw [finishAll]
      obtain ⟨tokens, htokens⟩ :=
        t.exists_finishable r.graph fuel token (r.graph.state top) link.target
      generalize t.finishable _ _ _ _ _ = result at htokens
      obtain ⟨possible, _⟩ := result
      obtain rfl := htokens
      simp only
      generalize t.decide possible _ = decision
      obtain ⟨productions, shifts⟩ := decision
      simp only
      have htokens := StackGraph.grows_setTokens r.graph tokens
      have hround := (h.grow htokens (h.graph.setTokens tokens)).allow
        (htokens.nodes place top hfirst.1) shifts
      have hstart : Finished text place r.graph _ [] := ⟨hround, htokens, by simp⟩
      have heach := t.finishEach_spec hplace hfirst hstart productions
      generalize t.finishEach _ _ _ _ _ = result at heach ⊢
      obtain ⟨r', new⟩ := result
      obtain ⟨hround', hgrows, hready⟩ := heach
      have hall : ∀ x ∈ new ++ todo, Ready r'.graph place x := by
        intro x hx
        rcases List.mem_append.mp hx with hx | hx
        · exact hready x hx
        · exact (htodo x hx).grow hgrows
      obtain ⟨hsound, hgrows'⟩ := ih hround' hall
      exact ⟨hsound, hgrows.trans hgrows'⟩

/-!
Going through a source.
-/

/-- What is kept to on the way through a source. -/
structure Progress.Sound (text : String) (p : Progress) : Prop where
  graph : p.graph.Sound text
  tops : ∀ x ∈ p.tops, p.graph.At x.1 x.2
  done : ∀ n ∈ p.done, ∃ place, p.graph.At place n
  reached : p.reached.Of text

theorem Progress.Sound.grow {p : Progress} (h : p.Sound text) {g : StackGraph}
    (hgrows : p.graph.Grows g) (hg : g.Sound text) : Progress.Sound text { p with graph := g } := by
  refine ⟨hg, fun x hx => hgrows.nodes _ _ (h.tops x hx), fun n hn => ?_, h.reached⟩
  obtain ⟨place, hat⟩ := h.done n hn
  exact ⟨place, hgrows.nodes place n hat⟩

theorem push_spec {p : Progress} (h : p.Sound text) {lexed : Lexed} (hstop : lexed.stop.Of text)
    {leaf member : Nat} (hlink : p.graph.Fits lexed.stop ⟨member, leaf⟩) :
    (t.push lexed leaf p member).Sound text ∧ p.graph.Grows (t.push lexed leaf p member).graph := by
  rw [push]
  have hamong : ∀ n ∈ (if t.tokens[lexed.token]? == some .endOfText then []
      else (p.tops.filter fun x => x.1 == lexed.stop).map Prod.snd), p.graph.At lexed.stop n := by
    intro n hn
    split at hn
    · cases hn
    · obtain ⟨x, hx, rfl⟩ := List.mem_map.mp hn
      obtain ⟨hx, hplace⟩ := List.mem_filter.mp hx
      rw [← beq_iff_eq.mp hplace]
      exact h.tops x hx
  obtain ⟨hsound, hgrows, hat⟩ := StackGraph.addLink_spec h.graph hstop hamong
    (t.goto (p.graph.state member) lexed.token) hlink
  simp only
  generalize p.graph.addLink _ _ _ _ = result at hsound hgrows hat ⊢
  obtain ⟨n, g⟩ := result
  have hprogress := h.grow hgrows hsound
  split
  · refine ⟨⟨hsound, hprogress.tops, fun m hm => ?_, h.reached⟩, hgrows⟩
    obtain rfl := Option.some.inj hm
    exact ⟨_, hat⟩
  · split
    · exact ⟨hprogress, hgrows⟩
    · refine ⟨⟨hsound, fun x hx => ?_, hprogress.done, h.reached⟩, hgrows⟩
      rcases List.mem_append.mp hx with hx | hx
      · exact hprogress.tops x hx
      · obtain rfl := List.mem_singleton.mp hx
        exact hat

theorem foldl_push_spec {lexed : Lexed} (hstop : lexed.stop.Of text) {leaf : Nat}
    (members : List Nat) {p : Progress} (h : p.Sound text)
    (hlinks : ∀ n ∈ members, p.graph.Fits lexed.stop ⟨n, leaf⟩) :
    (members.foldl (t.push lexed leaf) p).Sound text ∧
      p.graph.Grows (members.foldl (t.push lexed leaf) p).graph := by
  induction members generalizing p with
  | nil => exact ⟨h, .refl _⟩
  | cons n ns ih =>
    obtain ⟨hn, hns⟩ := List.forall_mem_cons.mp hlinks
    obtain ⟨hpush, hgrows⟩ := t.push_spec h hstop hn
    obtain ⟨hsound, hgrows'⟩ := ih hpush fun m hm => hgrows.fits (hns m hm)
    exact ⟨hsound, hgrows.trans hgrows'⟩

theorem shift_spec {p : Progress} (h : p.Sound text) (hplace : place.Of text) (fuel : Nat)
    {lexed : Lexed} (hlexed : lexed.ReadFrom text place.offset) {tops : List Nat}
    (htops : ∀ n ∈ tops, p.graph.At place n) :
    (t.shift p place fuel lexed tops).Sound text ∧
      p.graph.Grows (t.shift p place fuel lexed tops).graph := by
  rw [shift]
  have hround : Round.Sound text place {
      graph := p.graph, members := tops
      shifting := (tops.filter fun top => (p.graph.links top).isEmpty) } :=
    ⟨h.graph, htops, fun n hn => htops n (List.mem_filter.mp hn).1, by simp⟩
  have hfirst : ∀ x ∈ tops.flatMap fun top => (p.graph.links top).map fun l => (top, l),
      Ready p.graph place x := by
    intro x hx
    obtain ⟨top, htop, hx⟩ := List.mem_flatMap.mp hx
    obtain ⟨l, hl, rfl⟩ := List.mem_map.mp hx
    exact ⟨htops top htop, h.graph.fits_links (htops top htop) l hl⟩
  obtain ⟨hfinished, hgrows⟩ := t.finishAll_spec hplace lexed.token fuel hround hfirst
  generalize t.finishAll _ _ _ _ _ = r at hfinished hgrows ⊢
  obtain ⟨hleaf, hgrows', hget⟩ := StackGraph.addDerivation_spec hfinished.graph
    (x := .leaf place lexed) ⟨hplace, hlexed⟩
  simp only
  generalize r.graph.addDerivation _ = result at hleaf hgrows' hget ⊢
  obtain ⟨leaf, g⟩ := result
  have hstart := h.grow (hgrows.trans hgrows') hleaf
  have hmembers : ∀ n ∈ r.shifting, g.Fits lexed.stop ⟨n, leaf⟩ := fun n hn =>
    ⟨_, place, hget, hgrows'.nodes place n (hfinished.shifting n hn), rfl, rfl⟩
  obtain ⟨hsound, hlast⟩ := t.foldl_push_spec hlexed.stop r.shifting hstart hmembers
  exact ⟨hsound, (hgrows.trans hgrows').trans hlast⟩

/-- What is known of tokens that were read above stack nodes. -/
def Grouped (text : String) (offset : Nat) (tops : List Nat) (groups : List (Lexed × List Nat)) :
    Prop :=
  ∀ x ∈ groups, x.1.ReadFrom text offset ∧ ∀ n ∈ x.2, n ∈ tops

theorem Grouped.assign {offset top : Nat} {tops : List Nat} {lexed : Lexed}
    {groups : List (Lexed × List Nat)} (h : Grouped text offset tops groups)
    (hlexed : lexed.ReadFrom text offset) (htop : top ∈ tops) :
    Grouped text offset tops (assign top lexed groups) := by
  induction groups with
  | nil =>
    intro x hx
    obtain rfl := List.mem_singleton.mp hx
    exact ⟨hlexed, by simpa using htop⟩
  | cons group groups ih =>
    obtain ⟨hgroup, hgroups⟩ := List.forall_mem_cons.mp h
    obtain ⟨l, ns⟩ := group
    rw [Table.assign]
    split
    · refine List.forall_mem_cons.mpr ⟨⟨hgroup.1, fun n hn => ?_⟩, hgroups⟩
      rcases List.mem_append.mp hn with hn | hn
      · exact hgroup.2 n hn
      · obtain rfl := List.mem_singleton.mp hn
        exact htop
    · exact List.forall_mem_cons.mpr ⟨hgroup, ih hgroups⟩

theorem readAll_spec {c : Cursor} (hc : c.Of text) (fuel : Nat) {tops : List Nat} (ns : List Nat)
    (hns : ns ⊆ tops) {groups : List (Lexed × List Nat)}
    (hgroups : Grouped text c.place.offset tops groups) (g : StackGraph) :
    Grouped text c.place.offset tops (t.readAll c fuel groups g ns).1 ∧
      ∃ tokens, (t.readAll c fuel groups g ns).2 = { g with tokens } := by
  induction ns generalizing groups g with
  | nil => exact ⟨hgroups, g.tokens, rfl⟩
  | cons n ns ih =>
    rw [readAll]
    obtain ⟨tokens, htokens⟩ := t.exists_next g c fuel n
    have hnext := t.next_readFrom hc g fuel n
    generalize t.next g c fuel n = result at htokens hnext ⊢
    obtain ⟨found, _⟩ := result
    obtain rfl := htokens
    obtain ⟨hn, hns⟩ := List.cons_subset.mp hns
    cases found with
    | none => exact ih hns hgroups _
    | some lexed => exact ih hns (hgroups.assign (hnext lexed rfl) hn) _

theorem foldl_shift_sound (hplace : place.Of text) (fuel : Nat) (groups : List (Lexed × List Nat))
    {p : Progress} (h : p.Sound text) (hgroups : ∀ x ∈ groups,
      x.1.ReadFrom text place.offset ∧ ∀ n ∈ x.2, p.graph.At place n) :
    (groups.foldl (fun p (lexed, tops) => t.shift p place fuel lexed tops) p).Sound text := by
  induction groups generalizing p with
  | nil => exact h
  | cons group groups ih =>
    obtain ⟨⟨hlexed, htops⟩, hgroups⟩ := List.forall_mem_cons.mp hgroups
    obtain ⟨hshift, hgrows⟩ := t.shift_spec h hplace fuel hlexed htops
    exact ih hshift fun x hx =>
      ⟨(hgroups x hx).1, fun n hn => hgrows.nodes place n ((hgroups x hx).2 n hn)⟩

theorem step_sound {p : Progress} (h : p.Sound text) {c : Cursor} (hc : c.Of text)
    {tops : List Nat} (htops : ∀ n ∈ tops, p.graph.At c.place n) :
    (t.step p c tops).Sound text := by
  rw [step]
  simp only
  have hnone : Grouped text c.place.offset tops [] := by simp [Grouped]
  obtain ⟨hgroups, tokens, htokens⟩ := t.readAll_spec hc
    ((c.place.offset + 256) * (c.place.offset + 256)) tops (List.Subset.refl _) hnone p.graph
  generalize t.readAll _ _ _ _ _ = result at hgroups htokens ⊢
  obtain ⟨groups, _⟩ := result
  obtain rfl := htokens
  have hgrows := StackGraph.grows_setTokens p.graph tokens
  have hstart := h.grow hgrows (h.graph.setTokens tokens)
  refine t.foldl_shift_sound hc.place _ groups ⟨hstart.graph, hstart.tops, hstart.done, hc.place⟩
    fun x hx => ⟨(hgroups x hx).1, fun n hn => htops n ((hgroups x hx).2 n hn)⟩

theorem halt_sound {p : Progress} (h : p.Sound text) {c : Cursor} (hc : c.Of text) :
    let here := (p.tops.filter fun x => x.1 == c.place).map Prod.snd
    let p := { p with tops := p.tops.filter fun x => x.1 != c.place }
    Progress.Sound text (if here.isEmpty then p else t.step p c here) := by
  have hrest : Progress.Sound text { p with tops := p.tops.filter fun x => x.1 != c.place } :=
    ⟨h.graph, fun x hx => h.tops x (List.mem_filter.mp hx).1, h.done, h.reached⟩
  simp only
  split
  · exact hrest
  · refine t.step_sound hrest hc fun n hn => ?_
    obtain ⟨x, hx, rfl⟩ := List.mem_map.mp hn
    obtain ⟨hx, hplace⟩ := List.mem_filter.mp hx
    rw [← beq_iff_eq.mp hplace]
    exact h.tops x hx

/-- By induction on the source: at each place, the stacks that have reached it are gone on with. -/
theorem run_sound {p : Progress} (h : p.Sound text) (rest : List Char) {place : Place}
    (hcursor : Cursor.Of text ⟨rest, place⟩) : (t.run p place rest).Sound text := by
  induction rest generalizing p place with
  | nil =>
    rw [run]
    exact t.halt_sound h hcursor
  | cons c rest ih =>
    rw [run]
    exact ih (t.halt_sound h hcursor) (hcursor.advance 1)

/-- The start of a way through a source: one stack node, from which everything is put up. -/
theorem start_sound (hplace : place.Of text) (state : State) :
    Progress.Sound text ⟨{ nodes := #[⟨state, place, []⟩] }, [(place, 0)], none, place⟩ := by
  have hnodes (n : Nat) (m : StackNode) (hm : #[(⟨state, place, []⟩ : StackNode)][n]? = some m) :
      m = ⟨state, place, []⟩ := by
    rw [List.getElem?_toArray] at hm
    exact List.mem_singleton.mp (List.mem_of_getElem? hm)
  refine ⟨⟨by simp [Placed], fun n m hm => ?_, fun n m hm => ?_⟩, fun x hx => ?_, by simp, hplace⟩
  · rw [hnodes n m hm]
    exact hplace
  · rw [hnodes n m hm]
    simp
  · obtain rfl := List.mem_singleton.mp hx
    exact ⟨_, rfl, rfl⟩

/-- What a grammar makes of a source from a cursor on. -/
theorem parse_between {c : Cursor} (hc : c.Of text) :
    (∀ trees, t.parse c = .ok trees →
      ∃ stop : Place, stop.Of text ∧ Between text 0 stop.offset trees) ∧
      ∀ place, t.parse c = .error place → place.Of text := by
  rw [parse]
  generalize (t.productions.toList.filter _).map _ = fronts
  have hrun := t.run_sound (start_sound hc.place fronts) c.rest hc
  simp only
  generalize t.run _ _ _ = p at hrun ⊢
  cases hdone : p.done with
  | none =>
    refine ⟨fun trees htrees => by simp at htrees, fun place hplace => ?_⟩
    obtain rfl := Except.error.inj hplace
    exact hrun.reached
  | some top =>
    obtain ⟨stop, htop⟩ := hrun.done top hdone
    have hstop := hrun.graph.of htop
    have hchosen : Fitting text p.graph.derivations
        (Array.replicate p.graph.derivations.size none) := by
      intro d r x hchosen
      simp [Array.getElem?_replicate] at hchosen
    rw [Option.bind_some, StackGraph.place_eq htop]
    generalize hreadings : (t.finished (p.graph.state top)).flatMap _ = readings
    have hchains : ∀ r ∈ readings, ∃ start : Place, 0 ≤ start.offset ∧
        Chain p.graph.derivations stop start r.2 := by
      intro r hr
      obtain ⟨q, -, hr⟩ := List.mem_flatMap.mp (hreadings ▸ hr)
      obtain ⟨path, hpath, rfl⟩ := List.mem_map.mp hr
      obtain ⟨start, -, hchain⟩ := hrun.graph.paths _ htop path hpath
      exact ⟨start, Nat.zero_le _, hchain⟩
    obtain ⟨-, hbest⟩ := t.chooseAmong_between hrun.graph.derivations
      (p.graph.derivations.size + 1) hstop 0 readings hchains hchosen
    generalize (t.chooseAmong _ _ _ _ _).1 = best at hbest ⊢
    cases best with
    | none =>
      refine ⟨fun trees htrees => by simp at htrees, fun place hplace => ?_⟩
      obtain rfl := Except.error.inj hplace
      exact hrun.reached
    | some r =>
      refine ⟨fun trees htrees => ?_, fun place hplace => by simp at hplace⟩
      obtain rfl := Except.ok.inj htrees
      exact ⟨stop, hstop, hbest r rfl⟩

end Table

/-- The tokens of a tree follow each other in the source, unless the tree is an error. -/
theorem parse_laid (source : String) :
    ((parse source).span.hasError = false ∧ Laid (endLine source) 0 (parse source).leaves) ∨
      ∃ place : Place, place.Of (endLine source) ∧ (parse source).span.hasError ∧
        Document.spanError (parse source) = .rejected .unexpectedToken (some place.point) := by
  rw [parse]
  generalize shaderTable = t
  generalize htext : endLine source = text
  have hstop : (Place.start.skip text.toList).Of text := ⟨text.toList, [], by simp, rfl⟩
  simp only
  split
  · exact .inr ⟨_, ⟨_, _, List.takeWhile_append_dropWhile.symm, rfl⟩, rfl, rfl⟩
  · have hcursor : Cursor.Of text ⟨text.toList, .start⟩ := ⟨[], rfl, rfl⟩
    obtain ⟨hok, herror⟩ := t.parse_between (c := if text.toList.head? = some byteOrderMark then
      Cursor.advance ⟨text.toList, .start⟩ 1 else ⟨text.toList, .start⟩) (by
        split
        · exact hcursor.advance 1
        · exact hcursor)
    split
    · next trees htrees =>
      obtain ⟨place, hplace, hbetween⟩ := hok trees htrees
      refine .inl ⟨rfl, ?_⟩
      cases trees with
      | nil =>
        exact ⟨Nat.zero_le _, Nat.le_refl _, hstop.boundary, hstop.boundary, trivial⟩
      | cons t ts => exact hbetween.laid
    · next place hplace => exact .inr ⟨place, herror place hplace, rfl, rfl⟩

end Grammar

/--
What becomes of a source text: a document with its text, or the rejection of a place in it.
-/
theorem Document.parse_round_trip (source : String) :
    (∃ d, Document.parse source = .ok d ∧
      d.render = if source.toList.getLast? = some '\n' then source else source ++ "\n") ∨
      ∃ place : Place, place.Of (endLine source) ∧
        Document.parse source = .error (.rejected .unexpectedToken (some place.point)) := by
  rcases Grammar.parse_laid source with ⟨herror, hlaid⟩ | ⟨place, hplace, herror, hspan⟩
  · exact .inl (ofSpans_round_trip herror hlaid)
  · refine .inr ⟨place, hplace, ?_⟩
    rw [Document.parse, ofSpans, if_pos herror, hspan]
    rfl

end ShaderParams

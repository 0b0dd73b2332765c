import ShaderParams.Syntax.Span

/-!
This module contains the round trip of a source text: a tree of spans becomes a document whose text
is the source, whatever the shape of the tree.
-/

namespace ShaderParams

namespace SpanTree

mutual

/-- The spans without children, in the order of the source. -/
def leaves : SpanTree → List Span
  | mk s [] => [s]
  | mk _ (c :: cs) => listLeaves (c :: cs)

/-- The spans without children in a sequence of trees. -/
def listLeaves : List SpanTree → List Span
  | [] => []
  | c :: cs => c.leaves ++ listLeaves cs

end

end SpanTree

/-- A byte offset in a text that is between two characters, or at one of the ends. -/
def Boundary (text : String) (offset : Nat) : Prop :=
  (String.Pos.Raw.mk offset).IsValid text

instance (text : String) (offset : Nat) : Decidable (Boundary text offset) :=
  inferInstanceAs (Decidable ((String.Pos.Raw.mk offset).IsValid text))

theorem Boundary.le_size {text : String} {offset : Nat} (h : Boundary text offset) :
    offset ≤ text.toUTF8.size := by
  have hle := String.Pos.Raw.IsValid.le_utf8ByteSize h
  rwa [← String.size_toByteArray] at hle

theorem boundary_zero (text : String) : Boundary text 0 :=
  String.Pos.Raw.isValid_zero

theorem boundary_size (text : String) : Boundary text text.toUTF8.size :=
  String.Pos.Raw.isValid_rawEndPos

/--
Spans that follow each other in a text from an offset on, with boundaries of characters at both
ends.
-/
def Laid (text : String) (offset : Nat) : List Span → Prop
  | [] => True
  | s :: ss =>
    offset ≤ s.start ∧ s.start ≤ s.stop ∧ Boundary text s.start ∧ Boundary text s.stop ∧
      Laid text s.stop ss

instance (text : String) (offset : Nat) (ss : List Span) : Decidable (Laid text offset ss) :=
  decide ss offset
where
  decide : (ss : List Span) → (offset : Nat) → Decidable (Laid text offset ss)
    | [], _ => inferInstanceAs (Decidable True)
    | s :: ss, offset =>
      have := decide ss s.stop
      inferInstanceAs (Decidable (offset ≤ s.start ∧ s.start ≤ s.stop ∧ Boundary text s.start ∧
        Boundary text s.stop ∧ Laid text s.stop ss))

theorem decodeRange_of_boundary {text : String} {start stop : Nat} (hle : start ≤ stop)
    (hstart : Boundary text start) (hstop : Boundary text stop) :
    ∃ s, decodeRange text.toUTF8 start stop = .ok s ∧
      s.toUTF8 = text.toUTF8.extract start stop := by
  have hvalid : (text.toUTF8.extract start stop).IsValidUTF8 :=
    (String.Pos.Raw.isValidUTF8_extract_iff ⟨start⟩ ⟨stop⟩ hle
      (String.Pos.Raw.IsValid.le_rawEndPos hstop)).mpr (.inr ⟨hstart, hstop⟩)
  refine ⟨String.fromUTF8 _ hvalid, ?_, rfl⟩
  rw [decodeRange, String.fromUTF8?, dif_pos hvalid]

theorem renderTokens_append (ts us : List Label) :
    Node.renderTokens (ts ++ us) = Node.renderTokens ts ++ Node.renderTokens us := by
  simp only [Node.renderTokens, List.map_append, String.join_append]

/--
The part of a text between two offsets is written by tokens.
-/
structure Covers (text : String) (start stop : Nat) (ts : List Label) : Prop where
  le : start ≤ stop
  boundary : Boundary text stop
  bytes : (Node.renderTokens ts).toUTF8 = text.toUTF8.extract start stop

theorem Covers.append {text : String} {start mid stop : Nat} {ts us : List Label}
    (h : Covers text start mid ts) (h' : Covers text mid stop us) :
    Covers text start stop (ts ++ us) where
  le := Nat.le_trans h.le h'.le
  boundary := h'.boundary
  bytes := by
    rw [renderTokens_append, String.toUTF8, String.toByteArray_append, ← String.toUTF8,
      ← String.toUTF8, h.bytes, h'.bytes,
      ByteArray.extract_eq_extract_append_extract mid h.le h'.le]

theorem Covers.nil {text : String} {offset : Nat} (h : Boundary text offset) :
    Covers text offset offset [] where
  le := Nat.le_refl offset
  boundary := h
  bytes := by
    rw [ByteArray.extract_same]
    rfl

theorem Covers.token {text leading body : String} {offset start stop : Nat} {l : Label}
    (hoffset : offset ≤ start) (hstart : start ≤ stop) (hstop : Boundary text stop)
    (hleading : leading.toUTF8 = text.toUTF8.extract offset start)
    (hbody : body.toUTF8 = text.toUTF8.extract start stop) (hl : l.render = leading ++ body) :
    Covers text offset stop [l] where
  le := Nat.le_trans hoffset hstart
  boundary := hstop
  bytes := by
    have hrender : Node.renderTokens [l] = leading ++ body := by
      simp [Node.renderTokens, hl]
    rw [hrender, String.toUTF8, String.toByteArray_append, ← String.toUTF8, ← String.toUTF8,
      hleading, hbody, ByteArray.extract_eq_extract_append_extract start hoffset hstart]

-- By induction on the tree: `rest` are the leaves behind it, which start where it stops.
mutual

theorem toNode_covers (text : String) :
    (t : SpanTree) → (offset : Nat) → (rest : List Span) → Boundary text offset →
      Laid text offset (t.leaves ++ rest) →
      ∃ n stop, t.toNode text.toUTF8 offset = .ok (n, stop) ∧ Covers text offset stop n.tokens ∧
        Laid text stop rest
  | .mk s [], offset, rest => by
    intro hoffset h
    rw [SpanTree.leaves, List.singleton_append, Laid] at h
    obtain ⟨hle, hle', hstart, hstop, hrest⟩ := h
    obtain ⟨leading, hleading, hbytes⟩ := decodeRange_of_boundary hle hoffset hstart
    obtain ⟨body, hbody, hbytes'⟩ := decodeRange_of_boundary hle' hstart hstop
    rw [SpanTree.toNode, hleading, hbody]
    refine ⟨_, _, rfl, ?_, hrest⟩
    rw [Node.tokens]
    exact .token hle hle' hstop hbytes hbytes' rfl
  | .mk s (c :: cs), offset, rest => by
    intro hoffset h
    rw [SpanTree.leaves] at h
    obtain ⟨ns, stop, hns, hcovers, hrest⟩ := toNodes_covers text (c :: cs) offset rest hoffset h
    rw [SpanTree.toNode, hns]
    refine ⟨_, _, rfl, ?_, hrest⟩
    rw [Node.tokens]
    exact hcovers

theorem toNodes_covers (text : String) :
    (cs : List SpanTree) → (offset : Nat) → (rest : List Span) → Boundary text offset →
      Laid text offset (SpanTree.listLeaves cs ++ rest) →
      ∃ ns stop, SpanTree.toNodes text.toUTF8 offset cs = .ok (ns, stop) ∧
        Covers text offset stop (Node.listTokens ns) ∧ Laid text stop rest
  | [], offset, rest => by
    intro hoffset h
    exact ⟨[], offset, rfl, .nil hoffset, h⟩
  | c :: cs, offset, rest => by
    intro hoffset h
    rw [SpanTree.listLeaves, List.append_assoc] at h
    obtain ⟨n, mid, hn, hcovers, hmid⟩ := toNode_covers text c offset _ hoffset h
    obtain ⟨ns, stop, hns, hcovers', hrest⟩ :=
      toNodes_covers text cs mid rest hcovers.boundary hmid
    rw [SpanTree.toNodes, hn]
    simp only [bind, Except.bind, hns]
    refine ⟨n :: ns, stop, rfl, ?_, hrest⟩
    rw [Node.listTokens]
    exact hcovers.append hcovers'

end

theorem endLine_eq (source : String) :
    endLine source =
      if source.toList.getLast? = some '\n' then source else source ++ "\n" := by
  rw [endLine, String.endsWith_char_eq_getLast?]
  simp only [beq_iff_eq]
  rfl

/-- The text of a parsed document is the source, with a line break at its end. -/
theorem ofSpans_round_trip {source : String} {t : SpanTree} (herror : t.span.hasError = false)
    (hlaid : Laid (endLine source) 0 t.leaves) :
    ∃ d, Document.ofSpans source t = .ok d ∧
      d.render = if source.toList.getLast? = some '\n' then source else source ++ "\n" := by
  rw [← endLine_eq]
  generalize htext : endLine source = text at hlaid ⊢
  cases t with
  | mk s cs =>
    have hleaves : Laid text 0 ((SpanTree.mk { s with field := none } cs).leaves ++ []) := by
      rw [List.append_nil]
      cases cs with
      | nil => exact hlaid
      | cons c cs => exact hlaid
    obtain ⟨root, stop, hroot, hcovers, -⟩ :=
      toNode_covers text _ 0 [] (boundary_zero text) hleaves
    obtain ⟨trailing, htrailing, hbytes⟩ :=
      decodeRange_of_boundary hcovers.boundary.le_size hcovers.boundary (boundary_size text)
    refine ⟨⟨root, trailing⟩, ?_, ?_⟩
    · rw [Document.ofSpans, htext, if_neg (by simp [herror])]
      simp only [SpanTree.span, hroot, htrailing, bind, Except.bind, pure, Except.pure]
    · apply String.toByteArray_inj.mp
      calc (root.render ++ trailing).toUTF8
        _ = root.render.toUTF8 ++ trailing.toUTF8 := String.toByteArray_append
        _ = text.toUTF8.extract 0 stop ++ text.toUTF8.extract stop text.toUTF8.size := by
          rw [hbytes, Node.render, hcovers.bytes]
        _ = text.toUTF8.extract 0 text.toUTF8.size :=
          (ByteArray.extract_eq_extract_append_extract stop (Nat.zero_le stop)
            hcovers.boundary.le_size).symm
        _ = text.toUTF8 := ByteArray.extract_zero_size

/--
The tree of a text with a character of two bytes and no line break at its end, which has a token
without text and one for the line break that is added.
-/
def accentedTree : SpanTree :=
  .mk { type := "translation_unit", start := 0, stop := 5, point := ⟨0, 0⟩ } [
    .mk { type := "identifier", start := 0, stop := 2, point := ⟨0, 0⟩ } [],
    .mk { type := "expression", start := 2, stop := 4, point := ⟨0, 2⟩ } [
      .mk { type := "empty", start := 2, stop := 2, point := ⟨0, 2⟩ } [],
      .mk { type := "identifier", start := 3, stop := 4, point := ⟨0, 3⟩ } []],
    .mk { type := "\n", start := 4, stop := 5, point := ⟨0, 4⟩ } []]

theorem ofSpans_round_trip_accentedTree :
    accentedTree.span.hasError = false ∧ Laid (endLine "é a") 0 accentedTree.leaves ∧
      ∃ d, Document.ofSpans "é a" accentedTree = .ok d ∧ d.render = "é a\n" := by
  have hlaid : Laid (endLine "é a") 0 accentedTree.leaves := by
    rw [endLine_eq]
    decide +kernel
  obtain ⟨d, hd, hrender⟩ := ofSpans_round_trip (t := accentedTree) rfl hlaid
  exact ⟨rfl, hlaid, d, hd, hrender⟩

end ShaderParams

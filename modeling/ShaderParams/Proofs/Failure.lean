import ShaderParams.Proofs.Outcome
import ShaderParams.Proofs.Reading
import ShaderParams.Proofs.Rounding

/-!
This module contains the failures of an extraction: on trees whose nodes have the parts that their
types promise, it rejects the shader, or one of its integer literals is past the range of doubles.
-/

namespace ShaderParams

-- Powers of natural numbers are the built-in ones, whatever other instances are in scope.
attribute [local instance (2000)] instPowNat

/--
An integer that rounds past the range of doubles is at least halfway from the greatest double to the
next power of two.
-/
theorem Double.le_natAbs_of_ofInt? {n : Int} (h : ofInt? n = none) :
    2 ^ 1024 - 2 ^ 970 ≤ n.natAbs := by
  have hround : Format.double.round n.natAbs 1 = Format.double.infinity := by
    simpa [ofInt?, Binary.ofFraction, Binary.isInfinite] using h
  by_contra hlt
  generalize n.natAbs = m at hround hlt
  have hm : 0 < m := by
    apply Nat.pos_of_ne_zero
    rintro rfl
    exact absurd hround (by decide)
  have hinfinity : Format.double.value Format.double.infinity = 2 ^ 1024 := by
    rw [Format.double.value_infinity (by decide),
      show (2 ^ (Format.double.exponentBits - 1) : Nat) = 1024 by decide, zpow_natCast]
  have hgreatest : Format.double.value (Format.double.infinity - 1) = 2 ^ 1024 - 2 ^ 971 := by
    have hsucc := Format.double.value_succ (Format.double.infinity - 1)
    rw [show Format.double.infinity - 1 + 1 = Format.double.infinity by decide, hinfinity,
      show Format.double.exponent (Format.double.infinity - 1) = (971 : Nat) by decide,
      zpow_natCast] at hsucc
    exact eq_sub_of_add_eq hsucc.symm
  have hle : (2 : ℚ) ^ 1024 ≤ Format.double.value (Format.double.nearest m 1) := by
    rw [← hinfinity]
    apply Format.double.value_strictMono.monotone
    rw [Format.double.round_eq_min hm] at hround
    omega
  have hnear := Format.double.abs_nearest_le hm Nat.one_pos (Format.double.infinity - 1)
  have hm' : (m : ℚ) < 2 ^ 1024 - 2 ^ 970 := by
    have hsum : m + 2 ^ 970 < 2 ^ 1024 := by omega
    exact lt_sub_iff_add_lt.mpr (by exact_mod_cast hsum)
  have hdouble : (2 : ℚ) ^ 971 = 2 * 2 ^ 970 := pow_succ' 2 970
  have hpos : (0 : ℚ) < 2 ^ 970 := by positivity
  -- The greatest double is nearer to the integer than any power of two past it.
  rw [hgreatest, hdouble, Nat.cast_one, div_one] at hnear
  generalize (2 : ℚ) ^ 1024 = q at hle hnear hm'
  generalize (2 : ℚ) ^ 970 = r at hnear hm' hpos
  rw [abs_of_nonneg (by linarith)] at hnear
  rcases abs_cases (q - 2 * r - m) with ⟨habs, -⟩ | ⟨habs, -⟩ <;> linarith

namespace Node

/-- A tree in which all nodes have the parts that an extraction looks for. -/
def Grammatical (n : Node) : Prop :=
  n.Complete ∧ ∀ m ∈ n.walk, m.Applied

instance (n : Node) : Decidable n.Grammatical :=
  inferInstanceAs (Decidable (n.Complete ∧ ∀ m ∈ n.walk, m.Applied))

theorem Grammatical.of_mem {n m : Node} (h : n.Grammatical) (hm : m ∈ n.children) :
    m.Grammatical :=
  ⟨h.1.of_mem hm, fun x hx => h.2 x (walk_subset_of_mem hm hx)⟩

/-- An integer literal past the range of doubles. -/
def Oversized (n : Node) : Prop :=
  ∃ kind i, n.literal = .ok ⟨kind, .int i⟩ ∧ 2 ^ 1024 - 2 ^ 970 ≤ i.natAbs

end Node

/--
The failures that a tree can be blamed for: a rejection, or an integer past the range of doubles
among its literals.
-/
inductive Blamed (n : Node) : Error → Prop where
  | rejected (cause : Cause) (location : Option Point) : Blamed n (.rejected cause location)
  | integerOverflow {m : Node} (hm : m ∈ n.walk) (h : m.Oversized) : Blamed n .integerOverflow

theorem Blamed.mono {n m : Node} {e : Error} (h : Blamed m e) (hsub : ∀ x ∈ m.walk, x ∈ n.walk) :
    Blamed n e := by
  cases h with
  | rejected cause location => exact .rejected cause location
  | integerOverflow hm h => exact .integerOverflow (hsub _ hm) h

namespace Node

theorem fieldSettings_of_complete (f : Node) (hf : f.Complete) :
    ∃ es, f.fieldSettings = .ok es := by
  rw [fieldSettings]
  split
  · next layout hlayout =>
    obtain ⟨q, hq, hlayout⟩ := Option.bind_eq_some_iff.mp hlayout
    have hq := mem_of_mem_qualifiers _ (List.mem_of_head? hq)
    obtain ⟨hmem, hl⟩ := layout?_mem_walk q hlayout
    have hentries := (hf layout (walk_subset_of_mem hq hmem)).entries hl
    cases hes : layout.layoutEntries with
    | error e =>
      rw [hes] at hentries
      cases hentries
    | ok es => exact ⟨es, rfl⟩
  · exact ⟨[], rfl⟩

/-!
Failures of constants.
-/

theorem readLiteral_error {n : Node} {e : Error} (h : n.readLiteral = .error e) :
    ∃ cause location, e = .rejected cause location := by
  rw [readLiteral] at h
  split at h
  · cases h
  · cases h
    exact ⟨_, _, rfl⟩

theorem literal_error {n : Node} {e : Error} (hn : n.Applied) (h : n.literal = .error e) :
    ∃ cause location, e = .rejected cause location := by
  obtain ⟨signed, hsigned⟩ := hn.signedLiteral?
  rw [literal, hsigned] at h
  rcases signed with _ | ⟨negative, operand⟩
  · change (if n.type == "number_literal" then _ else _) = _ at h
    split at h
    · exact readLiteral_error h
    · cases h
      exact ⟨_, _, rfl⟩
  · change (do let l ← operand.readLiteral; pure (if negative then l.neg else l)) = _ at h
    cases hread : operand.readLiteral with
    | error e' =>
      rw [hread] at h
      cases h
      exact readLiteral_error hread
    | ok l =>
      rw [hread] at h
      cases h

theorem single_error {n : Node} {e : Error} (hn : n.Applied) (h : n.single = .error e) :
    Blamed n e := by
  rw [single_eq] at h
  cases hl : n.literal with
  | error e' =>
    rw [hl] at h
    cases h
    obtain ⟨cause, location, rfl⟩ := literal_error hn hl
    exact .rejected cause location
  | ok l =>
    rcases l with ⟨kind, i | x⟩
    · cases hi : Double.ofInt? i with
      | none =>
        simp only [hl, Number.toDouble?, hi, bind, Except.bind] at h
        cases h
        exact .integerOverflow (self_mem_walk n) ⟨kind, i, hl, Double.le_natAbs_of_ofInt? hi⟩
      | some x =>
        simp only [hl, Number.toDouble?, hi, bind, Except.bind] at h
        cases h
    · rw [hl] at h
      cases h

end Node

/-!
Failures of fields.
-/

theorem FloatSettings.apply_error {field : String} {f : Node} (hf : ∀ m ∈ f.walk, m.Applied)
    {es : List LayoutEntry} (hes : ∀ e ∈ es, ∀ v, e.value = some v → v ∈ f.walk)
    {s : FloatSettings} {e : Error} (h : (apply field s es).result = .error e) : Blamed f e := by
  induction es generalizing s with
  | nil => cases h
  | cons entry es ih =>
    obtain ⟨hentry, hes⟩ := List.forall_mem_cons.mp hes
    rw [apply] at h
    split at h
    · obtain h | ⟨-, -, h⟩ := Logged.result_bind_eq_error h
      · cases h
      · exact ih hes h
    · split at h
      · cases h
        exact .rejected _ _
      · next v hv =>
        have hmem := hentry v hv
        obtain (h : v.single = .error e) | ⟨x, -, h⟩ := Logged.result_bind_eq_error h
        · exact (Node.single_error (hf v hmem) h).mono (Node.walk_subset f hmem)
        · exact ih hes h

theorem vectorInitializer_error {field : String} {f : Node} (hf : ∀ m ∈ f.walk, m.Applied)
    {value : Option Node} (hvalue : ∀ v, value = some v → v ∈ f.walk) {e : Error}
    (h : (vectorInitializer field value).result = .error e) : Blamed f e := by
  rw [vectorInitializer] at h
  split at h
  · cases h
  · next call hcall =>
    obtain ⟨hcall, htype⟩ := Option.filter_eq_some_iff.mp hcall
    have hmem := hvalue call hcall
    obtain ⟨hfunction, harguments⟩ := (hf call hmem).call (by simpa using htype)
    obtain ⟨function, hfunction⟩ := Option.isSome_iff_exists.mp hfunction
    obtain ⟨arguments, harguments⟩ := Option.isSome_iff_exists.mp harguments
    have hsub : ∀ m ∈ Node.withoutComments arguments.namedChildren, m ∈ f.walk := by
      intro m hm
      have hchild : arguments ∈ call.children := List.mem_of_find?_eq_some harguments
      have hm : m ∈ arguments.children := List.mem_of_mem_filter (List.mem_of_mem_filter hm)
      have hm := Node.walk_subset_of_mem hm (Node.self_mem_walk m)
      exact Node.walk_subset f hmem m (Node.walk_subset_of_mem hchild hm)
    simp only [hfunction, harguments, Option.orElse_eq_orElse, Option.orElse_some] at h
    split at h
    · obtain (h : _ = Except.error e) | ⟨xs, -, h⟩ := Logged.result_bind_eq_error h
      · obtain ⟨m, hm, h⟩ := exists_of_mapM_eq_error h
        have hm := hsub m hm
        exact (Node.single_error (hf m hm) h).mono (Node.walk_subset f hm)
      · cases h
    · cases h

theorem VectorSettings.apply_error {field : String} {f : Node} (hf : ∀ m ∈ f.walk, m.Applied)
    {es : List LayoutEntry} (hes : ∀ e ∈ es, ∀ v, e.value = some v → v ∈ f.walk)
    {s : VectorSettings} {e : Error} (h : (apply field s es).result = .error e) : Blamed f e := by
  induction es generalizing s with
  | nil => cases h
  | cons entry es ih =>
    obtain ⟨hentry, hes⟩ := List.forall_mem_cons.mp hes
    rw [apply] at h
    split at h
    · exact ih hes h
    · split at h
      · obtain h | ⟨x, -, h⟩ := Logged.result_bind_eq_error h
        · exact vectorInitializer_error hf hentry h
        · exact ih hes h
      · obtain h | ⟨-, -, h⟩ := Logged.result_bind_eq_error h
        · cases h
        · exact ih hes h

/-- A grammatical field that cannot be turned into a slider is to blame for it. -/
theorem Slider.ofField_error {f : Node} {e : Error} (hf : f.Grammatical)
    (h : (ofField f).result = .error e) : Blamed f e := by
  obtain (h : f.fieldName = _) | ⟨name, -, h⟩ := Logged.result_bind_eq_error h
  · rw [Node.fieldName] at h
    split at h
    · cases h
    · cases h
      exact .rejected _ _
  obtain (h : f.checkSingle name = _) | ⟨-, -, h⟩ := Logged.result_bind_eq_error h
  · rw [Node.checkSingle] at h
    split at h
    · cases h
      exact .rejected _ _
    · split at h
      · cases h
        exact .rejected _ _
      · cases h
  obtain (h : f.fieldType = _) | ⟨type, -, h⟩ := Logged.result_bind_eq_error h
  · rw [Node.fieldType] at h
    split at h
    · cases h
    · cases h
      exact .rejected _ _
  obtain (h : f.fieldSettings = _) | ⟨settings, (hsettings : f.fieldSettings = _), h⟩ :=
    Logged.result_bind_eq_error h
  · obtain ⟨settings, hsettings⟩ := f.fieldSettings_of_complete hf.1
    rw [hsettings] at h
    cases h
  have hvalues : ∀ entry ∈ settings, ∀ v, entry.value = some v → v ∈ f.walk :=
    fun entry hentry v hv => Node.value_mem_walk_of_fieldSettings hsettings hentry hv
  split at h
  · obtain h | ⟨s, -, h⟩ := Logged.result_bind_eq_error h
    · exact FloatSettings.apply_error hf.2 hvalues h
    · cases h
  · split at h
    · obtain h | ⟨s, -, h⟩ := Logged.result_bind_eq_error h
      · exact VectorSettings.apply_error hf.2 hvalues h
      · cases h
    · cases h
      exact .rejected _ _

/-!
Failures of the pass.
-/

theorem Node.Grammatical.of_mem_walk {n m : Node} (h : n.Grammatical) (hm : m ∈ n.walk) :
    m.Grammatical :=
  ⟨fun x hx => h.1 x (walk_subset n hm x hx), fun x hx => h.2 x (walk_subset n hm x hx)⟩

theorem Node.layoutEntries_error {layout : Node} {e : Error} (h : layout.layoutEntries = .error e) :
    e = .missingChild := by
  rw [layoutEntries] at h
  split at h
  · cases h
  · obtain ⟨g, -, hg⟩ := exists_of_mapM_eq_error h
    rw [layoutEntry_eq] at hg
    generalize Node.entryNodes g = nodes at hg
    rcases nodes with _ | ⟨name, _ | ⟨eq, _ | ⟨value, rest⟩⟩⟩ <;> cases hg
    rfl

/-- Only an entry without a name keeps the qualifiers of a block from being read. -/
theorem paramsLayout?_error {o : Options} {preceding : List Node} {n : Node} {e : Error}
    (h : paramsLayout? o preceding n = .error e) : e = .missingChild := by
  rw [paramsLayout?] at h
  split at h
  · split at h
    · cases h
    · split at h
      · cases h
      · next layout _ =>
        cases hentries : layout.layoutEntries with
        | error e' =>
          rw [hentries] at h
          cases h
          exact Node.layoutEntries_error hentries
        | ok es =>
          rw [hentries] at h
          cases h
  · cases h

theorem takeBlock_error {o : Options} {place : QualifierPlace} {n : Node} {p : Progress} {e : Error}
    (hn : n.Grammatical) (h : (takeBlock o place n p).result = .error e) : Blamed n e := by
  obtain h | ⟨sliders, -, h⟩ := Logged.result_bind_eq_error h
  · obtain ⟨before, f, behind, hfields, -, hf⟩ := Logged.exists_of_mapM_error h
    have hmem := Node.mem_walk_of_mem_fields (n := n) (f := f) (by simp [hfields])
    exact (Slider.ofField_error (hn.of_mem_walk hmem) hf).mono (Node.walk_subset n hmem)
  · cases h

mutual

theorem visit_error (o : Options) : (n : Node) → (preceding : List Node) → (p : Progress) →
    n.Grammatical → {e : Error} → (visit o preceding p n).result = .error e →
    Blamed n e ∨ e = .missingChild
  | .mk l cs, preceding, p => by
    intro hn e h
    cases hlayout : paramsLayout? o preceding (.mk l cs) with
    | error e' =>
      rw [visit_of_layout_error hlayout] at h
      cases h
      exact .inr (paramsLayout?_error hlayout)
    | ok layout =>
      obtain ⟨bound, hbound⟩ := boundAt?_of_readable hn.1.readable p.sliders
      rcases layout with _ | ⟨place, layout⟩
      · cases bound with
        | some x =>
          rw [visit_of_bound hlayout hbound] at h
          cases h
        | none =>
          rw [visit_of_children hlayout hbound] at h
          obtain h | ⟨r, -, h⟩ := Logged.result_bind_eq_error h
          · obtain ⟨c, hc, hblamed⟩ | he := visitAll_error o cs [] _ (fun c hc => hn.of_mem hc) h
            · exact .inl (hblamed.mono fun x hx => Node.walk_subset_of_mem hc hx)
            · exact .inr he
          · cases h
      · cases hfound : p.found with
        | false =>
          rw [visit_of_block hlayout hfound] at h
          exact .inl (takeBlock_error hn h)
        | true =>
          obtain ⟨hblock, -⟩ := paramsLayout?_eq_some hlayout
          obtain ⟨start, hstart⟩ := Option.isSome_iff_exists.mp (hn.1.readable.start hblock)
          rw [visit_of_extraBlock hlayout hfound, skipBlock_of_start hstart] at h
          cases h

theorem visitAll_error (o : Options) : (cs done : List Node) → (p : Progress) →
    (∀ c ∈ cs, c.Grammatical) → {e : Error} → (visitAll o done p cs).result = .error e →
    (∃ c ∈ cs, Blamed c e) ∨ e = .missingChild
  | [], done, p => by
    intro _ e h
    cases h
  | c :: cs, done, p => by
    intro hcs e h
    obtain ⟨hc, hcs⟩ := List.forall_mem_cons.mp hcs
    rw [visitAll_cons] at h
    obtain h | ⟨v, -, h⟩ := Logged.result_bind_eq_error h
    · obtain hblamed | he := visit_error o c done p hc h
      · exact .inl ⟨c, List.mem_cons_self, hblamed⟩
      · exact .inr he
    · obtain ⟨d, hd, hblamed⟩ | he := visitAll_error o cs _ _ hcs h
      · exact .inl ⟨d, List.mem_cons_of_mem c hd, hblamed⟩
      · exact .inr he

end

/--
Whether the layouts that blocks behind the first params block take from qualifiers in front of them
are as the document has them, whatever the pass did to the nodes of the qualifiers.
-/
def Undisturbed (o : Options) (root : Node) : Prop :=
  ∀ c b place layout, firstBlock? o [] root = some (c, b) →
    paramsLayout? o (c.preceding []) b = .ok (some (place, layout)) →
    (c.relaid o place).Behind Settled b

/--
An extraction fails only by rejecting the shader or over an integer literal past the range of
doubles, unless a qualifier in front of a later block was changed on the way.
-/
theorem extract_failure (o : Options) (source : String) {d : Document} {e : Error}
    (hd : d.root.Grammatical) (he : (extract o source d).result = .error e) :
    Blamed d.root e ∨ e = .missingChild ∧ ¬ Undisturbed o d.root := by
  have hvisit : (visit o [] {} d.root).result = .error e := by
    obtain h | ⟨v, -, h⟩ := Logged.result_bind_eq_error he
    · exact h
    · cases h
  obtain hblamed | hmissing := visit_error o d.root [] {} hd hvisit
  · exact .inl hblamed
  by_cases hundisturbed : Undisturbed o d.root
  · left
    cases hb : firstBlock? o [] d.root with
    | none =>
      rw [extract_unmarked source hd.1 hb] at he
      cases he
    | some found =>
      obtain ⟨c, b⟩ := found
      obtain ⟨hroot, hparams⟩ := plug_of_firstBlock? c hb
      obtain ⟨⟨place, layout⟩, hlayout⟩ := exists_layout_of_isParams hparams
      have hsettled := hundisturbed c b place layout hb hlayout
      obtain ⟨before, f, behind, hfields, -, hf⟩ :=
        (extract_error_iff source hd.1 hb hlayout hsettled e).mp he
      have hmem : f ∈ d.root.walk := by
        have hmem : f ∈ b.walk := Node.mem_walk_of_mem_fields (by simp [hfields])
        rw [← hroot]
        exact Context.walk_subset_plug c hmem
      exact (Slider.ofField_error (hd.of_mem_walk hmem) hf).mono (Node.walk_subset _ hmem)
  · exact .inr ⟨hmissing, hundisturbed⟩

/-- The numeral of a power of ten past the range of doubles. -/
def hugeNumeral : Node :=
  .mk {
    type := "number_literal"
    text := some (String.ofList ('1' :: List.replicate 400 '0'))
    leading := " "
    start := some ⟨0, 40⟩ } []

theorem single_hugeNumeral : hugeNumeral.single = .error .integerOverflow := by
  have htext : hugeNumeral.text = String.ofList ('1' :: List.replicate 400 '0') :=
    Node.text_of_token rfl []
  have hread : Literal.read ('1' :: List.replicate 400 '0') = .ok ⟨.int, .int (10 ^ 400)⟩ := by
    decide +kernel
  have hnone : Double.ofInt? (10 ^ 400) = none := by
    decide +kernel
  rw [Node.single_eq, Node.literal_of_type rfl, Node.readLiteral, htext, String.toList_ofList, hread]
  simp only [bind, Except.bind, Number.toDouble?, hnone]
  rfl

/-- The tree of a params block with a field whose bound is that numeral. -/
def hugeTree : Node :=
  branch 0 "translation_unit" [block]
where
  block : Node :=
    branch 0 "declaration" [
      layout 0 [token 7 "identifier" "params" ""],
      token 15 "uniform" "uniform" " ",
      token 23 "identifier" "P" " ",
      branch 25 "field_declaration_list" [
        token 25 "\x7b" "\x7b" " ", field, token 452 "\x7d" "\x7d" " "],
      token 453 ";" ";" ""]
  field : Node :=
    branch 27 "field_declaration" [
      layout 27 [token 34 "identifier" "max" "", token 38 "=" "=" " ", hugeNumeral],
      token 443 "primitive_type" "float" " " (some "type"),
      token 449 "field_identifier" "a" " " (some "declarator"),
      token 450 ";" ";" ""]
  token (column : Nat) (type text leading : String) (field : Option String := none) : Node :=
    .mk {
      type, text := some text, field, named := type != text, leading, start := some ⟨0, column⟩ } []
  branch (column : Nat) (type : String) (children : List Node) : Node :=
    .mk { type, start := some ⟨0, column⟩ } children
  layout (column : Nat) (entry : List Node) : Node :=
    branch column "layout_specification" [
      token column "layout" "layout" " ",
      branch (column + 6) "layout_qualifiers" [
        token (column + 6) "(" "(" "",
        branch (column + 7) "qualifier" entry,
        token (column + 8) ")" ")" ""]]

theorem ofField_hugeTree : (Slider.ofField hugeTree.field).result = .error .integerOverflow := by
  have hname : hugeTree.field.fieldName = .ok "a" := by decide +kernel
  have hcheck : hugeTree.field.checkSingle "a" = .ok () := by decide +kernel
  have htype : hugeTree.field.fieldType = .ok "float" := by decide +kernel
  have hsettings : hugeTree.field.fieldSettings =
      .ok [⟨"max", some hugeNumeral, hugeTree.token 34 "identifier" "max" ""⟩] := by
    rfl
  rw [Slider.ofField, hname]
  simp only [liftM, monadLift, MonadLift.monadLift, Logged.lift_ok_bind, hcheck, htype, hsettings]
  rw [if_pos trivial, FloatSettings.apply]
  simp only [FloatSettings.set?, single_hugeNumeral]
  rfl

theorem result_hugeTree : (extract {} "" ⟨hugeTree, ""⟩).result = .error .integerOverflow := by
  have hb : firstBlock? {} [] hugeTree =
      some (.child hugeTree.label [] [] .root, hugeTree.block) := by
    rfl
  obtain ⟨-, hparams⟩ := plug_of_firstBlock? _ hb
  obtain ⟨⟨place, layout⟩, hlayout⟩ := exists_layout_of_isParams hparams
  have hcomplete : hugeTree.Complete := by decide +kernel
  have hsettled : (Context.relaid {} place (.child hugeTree.label [] [] .root)).Behind Settled
      hugeTree.block := by
    cases place <;> decide +kernel
  rw [extract_error_iff (d := ⟨hugeTree, ""⟩) "" hcomplete hb hlayout hsettled]
  exact ⟨[], hugeTree.field, [], rfl, by simp, ofField_hugeTree⟩

theorem extract_failure_hugeTree :
    hugeTree.Grammatical ∧ (extract {} "" ⟨hugeTree, ""⟩).result = .error .integerOverflow ∧
      Blamed hugeTree .integerOverflow := by
  have hd : hugeTree.Grammatical := by decide +kernel
  refine ⟨hd, result_hugeTree, ?_⟩
  obtain hblamed | ⟨hmissing, -⟩ := extract_failure {} "" (d := ⟨hugeTree, ""⟩) hd result_hugeTree
  · exact hblamed
  · cases hmissing

/-- The shader is well-formed, but its extraction fails without a rejection. -/
theorem extract_hugeTree :
    hugeTree.Grammatical ∧ (∀ m ∈ hugeTree.walk, m.label.start.isSome) ∧
      (extract {} "" ⟨hugeTree, ""⟩).result = .error .integerOverflow ∧
      ∀ cause location,
        (extract {} "" ⟨hugeTree, ""⟩).result ≠ .error (.rejected cause location) := by
  refine ⟨by decide +kernel, by decide +kernel, result_hugeTree, ?_⟩
  intro cause location
  rw [result_hugeTree]
  nofun

end ShaderParams

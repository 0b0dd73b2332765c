import ShaderParams.Proofs.Buffer
import ShaderParams.Proofs.Members
import ShaderParams.Proofs.Rounding

/-!
This module contains the numbers of extracted sliders: all of them are single precision numbers, so
that the sliders of every shader can be packed, and read back from the buffer.
-/

namespace ShaderParams

open List (Forall₂)

/-- Whether a double is a number of single precision. -/
def Double.IsSingle (x : Double) : Prop :=
  x.toSingle = x

instance (x : Double) : Decidable x.IsSingle :=
  inferInstanceAs (Decidable (x.toSingle = x))

/--
The controls that a buffer takes without loss: numbers and vectors of three components, all in
single precision.
-/
inductive Control.Uploadable : Control → Prop where
  | float {min max value : Double} (hmin : min.IsSingle) (hmax : max.IsSingle)
      (hvalue : value.IsSingle) : Uploadable (.float min max value)
  | vec3 {x y z : Double} (hx : x.IsSingle) (hy : y.IsSingle) (hz : z.IsSingle) :
      Uploadable (.vec3 [x, y, z])
  | color {x y z : Double} (hx : x.IsSingle) (hy : y.IsSingle) (hz : z.IsSingle) :
      Uploadable (.color [x, y, z])

/-!
The numbers that settings give to sliders.
-/

namespace Double

theorem isSingle_zero (s : Bool) : IsSingle (.zero s) := by
  cases s <;> decide +kernel

theorem isSingle_one : IsSingle .one := by
  decide +kernel

end Double

theorem Node.isSingle_of_single {n : Node} {x : Double} (h : n.single = .ok x) : x.IsSingle := by
  rw [single_eq] at h
  cases hl : n.literal with
  | error e =>
    rw [hl] at h
    cases h
  | ok l =>
    rw [hl] at h
    simp only [bind, Except.bind] at h
    split at h
    · cases h
      apply Double.toSingle_toSingle
    · cases h

namespace FloatSettings

/-- Whether all numbers are of single precision. -/
structure Single (s : FloatSettings) : Prop where
  min : s.min.IsSingle
  max : s.max.IsSingle
  init : s.init.IsSingle

theorem single_default : Single {} where
  min := Double.isSingle_zero false
  max := Double.isSingle_one
  init := Double.isSingle_zero false

theorem Single.set {s : FloatSettings} (h : s.Single) {name : String} {set : Double → FloatSettings}
    (hset : s.set? name = some set) {x : Double} (hx : x.IsSingle) : (set x).Single := by
  rw [set?] at hset
  split at hset
  · cases hset
    exact ⟨hx, h.max, h.init⟩
  · split at hset
    · cases hset
      exact ⟨h.min, hx, h.init⟩
    · split at hset
      · cases hset
        exact ⟨h.min, h.max, hx⟩
      · cases hset

theorem single_of_apply {field : String} {es : List LayoutEntry} {s t : FloatSettings}
    (hs : s.Single) (h : (apply field s es).result = .ok t) : t.Single := by
  induction es generalizing s with
  | nil =>
    cases h
    exact hs
  | cons e es ih =>
    rw [apply] at h
    split at h
    · obtain ⟨-, -, h⟩ := Logged.result_bind_eq_ok h
      exact ih hs h
    · next set hset =>
      split at h
      · cases h
      · obtain ⟨x, (hx : Node.single _ = .ok x), h⟩ := Logged.result_bind_eq_ok h
        exact ih (hs.set hset (Node.isSingle_of_single hx)) h

end FloatSettings

/-- Three numbers of single precision. -/
def IsSingleVector (xs : List Double) : Prop :=
  xs.length = 3 ∧ ∀ x ∈ xs, x.IsSingle

theorem isSingleVector_origin : IsSingleVector Control.origin :=
  ⟨rfl, by simp [Control.origin, Double.isSingle_zero]⟩

theorem isSingle_of_mapM {ns : List Node} {xs : List Double} (h : ns.mapM Node.single = .ok xs) :
    xs.length = ns.length ∧ ∀ x ∈ xs, x.IsSingle := by
  obtain ⟨hlength, hall⟩ := exists_of_mapM_eq_ok h
  refine ⟨hlength, fun x hx => ?_⟩
  obtain ⟨n, -, hn⟩ := hall x hx
  exact Node.isSingle_of_single hn

theorem isSingleVector_of_initializer {field : String} {value : Option Node} {xs : List Double}
    (h : (vectorInitializer field value).result = .ok (some xs)) : IsSingleVector xs := by
  rw [vectorInitializer] at h
  split at h
  · cases h
  · next call _ =>
    split at h
    · next function _ =>
      split at h
      · next arguments _ =>
        dsimp only at h
        split at h
        · next hvec =>
          obtain ⟨ys, hys, h⟩ := Logged.result_bind_eq_ok h
          cases h
          obtain ⟨hlength, hall⟩ := isSingle_of_mapM hys
          exact ⟨hlength.trans hvec.2, hall⟩
        · cases h
      · cases h
    · cases h

namespace VectorSettings

theorem isSingleVector_of_apply {field : String} {es : List LayoutEntry} {s t : VectorSettings}
    (hs : IsSingleVector s.value) (h : (apply field s es).result = .ok t) :
    IsSingleVector t.value := by
  induction es generalizing s with
  | nil =>
    cases h
    exact hs
  | cons e es ih =>
    rw [apply] at h
    split at h
    · refine ih ?_ h
      exact hs
    · split at h
      · obtain ⟨value, hvalue, h⟩ := Logged.result_bind_eq_ok h
        refine ih ?_ h
        cases value with
        | none => exact hs
        | some xs => exact isSingleVector_of_initializer hvalue
      · obtain ⟨-, -, h⟩ := Logged.result_bind_eq_ok h
        exact ih hs h

theorem uploadable_toControl {s : VectorSettings} (h : IsSingleVector s.value) :
    s.toControl.Uploadable := by
  obtain ⟨hlength, hall⟩ := h
  obtain ⟨x, y, z, hxyz⟩ := List.length_eq_three.mp hlength
  rw [hxyz] at hall
  have hx := hall x (by simp)
  have hy := hall y (by simp)
  have hz := hall z (by simp)
  rw [toControl, hxyz]
  split
  · exact .color hx hy hz
  · exact .vec3 hx hy hz

end VectorSettings

theorem Slider.uploadable_ofField {f : Node} {s : Slider} (h : (ofField f).result = .ok s) :
    s.control.Uploadable := by
  obtain ⟨name, -, h⟩ := Logged.result_bind_eq_ok h
  obtain ⟨_, -, h⟩ := Logged.result_bind_eq_ok h
  obtain ⟨type, -, h⟩ := Logged.result_bind_eq_ok h
  obtain ⟨settings, -, h⟩ := Logged.result_bind_eq_ok h
  split at h
  · obtain ⟨x, hx, h⟩ := Logged.result_bind_eq_ok h
    cases h
    have hsingle := FloatSettings.single_of_apply FloatSettings.single_default hx
    exact .float hsingle.min hsingle.max hsingle.init
  · split at h
    · obtain ⟨x, hx, h⟩ := Logged.result_bind_eq_ok h
      cases h
      exact VectorSettings.uploadable_toControl
        (VectorSettings.isSingleVector_of_apply isSingleVector_origin hx)
    · cases h

/-!
The buffer of such sliders.
-/

theorem Double.IsSingle.bytes {x : Double} (h : x.IsSingle) :
    ∃ bytes, singleBytes x = .ok bytes ∧ bytes.length = 4 ∧ readSingle bytes = x := by
  rw [IsSingle, toSingle] at h
  have hinfinite : (x.convert : Single).isInfinite → x.isInfinite := by
    intro hs
    rw [← h]
    apply Binary.isInfinite_convert hs
  refine ⟨littleEndian 4 (x.convert : Single).toBits, ?_, length_littleEndian .., ?_⟩
  · rw [singleBytes, if_neg]
    simpa using hinfinite
  · rw [readSingle_littleEndian, h]

theorem vector_bytes {x y z : Double} (hx : x.IsSingle) (hy : y.IsSingle) (hz : z.IsSingle) :
    ∃ bytes, (Control.vec3 [x, y, z]).bytes = .ok bytes ∧ readSingles bytes = [x, y, z] := by
  obtain ⟨a, ha, hlength, hread⟩ := hx.bytes
  obtain ⟨b, hb, hlength', hread'⟩ := hy.bytes
  obtain ⟨c, hc, hlength'', hread''⟩ := hz.bytes
  refine ⟨a ++ (b ++ (c ++ [])), ?_, ?_⟩
  · simp [Control.bytes, ha, hb, hc, bind, Except.bind, Functor.map, Except.map, pure, Except.pure]
  · rw [readSingles_append hlength, readSingles_append hlength', readSingles_append hlength'',
      hread, hread', hread'']
    rfl

theorem Control.Uploadable.bytes {c : Control} (h : c.Uploadable) :
    ∃ bytes, c.bytes = .ok bytes ∧ readSingles bytes = c.written := by
  cases h with
  | float _ _ hvalue =>
    obtain ⟨bytes, hbytes, hlength, hread⟩ := hvalue.bytes
    refine ⟨bytes, hbytes, ?_⟩
    rw [← List.append_nil bytes, readSingles_append hlength, hread]
    rfl
  | vec3 hx hy hz => exact vector_bytes hx hy hz
  | color hx hy hz => exact vector_bytes hx hy hz

/-- The sliders of an extraction are those of some fields. -/
theorem extract_sliders {o : Options} {source : String} {d : Document} {e : Extraction}
    (he : (extract o source d).result = .ok e) :
    ∃ fields, (List.mapM Slider.ofField fields).result = .ok e.panel.sliders := by
  cases hb : firstBlock? o [] d.root with
  | some cb =>
    obtain ⟨place, v, -, hrun, -⟩ := extract_found he hb
    exact ⟨_, hrun.fields⟩
  | none =>
    obtain ⟨v, hv, he⟩ := Logged.result_bind_eq_ok he
    rw [visit_unmarked o d.root [] false (firstBlock?_eq_none o d.root [] hb) hv] at hv
    cases hv
    cases he
    exact ⟨[], rfl⟩

/--
The sliders of every extraction are numbers, vectors and colors in single precision. They have a
buffer, and the numbers that are read from the places of its members are those of the sliders.
-/
theorem extract_uploads {o : Options} {source : String} {d : Document} {e : Extraction}
    (he : (extract o source d).result = .ok e) :
    (∀ s ∈ e.panel.sliders, s.control.Uploadable) ∧
    ∃ ms size bytes, members e.panel.sliders = .ok ms ∧ bufferSize e.panel.sliders = .ok size ∧
      packBuffer e.panel.sliders = .ok bytes ∧ bytes.length = size ∧
      Forall₂ (fun s m => readSingles (m.region bytes) = s.control.written) e.panel.sliders ms := by
  obtain ⟨fields, hfields⟩ := extract_sliders he
  have huploadable : ∀ s ∈ e.panel.sliders, s.control.Uploadable := by
    have hbuilt : Forall₂ (fun s f => s.control.Uploadable ∧ (Slider.ofField f).result = .ok s)
        e.panel.sliders fields :=
      Forall₂.flip ((Logged.mapM_eq_ok hfields).imp
        fun f s hs => ⟨Slider.uploadable_ofField hs, hs⟩)
    exact ((List.forall₂_and_left _ _).mp hbuilt).1
  refine ⟨huploadable, ?_⟩
  obtain ⟨ms, hms, -⟩ := members_eq_ok (declared_fields hfields).2
  obtain ⟨bytes, hpack, hsize, hregions, -⟩ := packBuffer_spec hms fun s hs =>
    (huploadable s hs).bytes.imp fun _ h => h.1
  refine ⟨ms, _, bytes, hms, hsize, hpack, rfl, ?_⟩
  refine ((List.forall₂_and_left _ _).mpr ⟨huploadable, hregions⟩).imp ?_
  rintro s m ⟨hs, -, hregion⟩
  obtain ⟨own, hown, hread⟩ := hs.bytes
  cases hregion.symm.trans hown
  exact hread

/--
The tree of a params block with a number whose upper bound is past the single precision range, and a
color.
-/
def tintedTree : Node :=
  .branch "declaration" [
    layout [.token "identifier" "params"],
    .branch "field_declaration_list" [
      field [.token "identifier" "max", .symbol "=", .token "number_literal" "1e39"] "float" "gain",
      field [
          .token "identifier" "color", .symbol ",", .token "identifier" "init", .symbol "=", tint]
        "vec3" "tint"]]
where
  layout (entries : List Node) : Node :=
    .branch "layout_specification" (.symbol "(" :: entries ++ [.symbol ")"])
  field (settings : List Node) (type name : String) : Node :=
    .branch "field_declaration" [
      layout settings, .token "primitive_type" type, .token "field_identifier" name]
  tint : Node :=
    .branch "call_expression" [
      .token "identifier" "vec3" "" (some "function"),
      .branch "argument_list" [
        .token "number_literal" "0.1", .token "number_literal" "1", .token "number_literal" "-2.5"]
        (some "arguments")]

theorem extract_uploads_tintedTree :
    ∃ e, (extract {} "" ⟨tintedTree, ""⟩).result = .ok e ∧
      e.panel.sliders.map Slider.declared =
        [(some "float", some "gain"), (some "vec3", some "tint")] ∧
      (∀ s ∈ e.panel.sliders, s.control.Uploadable) ∧
      ∃ ms size bytes, members e.panel.sliders = .ok ms ∧ bufferSize e.panel.sliders = .ok size ∧
        packBuffer e.panel.sliders = .ok bytes ∧ bytes.length = size ∧
        Forall₂ (fun s m => readSingles (m.region bytes) = s.control.written)
          e.panel.sliders ms := by
  have hdeclared : (extract {} "" ⟨tintedTree, ""⟩).result.map
      (fun e => e.panel.sliders.map Slider.declared) =
        .ok [(some "float", some "gain"), (some "vec3", some "tint")] := by
    decide +kernel
  cases he : (extract {} "" ⟨tintedTree, ""⟩).result with
  | error e =>
    rw [he] at hdeclared
    cases hdeclared
  | ok e =>
    rw [he] at hdeclared
    obtain ⟨huploadable, hbuffer⟩ := extract_uploads he
    exact ⟨e, rfl, Except.ok.inj hdeclared, huploadable, hbuffer⟩

end ShaderParams

import ShaderParams.Proofs.Packing
import ShaderParams.Proofs.Spelling
import ShaderParams.Slider.Panel

/-!
This module contains what a panel does with its sliders: clamping brings a number between its
bounds, and an edit of one slider changes nothing in the buffer but its member.
-/

namespace ShaderParams

open List (Forall₂)

namespace Double

theorem lt_self (x : Double) : x.lt x = false := by
  rw [Binary.lt]
  cases x.place <;> simp

theorem lt_of_le {x y : Double} (h : x.Le y) : y.lt x = false := by
  obtain ⟨a, b, hx, hy, hab⟩ := h
  simp only [Binary.lt, hx, hy, decide_eq_false_iff_not]
  omega

theorem place_lesser {x y : Double} {a b : Int} (hx : x.place = some a) (hy : y.place = some b) :
    (x.lesser y).place = some (min a b) := by
  rw [lesser, Binary.lt, hx, hy]
  simp only [decide_eq_true_eq]
  split
  · rw [hy, Int.min_eq_right (by omega)]
  · rw [hx, Int.min_eq_left (by omega)]

theorem place_greater {x y : Double} {a b : Int} (hx : x.place = some a) (hy : y.place = some b) :
    (x.greater y).place = some (max a b) := by
  rw [greater, Binary.lt, hx, hy]
  simp only [decide_eq_true_eq]
  split
  · rw [hy, Int.max_eq_right (by omega)]
  · rw [hx, Int.max_eq_left (by omega)]

end Double

namespace Control

variable {min max value : Double}

theorem clamped?_of_le (h : min.Le max) (hvalue : value.isNan = false) :
    ∃ x, (float min max value).clamped? = some x ∧ min.Le x ∧ x.Le max ∧
      (min.Le value → value.Le max → x.numEq value) := by
  obtain ⟨a, b, ha, hb, hab⟩ := h
  obtain ⟨c, hc⟩ : ∃ c, value.place = some c := by
    cases value with
    | nan s => cases hvalue
    | number s r => cases s <;> exact ⟨_, rfl⟩
  have hplace := Double.place_greater ha (Double.place_lesser hb hc)
  refine ⟨_, rfl, ⟨a, _, ha, hplace, by omega⟩, ⟨_, b, hplace, hb, by omega⟩, ?_⟩
  rintro ⟨a', c', ha', hc', hle⟩ ⟨c'', b', hc'', hb', hle'⟩
  cases ha.symm.trans ha'
  cases hb.symm.trans hb'
  cases hc.symm.trans hc'
  cases hc.symm.trans hc''
  simp only [Binary.numEq, hplace, hc, beq_iff_eq]
  omega

theorem clamped?_of_crossed (h : max.Le min) (value : Double) :
    (float min max value).clamped? = some min := by
  have hnot : min.lt (max.lesser value) = false := by
    rw [Double.lesser]
    split
    · next hvalue =>
      obtain ⟨b, a, hb, ha, hba⟩ := h
      simp only [Binary.lt, ha, hb] at hvalue ⊢
      cases hc : value.place with
      | none => rfl
      | some c =>
        simp only [hc, decide_eq_true_eq] at hvalue
        simp only [decide_eq_false_iff_not]
        omega
    · exact Double.lt_of_le h
  rw [clamped?, Double.greater, hnot]
  rfl

/-- A number that is none is brought to the upper bound. -/
theorem clamped?_of_isNan (h : min.Le max) (hvalue : value.isNan) :
    ∃ x, (float min max value).clamped? = some x ∧ x.numEq max := by
  have hlesser : max.lesser value = max := by
    cases value with
    | nan s => rfl
    | number s r => cases hvalue
  obtain ⟨a, b, ha, hb, hab⟩ := h
  refine ⟨_, rfl, ?_⟩
  rw [hlesser]
  simp only [Binary.numEq, Double.place_greater ha hb, hb, beq_iff_eq]
  omega

theorem clamp_clamp (c : Control) : c.clamp.clamp = c.clamp := by
  cases c with
  | float min max value =>
    simp only [clamp, float.injEq, true_and]
    cases hvalue : value.lt max <;> cases hmin : min.lt value <;> cases hbounds : min.lt max <;>
      simp [Double.greater, Double.lesser, hvalue, hmin, hbounds, Double.lt_self]
  | vec3 value => rfl
  | color value => rfl
  | bool value => rfl
  | bare => rfl
  | foreign => rfl

theorem memberType?_clamp (c : Control) : c.clamp.memberType? = c.memberType? := by
  cases c <;> rfl

theorem memberType?_change (c : Control) (change : Change) :
    (c.change change).memberType? = c.memberType? := by
  cases c <;> cases change <;> rfl

theorem sameComponents_self {xs : List Double} (h : ∀ x ∈ xs, x.isNan = false) :
    sameComponents xs xs := by
  induction xs with
  | nil => rfl
  | cons x xs ih =>
    obtain ⟨hx, hxs⟩ := List.forall_mem_cons.mp h
    rw [sameComponents, Binary.numEq_self hx, ih hxs]
    rfl

/-- The numbers of a control, the bounds included. -/
def numbers : Control → List Double
  | float min max value => [min, max, value]
  | vec3 value | color value => value
  | bool _ | bare | foreign => []

theorem same_self {c : Control} (hc : c ≠ .foreign) (h : ∀ x ∈ c.numbers, x.isNan = false) :
    c.same c := by
  cases c with
  | float min max value =>
    simp only [numbers, List.forall_mem_cons] at h
    obtain ⟨hmin, hmax, hvalue, -⟩ := h
    rw [same, Binary.numEq_self hmin, Binary.numEq_self hmax, Binary.numEq_self hvalue]
    rfl
  | vec3 value => exact sameComponents_self h
  | color value => exact sameComponents_self h
  | bool value => exact beq_self_eq_true value
  | bare => rfl
  | foreign => exact absurd rfl hc

end Control

namespace Panel

variable {p p' : Panel} {index : Int} {i : Nat} {s : Slider} {c : Change} {name : String}

/-- An index counts the sliders from the front, or from the end if it is negative. -/
theorem place?_eq_some :
    p.place? index = some i ↔
      i < p.sliders.length ∧ (index = i ∨ index = (i : Int) - p.sliders.length) := by
  rw [place?]
  split <;> simp only [Option.ite_none_right_eq_some, Option.some.injEq] <;> omega

theorem drop?_add (p : Panel) (s : Slider) : (p.add s).drop? (-1) = some (s, p) := by
  have hplace : (p.add s).place? (-1) = some p.sliders.length := by
    rw [place?_eq_some, add]
    simp
  rw [drop?, hplace]
  simp [add, List.eraseIdx_append_of_length_le]

theorem find?_eq_some :
    p.find? name = some i ↔
      (∃ s, p.sliders[i]? = some s ∧ s.name = some name) ∧
        ∀ j < i, ∀ s, p.sliders[j]? = some s → s.name ≠ some name := by
  rw [find?, List.findIdx?_eq_some_iff_getElem]
  constructor
  · rintro ⟨hi, hname, hfirst⟩
    refine ⟨⟨_, List.getElem?_eq_getElem hi, beq_iff_eq.mp hname⟩, fun j hj s hs => ?_⟩
    rw [List.getElem?_eq_getElem (by omega)] at hs
    cases hs
    simpa using hfirst j hj
  · rintro ⟨⟨s, hs, hname⟩, hfirst⟩
    obtain ⟨hi, rfl⟩ := List.getElem?_eq_some_iff.mp hs
    refine ⟨hi, beq_iff_eq.mpr hname, fun j hj => ?_⟩
    simpa using hfirst j hj _ (List.getElem?_eq_getElem (by omega))

theorem find?_eq_none : p.find? name = none ↔ ∀ s ∈ p.sliders, s.name ≠ some name := by
  simp [find?]

theorem find?_congr (h : p'.sliders.map Slider.name = p.sliders.map Slider.name) (name : String) :
    p'.find? name = p.find? name := by
  have hnames (p : Panel) :
      p.find? name = (p.sliders.map Slider.name).findIdx? (· == some name) := by
    rw [find?, List.findIdx?_map]
    rfl
  rw [hnames, hnames, h]

theorem mem_floats : i ∈ p.floats ↔ ∃ s, p.sliders[i]? = some s ∧ s.control.isFloat := by
  rw [floats, List.mem_filter, List.mem_range, Option.any_eq_true]
  refine ⟨And.right, fun h => ⟨?_, h⟩⟩
  obtain ⟨s, hs, -⟩ := h
  exact (List.getElem?_eq_some_iff.mp hs).1

theorem floats_sorted (p : Panel) : p.floats.Pairwise (· < ·) :=
  List.Pairwise.filter _ List.pairwise_lt_range

theorem change?_eq_some (h : p.change? index c = some (s, p')) :
    ∃ i t, p.place? index = some i ∧ p.sliders[i]? = some t ∧
      s = { t with control := t.control.change c } ∧
      p' = { p with sliders := p.sliders.set i s } := by
  rw [change?] at h
  cases hi : p.place? index with
  | none =>
    rw [hi] at h
    cases h
  | some i =>
    rw [hi, Option.bind_eq_bind, Option.bind_some] at h
    cases ht : p.sliders[i]? with
    | none =>
      rw [ht] at h
      cases h
    | some t =>
      rw [ht] at h
      cases h
      exact ⟨i, t, rfl, ht, rfl, rfl⟩

theorem replaces_of_change? (h : p.change? index c = some (s, p')) :
    Forall₂ (fun s t => Slider.Replaces t s) p.sliders p'.sliders := by
  obtain ⟨i, t, -, ht, rfl, rfl⟩ := change?_eq_some h
  exact forall₂_set ht ⟨rfl, Control.memberType?_change t.control c⟩

theorem replaces_clampAll (p : Panel) :
    Forall₂ (fun s t => Slider.Replaces t s) p.sliders p.clampAll.sliders := by
  rw [clampAll, List.forall₂_map_right_iff]
  exact List.forall₂_same.mpr fun s _ => ⟨rfl, Control.memberType?_clamp s.control⟩

theorem members_of_replaces (h : ∀ s ∈ p.sliders, s.control.memberType?.isSome)
    (hsame : Forall₂ (fun s t => Slider.Replaces t s) p.sliders p'.sliders) :
    members p'.sliders = members p.sliders ∧ ∀ name, p'.find? name = p.find? name := by
  refine ⟨placeMembers_congr h hsame 0, find?_congr ?_⟩
  clear h
  generalize p.sliders = ss, p'.sliders = ts at hsame
  induction hsame with
  | nil => rfl
  | cons hst _ ih => rw [List.map_cons, List.map_cons, hst.name, ih]

/--
Changing a slider moves no member of the buffer and renames none, and of the bytes it changes only
those of the slider's own member.
-/
theorem change?_packBuffer (hall : ∀ s ∈ p.sliders, s.control.memberType?.isSome)
    (h : p.change? index c = some (s, p')) :
    ∃ i ms m, p.place? index = some i ∧ members p.sliders = .ok ms ∧ ms[i]? = some m ∧
      members p'.sliders = .ok ms ∧ (∀ name, p'.find? name = p.find? name) ∧
      ∀ bytes bytes', packBuffer p.sliders = .ok bytes → packBuffer p'.sliders = .ok bytes' →
        bytes'.length = bytes.length ∧ ∀ j, ¬ m.Covers j → bytes'[j]? = bytes[j]? := by
  obtain ⟨ms, hms, hplaced⟩ := placeMembers_placed hall (Nat.dvd_zero 4)
  obtain ⟨hsame, hfind⟩ := members_of_replaces hall (replaces_of_change? h)
  have hall' := isSome_of_replaces hall (replaces_of_change? h)
  obtain ⟨i, t, hi, ht, rfl, rfl⟩ := change?_eq_some h
  have hlt : i < ms.length := by
    rw [hplaced.length_eq]
    exact (place?_eq_some.mp hi).1
  refine ⟨i, ms, ms[i], hi, hms, List.getElem?_eq_getElem hlt, hsame.trans hms, hfind, ?_⟩
  intro bytes bytes' hbytes hbytes'
  refine ⟨?_, fun j hj => ?_⟩
  · rw [length_packBuffer hall hms hbytes,
      length_packBuffer hall' (hsame.trans hms) hbytes']
  · exact packBuffer_set hall hms ht (List.getElem?_eq_getElem hlt)
      (Control.memberType?_change t.control c) hbytes hbytes' hj

/-- Clamping all sliders moves no member, and a second time it changes nothing. -/
theorem clampAll_spec (hall : ∀ s ∈ p.sliders, s.control.memberType?.isSome) :
    members p.clampAll.sliders = members p.sliders ∧
      (∀ name, p.clampAll.find? name = p.find? name) ∧ p.clampAll.clampAll = p.clampAll := by
  obtain ⟨hsame, hfind⟩ := members_of_replaces hall p.replaces_clampAll
  refine ⟨hsame, hfind, ?_⟩
  simp only [clampAll, List.map_map, Function.comp_def, Control.clamp_clamp]

end Panel

end ShaderParams

import ShaderParams.Proofs.Rounding
import ShaderParams.Proofs.Std140

/-!
This module contains the packing of arbitrary sliders: which of them cannot be packed, what is read
from the places of the members, and that all other bytes are zero.
-/

namespace ShaderParams

open List (Forall₂)

def Double.Overflows (x : Double) : Prop :=
  x.isInfinite = false ∧ x.toSingle.isInfinite = true

instance (x : Double) : Decidable x.Overflows :=
  inferInstanceAs (Decidable (_ ∧ _))

theorem singleBytes_eq (x : Double) :
    singleBytes x =
      if x.Overflows then .error .outOfRange
      else .ok (littleEndian 4 (x.convert : Single).toBits) := by
  simp only [singleBytes, Double.Overflows, Double.isInfinite_toSingle, Bool.and_eq_true,
    Bool.not_eq_true', and_comm]

theorem mapM_singleBytes (xs : List Double) :
    xs.mapM singleBytes =
      if ∃ x ∈ xs, x.Overflows then .error .outOfRange
      else .ok (xs.map fun x => littleEndian 4 (x.convert : Single).toBits) := by
  induction xs with
  | nil => rfl
  | cons x xs ih =>
    rw [List.mapM_cons, singleBytes_eq, ih]
    by_cases hx : x.Overflows
    · simp [hx, bind, Except.bind]
    · by_cases hxs : ∃ x ∈ xs, x.Overflows
      · simp [hx, hxs, bind, Except.bind]
      · simp [hx, hxs, bind, Except.bind, pure, Except.pure]

theorem readSingles_flatten (xs : List Double) :
    readSingles (xs.map fun x => littleEndian 4 (x.convert : Single).toBits).flatten =
      xs.map Double.toSingle := by
  induction xs with
  | nil => rfl
  | cons x xs ih =>
    rw [List.map_cons, List.flatten_cons, readSingles_append (length_littleEndian ..), ih,
      readSingle_littleEndian]
    rfl

namespace Control

/-- The reasons for which the member of a control cannot be written. -/
inductive Unwritable : Control → BufferError → Prop where
  | components {c : Control} (vector : c.isVector) (length : c.written.length ≠ 3) :
      Unwritable c .wrongComponents
  | range {c : Control} (length : c.isVector → c.written.length = 3)
      (overflow : ∃ x ∈ c.written, x.Overflows) : Unwritable c .outOfRange

/-- Whether the bytes of a member are the value of a control. -/
def Stored (bytes : List UInt8) : Control → Prop
  | .bool value => ofLittleEndian bytes = if value = 0 then 0 else 1
  | c => readSingles bytes = c.written.map Double.toSingle

theorem Unwritable.unique {c : Control} {e e' : BufferError} (h : c.Unwritable e)
    (h' : c.Unwritable e') : e = e' := by
  cases h with
  | components vector length =>
    cases h' with
    | components _ _ => rfl
    | range length' _ => exact absurd (length' vector) length
  | range length _ =>
    cases h' with
    | components vector length' => exact absurd (length vector) length'
    | range _ _ => rfl

theorem bytes_of_isVector {c : Control} (h : c.isVector) :
    (c.bytes = if c.written.length = 3 then List.flatten <$> c.written.mapM singleBytes
      else .error .wrongComponents) ∧
    ∀ bytes, c.Stored bytes ↔ readSingles bytes = c.written.map Double.toSingle := by
  cases c with
  | vec3 value => exact ⟨rfl, fun _ => .rfl⟩
  | color value => exact ⟨rfl, fun _ => .rfl⟩
  | float min max value => cases h
  | bool value => cases h
  | bare => cases h
  | foreign => cases h

theorem bytes_cases_of_isVector {c : Control} (h : c.isVector) :
    (∃ e, c.bytes = .error e ∧ c.Unwritable e) ∨
    (∃ bytes, c.bytes = .ok bytes ∧ c.Stored bytes ∧ ∀ e, ¬ c.Unwritable e) := by
  obtain ⟨hbytes, hstored⟩ := bytes_of_isVector h
  rw [hbytes, mapM_singleBytes]
  by_cases hlength : c.written.length = 3
  · rw [if_pos hlength]
    by_cases hxs : ∃ x ∈ c.written, x.Overflows
    · rw [if_pos hxs]
      exact .inl ⟨_, rfl, .range (fun _ => hlength) hxs⟩
    · rw [if_neg hxs]
      refine .inr ⟨_, rfl, (hstored _).mpr (readSingles_flatten c.written), ?_⟩
      rintro e (⟨-, hlength'⟩ | ⟨-, hoverflow⟩)
      · exact hlength' hlength
      · exact hxs hoverflow
  · rw [if_neg hlength]
    exact .inl ⟨_, rfl, .components h hlength⟩

theorem bytes_cases {c : Control} (h : c.memberType?.isSome) :
    (∃ e, c.bytes = .error e ∧ c.Unwritable e) ∨
    (∃ bytes, c.bytes = .ok bytes ∧ c.Stored bytes ∧ ∀ e, ¬ c.Unwritable e) := by
  cases c with
  | float min max value =>
    by_cases hvalue : value.Overflows
    · refine .inl ⟨.outOfRange, ?_, .range (by simp [isVector]) ⟨value, by simp [written], hvalue⟩⟩
      rw [bytes, singleBytes_eq, if_pos hvalue]
    · refine .inr ⟨_, by rw [bytes, singleBytes_eq, if_neg hvalue], ?_, ?_⟩
      · simpa [Stored, written] using readSingles_flatten [value]
      · rintro e (⟨hvector, -⟩ | ⟨-, x, hx, hoverflow⟩)
        · cases hvector
        · cases List.mem_singleton.mp hx
          exact hvalue hoverflow
  | vec3 value => exact bytes_cases_of_isVector rfl
  | color value => exact bytes_cases_of_isVector rfl
  | bool value =>
    refine .inr ⟨_, rfl, ?_, ?_⟩
    · rw [Stored, ofLittleEndian_littleEndian]
      split <;> rfl
    · rintro e (⟨hvector, -⟩ | ⟨-, x, hx, -⟩)
      · cases hvector
      · cases hx
  | bare => cases h
  | foreign => cases h

theorem bytes_eq_error_iff {c : Control} (h : c.memberType?.isSome) (e : BufferError) :
    c.bytes = .error e ↔ c.Unwritable e := by
  obtain ⟨e', hbytes, hunwritable⟩ | ⟨bytes, hbytes, -, hwritable⟩ := bytes_cases h
  · rw [hbytes, Except.error.injEq]
    constructor
    · rintro rfl
      exact hunwritable
    · apply hunwritable.unique
  · simp [hbytes, hwritable]

theorem stored_of_bytes {c : Control} {bytes : List UInt8} (h : c.memberType?.isSome)
    (hbytes : c.bytes = .ok bytes) : c.Stored bytes := by
  obtain ⟨e, herror, -⟩ | ⟨bytes', hbytes', hstored, -⟩ := bytes_cases h
  · cases hbytes.symm.trans herror
  · cases hbytes.symm.trans hbytes'
    exact hstored

end Control

/-!
The whole buffer.
-/

/-- The first of the sliders that cannot be written gives an error. -/
def FirstUnwritable (ss : List Slider) (e : BufferError) : Prop :=
  ∃ before s behind, ss = before ++ s :: behind ∧
    (∀ t ∈ before, ∀ e', ¬ t.control.Unwritable e') ∧ s.control.Unwritable e

theorem firstUnwritable_cons {s : Slider} {ss : List Slider} {e : BufferError} :
    FirstUnwritable (s :: ss) e ↔
      s.control.Unwritable e ∨ (∀ e', ¬ s.control.Unwritable e') ∧ FirstUnwritable ss e := by
  constructor
  · rintro ⟨_ | ⟨t, before⟩, u, behind, hsplit, hbefore, hu⟩
    · cases hsplit
      exact .inl hu
    · cases hsplit
      obtain ⟨hs, hbefore⟩ := List.forall_mem_cons.mp hbefore
      exact .inr ⟨hs, before, u, behind, rfl, hbefore, hu⟩
  · rintro (hs | ⟨hs, before, u, behind, rfl, hbefore, hu⟩)
    · exact ⟨[], s, ss, rfl, by simp, hs⟩
    · exact ⟨s :: before, u, behind, rfl, List.forall_mem_cons.mpr ⟨hs, hbefore⟩, hu⟩

theorem exists_bytes_or_firstUnwritable {ss : List Slider}
    (h : ∀ s ∈ ss, s.control.memberType?.isSome) :
    (∀ s ∈ ss, ∃ own, s.control.bytes = .ok own) ∨ ∃ e, FirstUnwritable ss e := by
  induction ss with
  | nil => exact .inl (by simp)
  | cons s ss ih =>
    obtain ⟨hs, hss⟩ := List.forall_mem_cons.mp h
    obtain ⟨e, -, hunwritable⟩ | ⟨own, hown, -, hwritable⟩ := Control.bytes_cases hs
    · exact .inr ⟨e, firstUnwritable_cons.mpr (.inl hunwritable)⟩
    · obtain hall | ⟨e, hfirst⟩ := ih hss
      · exact .inl (List.forall_mem_cons.mpr ⟨⟨own, hown⟩, hall⟩)
      · exact .inr ⟨e, firstUnwritable_cons.mpr (.inr ⟨hwritable, hfirst⟩)⟩

theorem writeMembers_error_iff {ss : List Slider} {offset : Nat} {ms : List Member}
    (h : ∀ s ∈ ss, s.control.memberType?.isSome) (hms : placeMembers offset ss = .ok ms)
    {buffer : List UInt8} (hroom : endOf offset ms ≤ buffer.length) (e : BufferError) :
    writeMembers buffer (ss.zip ms) = .error e ↔ FirstUnwritable ss e := by
  induction ss generalizing offset ms buffer with
  | nil => simp [writeMembers, FirstUnwritable]
  | cons s ss ih =>
    obtain ⟨m, ms, rfl, -, hms, alignment, hextent⟩ := placeMembers_cons hms
    obtain ⟨hs, hss⟩ := List.forall_mem_cons.mp h
    rw [endOf_cons] at hroom
    have hstop : m.stop ≤ buffer.length := Nat.le_trans (le_endOf hms) hroom
    rw [List.zip_cons_cons, writeMembers, packInto_eq hextent hstop, firstUnwritable_cons]
    obtain ⟨e', hbytes, hunwritable⟩ | ⟨own, hbytes, -, hwritable⟩ := Control.bytes_cases hs
    · have hnot : ¬ ∀ e', ¬ s.control.Unwritable e' := fun hall => hall e' hunwritable
      rw [← Control.bytes_eq_error_iff hs, hbytes]
      simp only [hnot, false_and, or_false]
      exact .rfl
    · have hlength : (overwrite buffer m.offset own).length = buffer.length := by
        apply length_overwrite
        rw [length_bytes hextent hbytes]
        exact hstop
      rw [hbytes]
      simp only [hwritable, false_or, not_false_eq_true, implies_true, true_and]
      exact ih hss hms (by rw [hlength]; exact hroom)

theorem packBuffer_error_iff {ss : List Slider} {ms : List Member}
    (h : ∀ s ∈ ss, s.control.memberType?.isSome) (hms : members ss = .ok ms) (e : BufferError) :
    packBuffer ss = .error e ↔ FirstUnwritable ss e := by
  rw [packBuffer_eq hms, writeMembers_error_iff h hms (endOf_le_length ms)]

theorem packBuffer_holds {ss : List Slider} {ms : List Member}
    (h : ∀ s ∈ ss, s.control.memberType?.isSome) (hms : members ss = .ok ms) {bytes : List UInt8}
    (hbytes : packBuffer ss = .ok bytes) :
    bufferSize ss = .ok bytes.length ∧
      Forall₂ (fun s m => m.stop ≤ bytes.length ∧ s.control.bytes = .ok (m.region bytes)) ss ms ∧
      ∀ i < bytes.length, (∀ m ∈ ms, ¬ m.Covers i) → bytes[i]? = some 0 := by
  obtain hwritable | ⟨e, hfirst⟩ := exists_bytes_or_firstUnwritable h
  · obtain ⟨bytes', hbytes', hholds⟩ := packBuffer_spec hms hwritable
    cases hbytes.symm.trans hbytes'
    exact hholds
  · cases hbytes.symm.trans ((packBuffer_error_iff h hms e).mpr hfirst)

theorem length_packBuffer {ss : List Slider} {ms : List Member}
    (h : ∀ s ∈ ss, s.control.memberType?.isSome) (hms : members ss = .ok ms) {bytes : List UInt8}
    (hbytes : packBuffer ss = .ok bytes) :
    bytes.length = alignUp (endOf 0 ms) blockAlignment := by
  have hsize := (packBuffer_holds h hms hbytes).1
  rw [bufferSize_eq hms] at hsize
  exact (Except.ok.inj hsize).symm

/-!
A slider with another value in its place.
-/

theorem Control.isVector_eq (c : Control) : c.isVector = (c.memberType? == some "vec3") := by
  cases c <;> rfl

/-- Whether one slider feeds the same member as another. -/
structure Slider.Replaces (t s : Slider) : Prop where
  name : t.name = s.name
  memberType : t.control.memberType? = s.control.memberType?

theorem Slider.Replaces.refl (s : Slider) : s.Replaces s :=
  ⟨rfl, rfl⟩

theorem Slider.Replaces.nextMember_eq {t s : Slider} (h : t.Replaces s) (offset : Nat) :
    nextMember offset t = nextMember offset s := by
  simp only [nextMember, Control.isVector_eq, h.name, h.memberType]

theorem placeMembers_congr {ss ts : List Slider} (h : ∀ s ∈ ss, s.control.memberType?.isSome)
    (hsame : Forall₂ (fun s t => Slider.Replaces t s) ss ts) (offset : Nat) :
    placeMembers offset ts = placeMembers offset ss := by
  induction hsame generalizing offset with
  | nil => rfl
  | cons hst _ ih =>
    obtain ⟨hs, hss⟩ := List.forall_mem_cons.mp h
    rw [placeMembers_cons_of_isSome (by rw [hst.memberType]; exact hs),
      placeMembers_cons_of_isSome hs, hst.nextMember_eq, ih hss]

theorem forall₂_set {ss : List Slider} {i : Nat} {s t : Slider} (hs : ss[i]? = some s)
    (ht : t.Replaces s) : Forall₂ (fun s t => Slider.Replaces t s) ss (ss.set i t) := by
  rw [List.forall₂_iff_get]
  refine ⟨by simp, fun j hj hj' => ?_⟩
  simp only [List.get_eq_getElem, List.getElem_set]
  split
  · next hij =>
    subst hij
    rw [List.getElem?_eq_getElem hj] at hs
    cases hs
    exact ht
  · exact .refl _

theorem isSome_of_replaces {ss ts : List Slider} (h : ∀ s ∈ ss, s.control.memberType?.isSome)
    (hsame : Forall₂ (fun s t => Slider.Replaces t s) ss ts) :
    ∀ t ∈ ts, t.control.memberType?.isSome := by
  induction hsame with
  | nil => exact h
  | cons hst _ ih =>
    obtain ⟨hs, hss⟩ := List.forall_mem_cons.mp h
    exact List.forall_mem_cons.mpr ⟨by rw [hst.memberType]; exact hs, ih hss⟩

theorem packBuffer_set {ss : List Slider} (h : ∀ s ∈ ss, s.control.memberType?.isSome)
    {ms : List Member} (hms : members ss = .ok ms) {i : Nat} {s : Slider} {m : Member}
    (hs : ss[i]? = some s) (hm : ms[i]? = some m) {c : Control}
    (hc : c.memberType? = s.control.memberType?) {bytes bytes' : List UInt8}
    (hbytes : packBuffer ss = .ok bytes)
    (hbytes' : packBuffer (ss.set i { s with control := c }) = .ok bytes') {j : Nat}
    (hj : ¬ m.Covers j) : bytes'[j]? = bytes[j]? := by
  have hreplaces : Slider.Replaces { s with control := c } s := ⟨rfl, hc⟩
  have hms' : members (ss.set i { s with control := c }) = .ok ms :=
    (placeMembers_congr h (forall₂_set hs hreplaces) 0).trans hms
  have h' := isSome_of_replaces h (forall₂_set hs hreplaces)
  obtain ⟨-, hregions, hzero⟩ := packBuffer_holds h hms hbytes
  obtain ⟨-, hregions', hzero'⟩ := packBuffer_holds h' hms' hbytes'
  have hsame : bytes'.length = bytes.length := by
    rw [length_packBuffer h hms hbytes, length_packBuffer h' hms' hbytes']
  have hlength := hregions.length_eq
  by_cases hcovers : ∃ m' ∈ ms, m'.Covers j
  · obtain ⟨m', hm', hcovers⟩ := hcovers
    obtain ⟨k, hk, rfl⟩ := List.mem_iff_getElem.mp hm'
    have hki : i ≠ k := by
      rintro rfl
      rw [List.getElem?_eq_getElem hk] at hm
      cases hm
      exact hj hcovers
    have hregion := (hregions.get (by omega) hk).2
    have hregion' := (hregions'.get (by simpa using by omega) hk).2
    simp only [List.get_eq_getElem, List.getElem_set_ne hki] at hregion hregion'
    rw [hregion, Except.ok.injEq] at hregion'
    rw [← Member.getElem?_region hcovers, ← Member.getElem?_region hcovers, hregion']
  · have hout : ∀ m' ∈ ms, ¬ m'.Covers j := fun m' hm' hj => hcovers ⟨m', hm', hj⟩
    by_cases hlt : j < bytes.length
    · rw [hzero j hlt hout, hzero' j (by omega) hout]
    · rw [List.getElem?_eq_none (by omega), List.getElem?_eq_none (by omega)]

/--
Packing fails with the error of the first slider that cannot be written, where vectors are counted
before their numbers are looked at. Otherwise the buffer has its size, the values of the sliders are
read from the places of their members, and all other bytes are zero, so that another value of a
slider changes nothing but its own member.
-/
theorem packBuffer_members {ss : List Slider} (h : ∀ s ∈ ss, s.control.memberType?.isSome) :
    (∀ e, packBuffer ss = .error e ↔ FirstUnwritable ss e) ∧
    ∀ bytes, packBuffer ss = .ok bytes →
      ∃ ms, members ss = .ok ms ∧ bufferSize ss = .ok bytes.length ∧
        Forall₂ (fun s m => m.stop ≤ bytes.length ∧ s.control.Stored (m.region bytes)) ss ms ∧
        (∀ j < bytes.length, (∀ m ∈ ms, ¬ m.Covers j) → bytes[j]? = some 0) ∧
        ∀ i s m c bytes', ss[i]? = some s → ms[i]? = some m →
          c.memberType? = s.control.memberType? →
          packBuffer (ss.set i { s with control := c }) = .ok bytes' →
          ∀ j, ¬ m.Covers j → bytes'[j]? = bytes[j]? := by
  obtain ⟨ms, hms, -⟩ := placeMembers_placed h (Nat.dvd_zero 4)
  constructor
  · apply packBuffer_error_iff h hms
  · intro bytes hbytes
    obtain ⟨hsize, hregions, hzero⟩ := packBuffer_holds h hms hbytes
    refine ⟨ms, hms, hsize, ?_, hzero, ?_⟩
    · refine ((List.forall₂_and_left _ _).mpr ⟨h, hregions⟩).imp ?_
      rintro s m ⟨hs, hstop, hregion⟩
      exact ⟨hstop, Control.stored_of_bytes hs hregion⟩
    · intro i s m c bytes' hs hm hc hbytes' j hj
      exact packBuffer_set h hms hs hm hc hbytes hbytes' hj

def looseSliders : List Slider :=
  [⟨some "gain", .float (.zero false) .one (.ofFraction false 1 10)⟩, ⟨some "on", .bool (-7)⟩,
    ⟨some "tint", .color [.infinite true, .ofFraction true 1 3, .zero true]⟩]

def brokenSliders : List Slider :=
  [⟨some "far", .vec3 [.one, .one]⟩,
    ⟨some "huge", .float .one .one (.ofFraction false (10 ^ 39) 1)⟩]

theorem packBuffer_members_looseSliders :
    (∀ s ∈ looseSliders ++ brokenSliders, s.control.memberType?.isSome) ∧
      (∃ bytes ms, packBuffer looseSliders = .ok bytes ∧ members looseSliders = .ok ms ∧
        bufferSize looseSliders = .ok bytes.length ∧
        Forall₂ (fun s m => m.stop ≤ bytes.length ∧ s.control.Stored (m.region bytes))
          looseSliders ms ∧
        ∀ j < bytes.length, (∀ m ∈ ms, ¬ m.Covers j) → bytes[j]? = some 0) ∧
      FirstUnwritable (looseSliders ++ brokenSliders) .wrongComponents ∧
      FirstUnwritable (looseSliders ++ brokenSliders.reverse) .outOfRange := by
  have hall : ∀ s ∈ looseSliders ++ brokenSliders, s.control.memberType?.isSome := by decide
  have hloose : ∀ s ∈ looseSliders, s.control.memberType?.isSome := by decide
  have hreverse : ∀ s ∈ looseSliders ++ brokenSliders.reverse, s.control.memberType?.isSome := by
    decide
  have hok : (packBuffer looseSliders).isOk := by decide +kernel
  have hcount : packBuffer (looseSliders ++ brokenSliders) = .error .wrongComponents := by
    decide +kernel
  have hrange : packBuffer (looseSliders ++ brokenSliders.reverse) = .error .outOfRange := by
    decide +kernel
  cases hbytes : packBuffer looseSliders with
  | error e =>
    rw [hbytes] at hok
    cases hok
  | ok bytes =>
    obtain ⟨ms, hms, hsize, hregions, hzero, -⟩ := (packBuffer_members hloose).2 bytes hbytes
    exact ⟨hall, ⟨bytes, ms, rfl, hms, hsize, hregions, hzero⟩,
      ((packBuffer_members hall).1 _).mp hcount, ((packBuffer_members hreverse).1 _).mp hrange⟩

end ShaderParams

import Mathlib.Data.List.Forall2
import ShaderParams.Slider.Buffer

/-!
This module contains the theory of the uniform buffer: stored numbers can be read back, and packing
writes the bytes of every member to its place.
-/

namespace ShaderParams

open List (Forall₂)

-- Powers of natural numbers are the built-in ones, whatever other instances are in scope.
attribute [local instance (2000)] instPowNat

def ofLittleEndian : List UInt8 → Nat
  | [] => 0
  | b :: bs => b.toNat + 256 * ofLittleEndian bs

theorem ofLittleEndian_littleEndian (count n : Nat) :
    ofLittleEndian (littleEndian count n) = n % 256 ^ count := by
  induction count generalizing n with
  | zero => simp [littleEndian, ofLittleEndian, Nat.mod_one]
  | succ count ih =>
    rw [littleEndian, ofLittleEndian, ih, UInt8.toNat_ofNat', Nat.pow_succ 256,
      Nat.mul_comm _ 256, Nat.mod_mul]

namespace Binary

variable {f : Format}

theorem infinity_add (f : Format) : f.infinity + 2 ^ f.fractionBits = signPlace f := by
  have hpos := Nat.two_pow_pos f.exponentBits
  rw [Format.infinity, signPlace, ← Nat.succ_mul, Nat.pow_add]
  congr 1
  omega

theorem ofBits_sign_add {m : Nat} (s : Bool) (h : m < signPlace f) :
    ofBits f ((if s then signPlace f else 0) + m) =
      if hm : m ≤ f.infinity then .number s ⟨m, Nat.lt_succ_of_le hm⟩ else .nan s := by
  have hpos : 0 < signPlace f := Nat.two_pow_pos _
  rw [ofBits]
  cases s with
  | false => simp [Nat.mod_eq_of_lt h, Nat.div_eq_of_lt h]
  | true =>
    simp [Nat.add_mod_left, Nat.mod_eq_of_lt h, Nat.add_div_left _ hpos, Nat.div_eq_of_lt h]

theorem ofBits_toBits (hf : 0 < f.fractionBits) (x : Binary f) : ofBits f x.toBits = x := by
  have hplace := infinity_add f
  cases x with
  | nan s =>
    have hhalf : 2 ^ (f.fractionBits - 1) < 2 ^ f.fractionBits :=
      Nat.pow_lt_pow_right (by decide) (by omega)
    have hpos := Nat.two_pow_pos (f.fractionBits - 1)
    rw [toBits, Nat.add_assoc, negative, ofBits_sign_add s (by omega), dif_neg (by omega)]
  | number s r =>
    have hpos := Nat.two_pow_pos f.fractionBits
    have hr := r.isLt
    rw [toBits, negative, ofBits_sign_add s (by omega), dif_pos (by omega)]

theorem toBits_lt (hf : 0 < f.fractionBits) (x : Binary f) : x.toBits < 2 * signPlace f := by
  have hplace := infinity_add f
  have hhalf : 2 ^ (f.fractionBits - 1) < 2 ^ f.fractionBits :=
    Nat.pow_lt_pow_right (by decide) (by omega)
  have hpos := Nat.two_pow_pos (f.fractionBits - 1)
  cases x with
  | nan s =>
    simp only [toBits]
    split <;> omega
  | number s r =>
    have hr := r.isLt
    simp only [toBits]
    split <;> omega

end Binary

/-- The single precision number that is stored in four bytes. -/
def readSingle (bytes : List UInt8) : Double :=
  (Binary.ofBits .single (ofLittleEndian bytes)).convert

def readSingles : List UInt8 → List Double
  | b₀ :: b₁ :: b₂ :: b₃ :: bytes => readSingle [b₀, b₁, b₂, b₃] :: readSingles bytes
  | _ => []

theorem readSingles_append {bytes : List UInt8} (h : bytes.length = 4) (rest : List UInt8) :
    readSingles (bytes ++ rest) = readSingle bytes :: readSingles rest := by
  match bytes, h with
  | [_, _, _, _], _ => rfl

theorem readSingle_littleEndian (s : Single) :
    readSingle (littleEndian 4 s.toBits) = s.convert := by
  have hlt : s.toBits < 256 ^ 4 := Nat.lt_of_lt_of_eq (s.toBits_lt (by decide)) (by decide)
  rw [readSingle, ofLittleEndian_littleEndian, Nat.mod_eq_of_lt hlt, s.ofBits_toBits (by decide)]

theorem length_singleBytes {x : Double} {bytes : List UInt8} (h : singleBytes x = .ok bytes) :
    bytes.length = 4 := by
  rw [singleBytes] at h
  split at h
  · cases h
  · cases h
    apply length_littleEndian

def Control.written : Control → List Double
  | .float _ _ value => [value]
  | .vec3 value | .color value => value
  | .bool _ | .bare | .foreign => []

/-!
The places of the members, and the bytes that packing writes there.
-/

/-- The end of the last of a sequence of members, or an offset in front of all of them. -/
def endOf (offset : Nat) (ms : List Member) : Nat :=
  (ms.getLast?.map Member.stop).getD offset

theorem endOf_cons (offset : Nat) (m : Member) (ms : List Member) :
    endOf offset (m :: ms) = endOf m.stop ms := by
  rw [endOf, endOf, List.getLast?_cons]
  cases ms.getLast? <;> rfl

theorem vector_bytes_eq_ok {xs : List Double} {bytes : List UInt8}
    (h : (Control.vec3 xs).bytes = .ok bytes) :
    ∃ x y z a b c, xs = [x, y, z] ∧ singleBytes x = .ok a ∧ singleBytes y = .ok b ∧
      singleBytes z = .ok c ∧ bytes = a ++ (b ++ c) := by
  rw [Control.bytes] at h
  split at h
  · next hxs =>
    obtain ⟨x, y, z, rfl⟩ := List.length_eq_three.mp hxs
    cases hx : singleBytes x with
    | error e => simp [hx, bind, Except.bind, Functor.map, Except.map] at h
    | ok a =>
      cases hy : singleBytes y with
      | error e => simp [hx, hy, bind, Except.bind, Functor.map, Except.map] at h
      | ok b =>
        cases hz : singleBytes z with
        | error e => simp [hx, hy, hz, bind, Except.bind, Functor.map, Except.map] at h
        | ok c =>
          simp [hx, hy, hz, bind, Except.bind, Functor.map, Except.map, pure, Except.pure] at h
          exact ⟨x, y, z, a, b, c, rfl, hx, hy, hz, h.symm⟩
  · cases h

theorem length_bytes {c : Control} {bytes : List UInt8} {size alignment : Nat}
    (hextent : c.extent? = some (size, alignment)) (h : c.bytes = .ok bytes) :
    bytes.length = size := by
  have hvector {xs : List Double} (h : (Control.vec3 xs).bytes = .ok bytes) :
      bytes.length = 12 := by
    obtain ⟨x, y, z, a, b, c, -, hx, hy, hz, rfl⟩ := vector_bytes_eq_ok h
    rw [List.length_append, List.length_append, length_singleBytes hx, length_singleBytes hy,
      length_singleBytes hz]
  cases c with
  | float min max value =>
    cases hextent
    exact length_singleBytes h
  | bool value =>
    cases hextent
    cases h
    apply length_littleEndian
  | vec3 value =>
    cases hextent
    exact hvector h
  | color value =>
    cases hextent
    exact hvector h
  | bare => cases h
  | foreign => cases h

theorem alignment_pos {c : Control} {size alignment : Nat}
    (h : c.extent? = some (size, alignment)) : 0 < alignment := by
  cases c <;> simp_all [Control.extent?] <;> omega

theorem placeMembers_cons {s : Slider} {ss : List Slider} {offset : Nat} {ms : List Member}
    (h : placeMembers offset (s :: ss) = .ok ms) :
    ∃ m ms', ms = m :: ms' ∧ offset ≤ m.offset ∧ placeMembers m.stop ss = .ok ms' ∧
      ∃ alignment, s.control.extent? = some (m.size, alignment) := by
  rw [placeMembers] at h
  split at h
  · cases h
  · next size alignment hextent =>
    dsimp only at h
    generalize hm : (⟨s.name, alignUp offset alignment, size⟩ : Member) = m at h
    cases hms : placeMembers m.stop ss with
    | error e =>
      rw [hms] at h
      cases h
    | ok ms' =>
      rw [hms] at h
      cases h
      subst hm
      exact ⟨_, _, rfl, le_alignUp offset (alignment_pos hextent), hms, alignment, hextent⟩

theorem le_endOf {ss : List Slider} {offset : Nat} {ms : List Member}
    (h : placeMembers offset ss = .ok ms) : offset ≤ endOf offset ms := by
  induction ss generalizing offset ms with
  | nil =>
    cases h
    exact Nat.le_refl offset
  | cons s ss ih =>
    obtain ⟨m, ms, rfl, hoffset, hms, -⟩ := placeMembers_cons h
    have hstop := ih hms
    rw [endOf_cons]
    rw [Member.stop] at hstop ⊢
    omega

theorem bufferSize_eq {ss : List Slider} {ms : List Member} (h : members ss = .ok ms) :
    bufferSize ss = .ok (alignUp (endOf 0 ms) blockAlignment) := by
  rw [bufferSize, h, endOf]
  simp only [bind, Except.bind]
  cases ms.getLast? <;> rfl

/-!
A write changes the bytes at its own place only.
-/

section

variable {buffer bytes : List UInt8} {offset : Nat}

theorem length_overwrite (h : offset + bytes.length ≤ buffer.length) :
    (overwrite buffer offset bytes).length = buffer.length := by
  simp only [overwrite, List.length_append, List.length_take, List.length_drop]
  omega

theorem getElem?_overwrite (h : offset + bytes.length ≤ buffer.length) (i : Nat) :
    (overwrite buffer offset bytes)[i]? =
      if offset ≤ i ∧ i < offset + bytes.length then bytes[i - offset]? else buffer[i]? := by
  have htake : (buffer.take offset).length = offset := List.length_take_of_le (by omega)
  rw [overwrite]
  by_cases hlt : i < offset
  · rw [if_neg (by omega), List.getElem?_append_left (by omega), List.getElem?_take_of_lt hlt]
  · rw [List.getElem?_append_right (by omega), htake]
    split
    · rw [List.getElem?_append_left (by omega)]
    · rw [List.getElem?_append_right (by omega), List.getElem?_drop]
      congr 1
      omega

end

namespace Member

variable {m : Member} {i : Nat} {bytes bytes' : List UInt8}

def region (m : Member) (bytes : List UInt8) : List UInt8 :=
  (bytes.drop m.offset).take m.size

/-- Whether a byte belongs to a member. -/
def Covers (m : Member) (i : Nat) : Prop :=
  m.offset ≤ i ∧ i < m.stop

theorem getElem?_region (h : m.Covers i) (bytes : List UInt8) :
    (m.region bytes)[i - m.offset]? = bytes[i]? := by
  obtain ⟨hle, hlt⟩ := h
  rw [stop] at hlt
  rw [region, List.getElem?_take, if_pos (by omega), List.getElem?_drop, Nat.add_sub_cancel' hle]

theorem region_congr (h : ∀ i, m.Covers i → bytes[i]? = bytes'[i]?) :
    m.region bytes = m.region bytes' := by
  apply List.ext_getElem?
  intro i
  rw [region, region, List.getElem?_take, List.getElem?_take]
  split
  · rw [List.getElem?_drop, List.getElem?_drop]
    apply h
    rw [Covers, stop]
    omega
  · rfl

theorem region_overwrite {buffer : List UInt8} (hroom : m.stop ≤ buffer.length)
    (hsize : bytes.length = m.size) : m.region (overwrite buffer m.offset bytes) = bytes := by
  rw [stop] at hroom
  apply List.ext_getElem?
  intro i
  rw [region, List.getElem?_take]
  split
  · rw [List.getElem?_drop, getElem?_overwrite (by omega), if_pos (by omega),
      Nat.add_sub_cancel_left]
  · rw [List.getElem?_eq_none (by omega)]

end Member

theorem packInto_eq {c : Control} {m : Member} {alignment : Nat} {buffer : List UInt8}
    (hextent : c.extent? = some (m.size, alignment)) (hroom : m.stop ≤ buffer.length) :
    c.packInto buffer m.offset = overwrite buffer m.offset <$> c.bytes := by
  rw [Member.stop] at hroom
  rw [Control.packInto, hextent]
  exact if_neg (by omega)

/--
Members that have room in a buffer are written to their places, and all other bytes stay as they
are. No member goes over the one in front of it.
-/
theorem writeMembers_spec {ss : List Slider} {offset : Nat} {ms : List Member}
    (hms : placeMembers offset ss = .ok ms)
    (hbytes : ∀ s ∈ ss, ∃ bytes, s.control.bytes = .ok bytes)
    {buffer : List UInt8} (hroom : endOf offset ms ≤ buffer.length) :
    ∃ bytes, writeMembers buffer (ss.zip ms) = .ok bytes ∧ bytes.length = buffer.length ∧
      Forall₂ (fun s m => m.stop ≤ bytes.length ∧ s.control.bytes = .ok (m.region bytes)) ss ms ∧
      (∀ m ∈ ms, offset ≤ m.offset) ∧
      ∀ i, (∀ m ∈ ms, ¬ m.Covers i) → bytes[i]? = buffer[i]? := by
  induction ss generalizing offset ms buffer with
  | nil =>
    cases hms
    exact ⟨buffer, rfl, rfl, .nil, by simp, fun _ _ => rfl⟩
  | cons s ss ih =>
    obtain ⟨m, ms, rfl, hoffset, hms, alignment, hextent⟩ := placeMembers_cons hms
    obtain ⟨⟨own, hown⟩, hbytes⟩ := List.forall_mem_cons.mp hbytes
    have hsize := length_bytes hextent hown
    rw [endOf_cons] at hroom
    have hstop : m.stop ≤ buffer.length := Nat.le_trans (le_endOf hms) hroom
    have hfit : m.offset + own.length ≤ buffer.length := by
      rw [hsize]
      exact hstop
    have hlength := length_overwrite hfit
    rw [← hlength] at hroom
    obtain ⟨bytes, hwrite, hsame, hregions, hbehind, hkept⟩ := ih hms hbytes hroom
    have hregion : m.region bytes = own := by
      rw [← Member.region_overwrite hstop hsize]
      refine Member.region_congr fun i hi => hkept i fun m' hm' hi' => ?_
      exact absurd (Nat.lt_of_lt_of_le hi.2 (hbehind m' hm')) (Nat.not_lt.mpr hi'.1)
    refine ⟨bytes, ?_, hsame.trans hlength, .cons ?_ hregions, ?_, fun i hi => ?_⟩
    · rw [List.zip_cons_cons, writeMembers, packInto_eq hextent hstop, hown]
      exact hwrite
    · rw [hregion, hsame, hlength]
      exact ⟨hstop, hown⟩
    · refine List.forall_mem_cons.mpr ⟨hoffset, fun m' hm' => ?_⟩
      have := hbehind m' hm'
      rw [Member.stop] at this
      omega
    · obtain ⟨hm, hi⟩ := List.forall_mem_cons.mp hi
      rw [hkept i hi, getElem?_overwrite hfit, if_neg]
      rwa [Member.Covers, Member.stop, ← hsize] at hm

theorem packBuffer_eq {ss : List Slider} {ms : List Member} (h : members ss = .ok ms) :
    packBuffer ss =
      writeMembers (List.replicate (alignUp (endOf 0 ms) blockAlignment) 0) (ss.zip ms) := by
  rw [packBuffer, bufferSize_eq h, h]
  rfl

theorem endOf_le_length (ms : List Member) :
    endOf 0 ms ≤ (List.replicate (alignUp (endOf 0 ms) blockAlignment) (0 : UInt8)).length := by
  rw [List.length_replicate]
  apply le_alignUp
  decide

theorem packBuffer_spec {ss : List Slider} {ms : List Member} (hms : members ss = .ok ms)
    (hbytes : ∀ s ∈ ss, ∃ bytes, s.control.bytes = .ok bytes) :
    ∃ bytes, packBuffer ss = .ok bytes ∧ bufferSize ss = .ok bytes.length ∧
      Forall₂ (fun s m => m.stop ≤ bytes.length ∧ s.control.bytes = .ok (m.region bytes)) ss ms ∧
      ∀ i < bytes.length, (∀ m ∈ ms, ¬ m.Covers i) → bytes[i]? = some 0 := by
  obtain ⟨bytes, hwrite, hlength, hregions, -, hkept⟩ :=
    writeMembers_spec hms hbytes (endOf_le_length ms)
  rw [List.length_replicate] at hlength
  refine ⟨bytes, ?_, ?_, hregions, fun i hi hout => ?_⟩
  · rw [packBuffer_eq hms, hwrite]
  · rw [bufferSize_eq hms, hlength]
  · rw [hkept i hout, List.getElem?_replicate, if_pos (by omega)]

end ShaderParams

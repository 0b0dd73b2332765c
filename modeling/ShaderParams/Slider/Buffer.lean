import ShaderParams.Slider.Basic

/-!
This module contains the uniform buffer that feeds the sliders to a shader: the place of every
member by the std140 rules, and the bytes of the whole buffer.
-/

namespace ShaderParams

def alignUp (n alignment : Nat) : Nat :=
  (n + alignment - 1) / alignment * alignment

theorem le_alignUp (n : Nat) {a : Nat} (h : 0 < a) : n ≤ alignUp n a := by
  have h1 := Nat.div_add_mod (n + a - 1) a
  have h2 := Nat.mod_lt (n + a - 1) h
  rw [Nat.mul_comm] at h1
  rw [alignUp]
  omega

theorem alignUp_mod (n a : Nat) : alignUp n a % a = 0 :=
  Nat.mul_mod_left ..

/--
The reasons for which sliders have no buffer: a slider that feeds no member, a number past the
single precision range, a vector without exactly three components, or a member that goes past the
end of the buffer.
-/
inductive BufferError where
  | noMember (control : Control)
  | outOfRange
  | wrongComponents
  | noRoom
deriving DecidableEq, Repr

def Control.word : Control → String
  | .foreign => "object"
  | _ => "Slider"

def BufferError.message? : BufferError → Option String
  | noMember c => some ("No buffer layout for " ++ c.word)
  | outOfRange | wrongComponents | noRoom => none

structure Member where
  name : Option String
  offset : Nat
  size : Nat
deriving DecidableEq, Repr

namespace Member

def stop (m : Member) : Nat :=
  m.offset + m.size

end Member

def Control.extent? : Control → Option (Nat × Nat)
  | .float .. | .bool _ => some (4, 4)
  | .vec3 _ | .color _ => some (12, 16)
  | .bare | .foreign => none

def blockAlignment : Nat := 16

def placeMembers (offset : Nat) : List Slider → Except BufferError (List Member)
  | [] => .ok []
  | s :: ss =>
    match s.control.extent? with
    | none => .error (.noMember s.control)
    | some (size, alignment) => do
      let m : Member := ⟨s.name, alignUp offset alignment, size⟩
      let ms ← placeMembers m.stop ss
      return m :: ms

def members (ss : List Slider) : Except BufferError (List Member) :=
  placeMembers 0 ss

/--
The size of the buffer, the padding after the last member included.
-/
def bufferSize (ss : List Slider) : Except BufferError Nat := do
  let ms ← members ss
  match ms.getLast? with
  | none => return 0
  | some m => return alignUp m.stop blockAlignment

def littleEndian (count n : Nat) : List UInt8 :=
  match count with
  | 0 => []
  | count + 1 => UInt8.ofNat n :: littleEndian count (n / 256)

@[simp]
theorem length_littleEndian (count n : Nat) : (littleEndian count n).length = count := by
  induction count generalizing n with
  | zero => rfl
  | succ count ih => simp [littleEndian, ih]

/--
The bytes of a number in single precision. A finite number may not round to infinity.
-/
def singleBytes (x : Double) : Except BufferError (List UInt8) :=
  let s : Single := x.convert
  if s.isInfinite && !x.isInfinite then
    .error .outOfRange
  else
    .ok (littleEndian 4 s.toBits)

def Control.bytes : Control → Except BufferError (List UInt8)
  | .float _ _ value => singleBytes value
  | .bool value => .ok (littleEndian 4 (if value = 0 then 0 else 1))
  | .vec3 value | .color value =>
    if value.length = 3 then
      List.flatten <$> value.mapM singleBytes
    else
      .error .wrongComponents
  | .bare => .error (.noMember .bare)
  | .foreign => .error (.noMember .foreign)

def overwrite (buffer : List UInt8) (offset : Nat) (bytes : List UInt8) : List UInt8 :=
  buffer.take offset ++ (bytes ++ buffer.drop (offset + bytes.length))

def Control.packInto (buffer : List UInt8) (offset : Nat) (c : Control) :
    Except BufferError (List UInt8) :=
  match c.extent? with
  | none => .error (.noMember c)
  | some (size, _) =>
    if buffer.length < offset + size then
      .error .noRoom
    else
      overwrite buffer offset <$> c.bytes

def writeMembers (buffer : List UInt8) : List (Slider × Member) → Except BufferError (List UInt8)
  | [] => .ok buffer
  | (s, m) :: rest => do
    let buffer ← s.control.packInto buffer m.offset
    writeMembers buffer rest

/--
The bytes of the whole buffer. What no member is written to stays zero.
-/
def packBuffer (ss : List Slider) : Except BufferError (List UInt8) := do
  let size ← bufferSize ss
  let ms ← members ss
  writeMembers (List.replicate size 0) (ss.zip ms)

end ShaderParams

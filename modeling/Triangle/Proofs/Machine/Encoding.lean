import Mathlib
import Triangle.Machine.Object
import Triangle.Proofs.Code.Listing

/-! The two binary forms of code. An object file is read exactly if it is what writing valid
instructions gives, and every 32-bit word is the packed form of one instruction. -/
namespace Triangle
open List

/-- A signed integer of a width reads back from its low bits. -/
theorem emod_bmod_of_fits {n : Int} {m : Nat} (low : -m ≤ 2 * n) (high : 2 * n < m) :
    (n % m).bmod m = n := by
  rw [Int.emod_bmod]
  exact Int.bmod_eq_of_le (by omega) (by omega)

/-! ## Operations and their codes -/

@[simp] theorem Op.code_ofCode (c : UInt8) : (Op.ofCode c).code = c := by
  revert c
  decide +kernel

@[simp] theorem Op.ofCode_code (op : Op) : Op.ofCode op.code = op := by
  cases op with
  | undefined c => exact dif_pos c.property
  | _ => rfl

theorem Op.code_small {op : Op} (named : op ∈ Op.named) : op.code.toNat < 16 := by
  revert op
  decide

namespace Object

/-! ## Integers of 32 bits -/

@[simp] theorem int32Bytes_int32OfBytes (a b c d : UInt8) :
    int32Bytes (int32OfBytes a b c d) = [a, b, c, d] := by
  have first := a.toNat_lt
  have second := b.toNat_lt
  have third := c.toNat_lt
  have fourth := d.toNat_lt
  have bits : (int32OfBytes a b c d % 0x100000000).toNat =
      a.toNat * 0x1000000 + b.toNat * 0x10000 + c.toNat * 0x100 + d.toNat := by
    have low : int32OfBytes a b c d % (0x100000000 : Nat) = _ := Int.bmod_emod
    omega
  simp only [int32Bytes, bits, List.cons.injEq, and_true, ← UInt8.toNat_inj, UInt8.toNat_ofNat']
  omega

/-- An integer of 32 bits reads back from its bytes. -/
theorem ints_int32Bytes {n : Int} (low : -0x80000000 ≤ n) (high : n < 0x80000000)
    (rest : List UInt8) :
    ints (int32Bytes n ++ rest) = (n :: (ints rest).1, (ints rest).2) := by
  have bits : ((n % 0x100000000).toNat : Int) = n % 0x100000000 := by omega
  simp only [int32Bytes, cons_append, nil_append, ints, Prod.mk.injEq, List.cons.injEq,
    and_true]
  unfold int32OfBytes
  simp only [UInt8.toNat_ofNat']
  generalize (n % 0x100000000).toNat = k at bits
  have whole : ((k / 0x1000000 % 2 ^ 8 : Nat) * 0x1000000 + (k / 0x10000 % 2 ^ 8 : Nat) * 0x10000 +
      (k / 0x100 % 2 ^ 8 : Nat) * 0x100 + (k % 2 ^ 8 : Nat) : Int) = n % 0x100000000 := by omega
  rw [whole]
  exact mod_cast emod_bmod_of_fits (m := 0x100000000) (by omega) (by omega)

/-- No byte is lost between the integers and what is left over. -/
theorem int32Bytes_ints (bytes : List UInt8) :
    (ints bytes).1.flatMap int32Bytes ++ (ints bytes).2 = bytes := by
  fun_induction ints bytes with
  | case1 a b c d rest more left split ih =>
    rw [split] at ih
    simpa using ih
  | case2 left => rfl

/-! ## Instructions -/

/-- The four integers that an object file holds for an instruction. -/
def fields (i : Instruction) : List Int := [i.op.code.toNat, i.r.index.toNat, i.n, i.d]

variable {op r n d : Int} {i : Instruction} {bytes : List UInt8} {code : List Instruction}

theorem instructionBytes_eq_fields (i : Instruction) :
    instructionBytes i = (fields i).flatMap int32Bytes := by
  simp [instructionBytes, fields]

theorem write_eq_fields (code : List Instruction) :
    write code = (code.flatMap fields).flatMap int32Bytes := by
  simp only [write, flatMap_assoc]
  exact congrArg (flatMap · code) (funext instructionBytes_eq_fields)

/-- Four integers are accepted exactly if they are those of a valid instruction. -/
theorem instruction_eq_ok :
    instruction op r n d = .ok i ↔ i.validate = .ok () ∧ [op, r, n, d] = fields i := by
  constructor
  · intro accepted
    simp only [instruction] at accepted
    split at accepted
    · cases accepted
    · rename_i inside
      split at accepted
      · rename_i valid
        cases accepted
        refine ⟨valid, ?_⟩
        simp only [fields, Op.code_ofCode, UInt8.toNat_ofNat', List.cons.injEq, and_true]
        omega
      · cases accepted
  · rintro ⟨valid, same⟩
    obtain ⟨named, register, _, _⟩ := Instruction.validate_iff.mp valid
    have small := Op.code_small named
    obtain ⟨rfl, rfl, rfl, rfl⟩ := same
    rw [instruction, if_neg (by omega)]
    simp [valid]

/-- The integers of valid instructions are read as these. -/
theorem instructions_fields (valid : ∀ i ∈ code, i.validate = .ok ()) (index : Nat) :
    instructions true index (code.flatMap fields) = .ok code := by
  induction code generalizing index with
  | nil => rfl
  | cons i code ih =>
    obtain ⟨first, rest⟩ := forall_mem_cons.mp valid
    have one := instruction_eq_ok.mpr ⟨first, rfl⟩
    simp [fields, instructions, one, ih rest]

/-- What is read as code is the integers of valid instructions, with no bytes left over. -/
theorem fields_of_instructions {whole : Bool} {index : Nat} {ints : List Int}
    (accepted : instructions whole index ints = .ok code) :
    whole = true ∧ (∀ i ∈ code, i.validate = .ok ()) ∧ ints = code.flatMap fields := by
  fun_induction instructions whole index ints generalizing code with
  | case3 index op r n d rest i one more next ih =>
    cases accepted
    obtain ⟨valid, four⟩ := instruction_eq_ok.mp one
    obtain ⟨whole, others, same⟩ := ih next
    refine ⟨whole, forall_mem_cons.mpr ⟨valid, others⟩, ?_⟩
    rw [flatMap_cons, ← four, ← same]
    rfl
  | case4 index whole =>
    cases accepted
    exact ⟨whole, by simp, rfl⟩
  | case1 | case2 | case5 | case6 => cases accepted

/-- The integers that writing valid instructions puts into a file are read back from it. -/
theorem ints_write (valid : ∀ i ∈ code, i.validate = .ok ()) :
    ints (write code) = (code.flatMap fields, []) := by
  induction code with
  | nil => rfl
  | cons i code ih =>
    obtain ⟨first, rest⟩ := forall_mem_cons.mp valid
    obtain ⟨named, register, count, displacement⟩ := Instruction.validate_iff.mp first
    have small := Op.code_small named
    have later : ints (code.flatMap instructionBytes) = (code.flatMap fields, []) := ih rest
    simp only [write, flatMap_cons, instructionBytes, append_assoc]
    rw [ints_int32Bytes (by omega) (by omega), ints_int32Bytes (by omega) (by omega),
      ints_int32Bytes (by omega) (by omega), ints_int32Bytes (by omega) (by omega), later]
    rfl

/-- Reading accepts exactly the files of valid code. -/
theorem read_eq_ok :
    read bytes = .ok code ↔ (∀ i ∈ code, i.validate = .ok ()) ∧ bytes = write code := by
  constructor
  · intro accepted
    obtain ⟨whole, valid, same⟩ := fields_of_instructions accepted
    refine ⟨valid, ?_⟩
    rw [← int32Bytes_ints bytes, isEmpty_iff.mp whole, same, write_eq_fields, append_nil]
  · rintro ⟨valid, rfl⟩
    rw [read, ints_write valid]
    exact instructions_fields valid 0

end Object

/-! ## Words -/

namespace Instruction

theorem decode_encode {i : Instruction} (valid : i.validate = .ok ()) : decode i.encode = i := by
  obtain ⟨named, register, count, displacement⟩ := validate_iff.mp valid
  have small := Op.code_small named
  have word : i.encode.toNat = i.op.code.toNat * 0x10000000 + i.r.index.toNat * 0x1000000 +
      i.n.toNat * 0x10000 + (i.d % 65536).toNat := by
    simp only [encode, UInt32.toNat_ofNat']
    omega
  have op : Op.ofCode (UInt8.ofNat (i.encode.toNat / 0x10000000)) = i.op := by
    rw [← Op.ofCode_code i.op]
    congr 1
    rw [← UInt8.toNat_inj, UInt8.toNat_ofNat']
    omega
  have register : UInt8.ofNat (i.encode.toNat / 0x1000000 % 16) = i.r.index := by
    rw [← UInt8.toNat_inj, UInt8.toNat_ofNat']
    omega
  have count : (i.encode.toNat : Int) / 0x10000 % 256 = i.n := by omega
  have displacement : ((i.encode.toNat : Int) % 65536).bmod 65536 = i.d := by
    rw [show (i.encode.toNat : Int) % 65536 = i.d % 65536 by omega]
    exact mod_cast emod_bmod_of_fits (m := 65536) (by omega) (by omega)
  simp only [decode, op, register, count, displacement]

theorem encode_decode (w : UInt32) : (decode w).encode = w := by
  have bound := w.toNat_lt
  have displacement : ((w.toNat % 65536 : Int).bmod 65536 % 65536).toNat = w.toNat % 65536 := by
    have low : (w.toNat % 65536 : Int).bmod 65536 % (65536 : Nat) = _ := Int.bmod_emod
    omega
  rw [← UInt32.toNat_inj]
  simp only [encode, decode, Op.code_ofCode, displacement, UInt8.toNat_ofNat', UInt32.toNat_ofNat']
  omega

end Instruction

/-- Both binary forms of code are faithful: reading a file gives code exactly if the code is valid and
the file is what writing it gives, valid instructions survive being packed into words, and every word
is what its instruction packs into. -/
theorem binary_forms_faithful :
    (∀ (bytes : List UInt8) (code : List Instruction), Object.read bytes = .ok code ↔
        (∀ i ∈ code, i.validate = .ok ()) ∧ bytes = Object.write code) ∧
      (∀ i : Instruction, i.validate = .ok () → Instruction.decode i.encode = i) ∧
      ∀ w : UInt32, (Instruction.decode w).encode = w :=
  ⟨fun _ _ => Object.read_eq_ok, fun _ valid => Instruction.decode_encode valid,
    Instruction.encode_decode⟩

/-- Fields at their limits, and a file that ends within an instruction. -/
theorem extremes_survive :
    Object.read (Object.write [⟨.ret, .CP, 255, -32768⟩, ⟨.halt, .CB, 0, 32767⟩]) =
        .ok [⟨.ret, .CP, 255, -32768⟩, ⟨.halt, .CB, 0, 32767⟩] ∧
      (∀ code, Object.read [0, 0, 0, 15, 0] ≠ .ok code) ∧
      Instruction.decode (Instruction.encode ⟨.ret, .CP, 255, -32768⟩) = ⟨.ret, .CP, 255, -32768⟩ := by
  refine ⟨(binary_forms_faithful.1 _ _).mpr ⟨by decide, rfl⟩, fun code accepted => ?_,
    binary_forms_faithful.2.1 _ rfl⟩
  have length := congrArg List.length ((binary_forms_faithful.1 _ _).mp accepted).2
  simp [Object.write, Object.instructionBytes, Object.int32Bytes, length_flatMap] at length
  omega

end Triangle

import Mathlib
import Triangle.Proofs.Machine.View
import Triangle.Proofs.Text.Numeral

/-! Numbers on the byte streams of a machine. What a machine writes for a word is read as the same
word, whatever blanks stand before it and whatever stands after it, digits excepted. So a list of
words written with blanks after each is read again as it was. -/
namespace Triangle

namespace Input

/-- The bytes that stand for a word in decimal. -/
def ofWord (v : Word) : List UInt8 := ofChars (Text.decimal v.toInt)

theorem isDigit_ofNat {c : Char} (digit : c.isDigit = true) :
    isDigit (UInt8.ofNat c.toNat) = true ∧ Char.ofNat (UInt8.ofNat c.toNat).toNat = c := by
  obtain ⟨least, greatest⟩ := Text.Numeral.isDigit_bounds digit
  have low : 48 ≤ c.toNat := least
  have high : c.toNat ≤ 57 := greatest
  have same : (UInt8.ofNat c.toNat).toNat = c.toNat := by
    simp only [UInt8.toNat_ofNat']
    omega
  constructor
  · simp only [isDigit, Bool.and_eq_true, decide_eq_true_eq, UInt8.le_iff_toNat_le, same]
    exact ⟨low, high⟩
  · rw [same, Char.ofNat_toNat]

theorem toChars_ofChars_digits {cs : List Char} (digits : ∀ c ∈ cs, c.isDigit = true) :
    toChars (ofChars cs) = cs := by
  rw [toChars, ofChars, List.map_map]
  exact (List.map_congr_left fun c member => (isDigit_ofNat (digits c member)).2).trans (List.map_id cs)

theorem not_isBlank {b : UInt8} (digit : isDigit b = true) : isBlank b = false := by
  rw [Bool.eq_false_iff]
  intro blank
  simp only [isBlank, Bool.or_eq_true, beq_iff_eq] at blank
  rcases blank with ((rfl | rfl) | rfl) | rfl <;> exact absurd digit (by decide)

/-- A written word starts with no blank, and digits follow. -/
theorem ofWord_shape (v : Word) : ∃ first digits, ofWord v = first :: digits ∧
    isBlank first = false ∧ (∀ b ∈ digits, isDigit b = true) ∧
    toChars (first :: digits) = Text.decimal v.toInt := by
  have digit : ∀ c ∈ Nat.toDigits 10 v.toInt.natAbs, c.isDigit = true :=
    fun _ => Text.Numeral.isDigit_toDigits
  have bytes {cs : List Char} (all : ∀ c ∈ cs, c.isDigit = true) : ∀ b ∈ ofChars cs, isDigit b = true := by
    intro b member
    obtain ⟨c, inside, rfl⟩ := List.mem_map.mp member
    exact (isDigit_ofNat (all c inside)).1
  by_cases negative : v.toInt < 0
  · refine ⟨45, ofChars (Nat.toDigits 10 v.toInt.natAbs), ?_, rfl, bytes digit, ?_⟩
    · simp [ofWord, Text.decimal, negative, ofChars]
    · simpa [Text.decimal, negative, toChars] using toChars_ofChars_digits digit
  · cases shape : Nat.toDigits 10 v.toInt.natAbs with
    | nil => exact absurd shape Nat.toDigits_ne_nil
    | cons c cs =>
      rw [shape] at digit
      have solid := (isDigit_ofNat (digit c List.mem_cons_self)).1
      have all := bytes fun d member => digit d (List.mem_cons_of_mem c member)
      refine ⟨UInt8.ofNat c.toNat, ofChars cs, ?_, not_isBlank solid, all, ?_⟩
      · simp [ofWord, Text.decimal, negative, shape, ofChars]
      · rw [Text.decimal, if_neg negative, shape]
        exact toChars_ofChars_digits digit

theorem readInt_ofWord (v : Word) {blanks rest : List UInt8} (blank : ∀ b ∈ blanks, isBlank b = true)
    (ends : ∀ b ∈ rest.head?, isDigit b = false) :
    readInt (blanks ++ ofWord v ++ rest) = (.ok v.toInt, rest) := by
  obtain ⟨first, digits, shape, solid, digit, chars⟩ := ofWord_shape v
  have taken : rest.takeWhile isDigit = [] ∧ rest.dropWhile isDigit = rest := by
    cases rest with
    | nil => exact ⟨rfl, rfl⟩
    | cons b rest => simp [ends b rfl]
  have fits : Text.Numeral.Fits 16 v.toInt := ⟨v.le_toInt, v.toInt_lt⟩
  rw [readInt, List.append_assoc, List.dropWhile_append_of_pos blank, shape, List.cons_append,
    List.dropWhile_cons_of_neg (by simp [solid])]
  dsimp only
  rw [List.takeWhile_append_of_pos digit, List.dropWhile_append_of_pos digit, taken.1, taken.2,
    List.append_nil, chars, Text.Numeral.ofDecimal_decimal (by decide) fits]

end Input

namespace Machine

/-- Writes the word `v`. -/
def printWord (v : Word) : Exec Unit := do
  push [v]
  primitive .putint

def printByte (b : UInt8) : Exec Unit := do
  push [.truncate b.toNat]
  primitive .put

/-- Writes words, each with the bytes that are to stand after it. -/
def print : List (Word × List UInt8) → Exec Unit
  | [] => return
  | (v, after) :: rest => do
    printWord v
    after.forM printByte
    print rest

/-- Reads a word into the place `address`. -/
def scanWord (address : Word) : Exec Unit := do
  push [address]
  primitive .getint

/-- Reads words into the place `address`, one after the other. -/
def scan (address : Word) : (count : Nat) → Exec (List Word)
  | 0 => return []
  | count + 1 => do
    scanWord address
    let w ← asking (·.load address.toInt)
    return w :: (← scan address count)

variable {α : Type} {m : Machine}

/-- There is room for a word on the stack. -/
def Roomy (m : Machine) : Prop := 0 ≤ m.st ∧ m.st < dataSize

theorem push_pop (roomy : m.Roomy) (w : Word) (f : Word → Exec α) :
    (do push [w]; f (← pop)) m = f w { m with data := m.data.writeBlock m.st [w] } := by
  obtain ⟨base, height⟩ := Int.eq_ofNat_of_zero_le roomy.1
  have room : base < dataSize := by
    have := roomy.2
    omega
  rw [Result.bind_ok (push_ok (by simp only [List.length_singleton]; omega)),
    Result.bind_ok (pop_ok (by simp only [List.length_singleton]; omega))]
  have back : m.st + ([w] : List Word).length - 1 = m.st := by simp
  dsimp only
  rw [back, height, Store.read_writeBlock _ [w] base base (by simpa using room)]
  simp

/-! ## Writing -/

/-- The part of an instruction writes these bytes and leaves the stack as high as it is. -/
def Writes (x : Exec Unit) (m : Machine) (bytes : List UInt8) : Prop :=
  ∃ m', x m = .ok () m' ∧ m'.st = m.st ∧ m'.output = m.output ++ bytes

theorem Writes.bind {x y : Exec Unit} {bytes more : List UInt8} (first : Writes x m bytes)
    (second : ∀ m', m'.st = m.st → Writes y m' more) :
    Writes (do x; y) m (bytes ++ more) := by
  obtain ⟨m', done, height, output⟩ := first
  obtain ⟨m'', done', height', output'⟩ := second m' height
  refine ⟨m'', (Result.bind_ok done).trans done', height'.trans height, ?_⟩
  apply Array.toList_inj.mp
  simp [output', output]

theorem writes_nothing : Writes (pure ()) m [] := ⟨m, rfl, rfl, by simp⟩

theorem writes_printWord (roomy : m.Roomy) (v : Word) : Writes (printWord v) m (Input.ofWord v) :=
  ⟨_, push_pop roomy v _, rfl, rfl⟩

theorem writes_printByte (roomy : m.Roomy) (b : UInt8) : Writes (printByte b) m [b] := by
  have small := b.toNat_lt
  have byte : UInt8.ofInt (Word.truncate b.toNat).toInt = b := by
    rw [Word.truncate, Int16.toInt_ofInt_of_le (by omega) (by omega)]
    have same : ((b.toNat : Int) % 256).toNat = b.toNat := by omega
    simp [UInt8.ofInt, same]
  refine ⟨_, push_pop roomy _ _, rfl, ?_⟩
  simp [byte]

theorem writes_bytes (roomy : m.Roomy) (bytes : List UInt8) :
    Writes (bytes.forM printByte) m bytes := by
  induction bytes generalizing m with
  | nil => exact writes_nothing
  | cons b bytes ih =>
    exact (writes_printByte roomy b).bind fun m' height => ih (by rwa [Roomy, height])

/-- What stands for words with bytes after each. -/
def printed (values : List (Word × List UInt8)) : List UInt8 :=
  values.flatMap fun (v, after) => Input.ofWord v ++ after

theorem writes_print (roomy : m.Roomy) (values : List (Word × List UInt8)) :
    Writes (print values) m (printed values) := by
  induction values generalizing m with
  | nil => exact writes_nothing
  | cons value values ih =>
    have same : printed (value :: values) = Input.ofWord value.1 ++ (value.2 ++ printed values) := by
      simp [printed]
    rw [same]
    refine (writes_printWord roomy value.1).bind fun m' height => ?_
    have roomy' : m'.Roomy := by rwa [Roomy, height]
    exact (writes_bytes roomy' value.2).bind fun m'' height' => ih (by rwa [Roomy, height'])

/-! ## Reading -/

variable {address : Word}

/-- The place is on the stack, and there is room for a word above. -/
def Writable (m : Machine) (address : Word) : Prop :=
  0 ≤ address.toInt ∧ address.toInt < m.st ∧ m.st < dataSize

/-- A word is read into its place, and what stands after it is left. -/
theorem scanWord_reads (writable : m.Writable address) (v : Word) {blanks rest : List UInt8}
    (blank : ∀ b ∈ blanks, Input.isBlank b = true) (ends : ∀ b ∈ rest.head?, Input.isDigit b = false)
    (input : m.input = blanks ++ Input.ofWord v ++ rest) :
    ∃ m', scanWord address m = .ok () m' ∧ m'.Writable address ∧ m'.input = rest ∧
      m'.load address.toInt = .ok v := by
  obtain ⟨low, below, room⟩ := writable
  obtain ⟨place, same⟩ := Int.eq_ofNat_of_zero_le low
  have word : Word.truncate v.toInt = v := Int16.ofInt_toInt v
  have done : scanWord address m = .ok () { m with
      data := (m.data.writeBlock m.st [address]).writeBlock address.toInt [v], input := rest } := by
    have read : Input.readInt m.input = (.ok v.toInt, rest) := by
      rw [input]
      exact Input.readInt_ofWord v blank ends
    have inside : ¬(address.toInt < 0 ∨ m.st ≤ address.toInt) := by omega
    refine (push_pop ⟨by omega, room⟩ address _).trans ?_
    simp [reading, storeBlock, read, word, inside]
  refine ⟨_, done, ⟨low, below, room⟩, rfl, ?_⟩
  rw [load, if_neg (by dsimp only; omega), same,
    Store.read_writeBlock _ [v] place place (by simp only [List.length_singleton]; omega)]
  simp

theorem scan_reads {values : List (Word × List UInt8)} {blanks rest : List UInt8}
    (apart : ∀ p ∈ values, p.2 ≠ [] ∧ ∀ b ∈ p.2, Input.isBlank b = true)
    (blank : ∀ b ∈ blanks, Input.isBlank b = true) (writable : m.Writable address)
    (input : m.input = blanks ++ printed values ++ rest) :
    ∃ m', scan address values.length m = .ok (values.map Prod.fst) m' := by
  induction values generalizing m blanks with
  | nil => exact ⟨m, rfl⟩
  | cons value values ih =>
    obtain ⟨v, after⟩ := value
    obtain ⟨⟨some, blank'⟩, apart'⟩ := List.forall_mem_cons.mp apart
    obtain ⟨b, after', rfl⟩ := List.exists_cons_of_ne_nil some
    have ends : ∀ c ∈ (b :: after' ++ printed values ++ rest).head?, Input.isDigit c = false := by
      rintro c ⟨⟩
      rw [Bool.eq_false_iff]
      intro digit
      exact absurd (blank' b List.mem_cons_self) (by simp [Input.not_isBlank digit])
    obtain ⟨m', done, writable', input', loaded⟩ := scanWord_reads writable v blank ends
      (by simpa [printed] using input)
    obtain ⟨m'', done'⟩ := ih apart' blank' writable' input'
    refine ⟨m'', ?_⟩
    have asked : asking (·.load address.toInt) m' = .ok v m' := by
      simp [asking, loaded]
    simp only [scan, List.length_cons]
    rw [Result.bind_ok done, Result.bind_ok asked, Result.bind_ok done']
    rfl

/-- What is written for a word after blanks, and before what starts with no digit, is read as the
word, and no more is read. Words written with blanks after each are read one after the other. -/
theorem getint_reads_putint :
    (∀ (m : Machine) (v : Word) (blanks rest : List UInt8), m.Roomy →
      (∀ b ∈ blanks, Input.isBlank b = true) → (∀ b ∈ rest.head?, Input.isDigit b = false) →
      ∃ bytes, Writes (printWord v) m bytes ∧
        Input.readInt (blanks ++ bytes ++ rest) = (.ok v.toInt, rest)) ∧
    ∀ (m : Machine) (values : List (Word × List UInt8)), m.Roomy →
      (∀ p ∈ values, p.2 ≠ [] ∧ ∀ b ∈ p.2, Input.isBlank b = true) →
      ∃ bytes, Writes (print values) m bytes ∧
        ∀ (n : Machine) (address : Word) (rest : List UInt8), n.Writable address →
          n.input = bytes ++ rest →
          ∃ n', scan address values.length n = .ok (values.map Prod.fst) n' := by
  constructor
  · intro m v blanks rest roomy blank ends
    exact ⟨_, writes_printWord roomy v, Input.readInt_ofWord v blank ends⟩
  · intro m values roomy apart
    refine ⟨_, writes_print roomy values, fun n address rest writable input => ?_⟩
    exact scan_reads apart (List.forall_mem_nil _) writable (by simpa using input)

/-- The least word and two more, with a line between them. -/
theorem extremes_read_back :
    ∃ bytes, Writes (print [(-32768, [10]), (0, [32, 9]), (32767, [13])]) (start [] []) bytes ∧
      ∃ n', scan 0 3 { start [] bytes with st := 1 } = .ok [-32768, 0, 32767] n' := by
  obtain ⟨bytes, writes, reads⟩ := getint_reads_putint.2 (start [] [])
    [(-32768, [10]), (0, [32, 9]), (32767, [13])] ⟨by decide, by decide⟩ (by simp [Input.isBlank])
  have writable : Writable { start [] bytes with st := 1 } 0 := ⟨by decide, Int.one_pos, by simp [dataSize]⟩
  exact ⟨bytes, writes, reads _ 0 [] writable (by simp [start])⟩

end Machine
end Triangle

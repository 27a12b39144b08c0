import Mathlib
import Triangle.Proofs.Machine.Agreement
import Triangle.Proofs.Machine.Instructions
import Triangle.Proofs.Machine.StackPointer

/-! Two machines in one state, each at its own place in its own code. What an instruction does
depends neither on the place nor on the words above the top of the stack. -/
namespace Triangle
namespace Machine

variable {code code' : List Instruction} {a b : Nat} {m n : Machine}

/-- Two machines that run their own code at addresses `a` and `b`, in no routine. -/
structure Facing (code code' : List Instruction) (a b : Nat) (c d : Control) : Prop where
  code : c.code = code.toArray
  code' : d.code = code'.toArray
  cp : c.cp = a
  cp' : d.cp = b
  running : c.halted = false
  running' : d.halted = false
  lb : c.lb = 0
  lb' : d.lb = 0

/-- The machines `m` and `n` are in the same state, at addresses `a` and `b`, in no routine. -/
abbrev Alike (code code' : List Instruction) (a b : Nat) (m n : Machine) : Prop :=
  Matched (Facing code code' a b) m n

theorem Alike.move (alike : Alike code code' a b m n) {x y : Nat} {c d : Int} (left : c = x)
    (right : d = y) : Alike code code' x y { m with cp := c } { n with cp := d } :=
  { alike with control := { alike.control with cp := left, cp' := right } }

theorem Alike.cp (alike : Alike code code' a b m n) : m.cp = a := alike.control.cp

theorem Alike.cp' (alike : Alike code code' a b m n) : n.cp = b := alike.control.cp'

theorem Alike.running (alike : Alike code code' a b m n) : m.halted = false := alike.control.running

theorem Alike.running' (alike : Alike code code' a b m n) : n.halted = false := alike.control.running'

theorem Alike.program (alike : Alike code code' a b m n) : m.code = code.toArray := alike.control.code

theorem Alike.program' (alike : Alike code code' a b m n) : n.code = code'.toArray := alike.control.code'

theorem Alike.lb (alike : Alike code code' a b m n) : m.lb = 0 := alike.control.lb

theorem Alike.lb' (alike : Alike code code' a b m n) : n.lb = 0 := alike.control.lb'

/-- A register that does not tell a place in the code holds the same. -/
theorem Alike.regOf (alike : Alike code code' a b m n) {r : Reg} (top : r ≠ .CT) (place : r ≠ .CP) :
    n.reg r = m.reg r := by
  simp only [Machine.reg, top, place, if_false, alike.st, alike.lb, alike.lb', alike.follow]

theorem Alike.addressOf (alike : Alike code code' a b m n) {i : Instruction} (top : i.r ≠ .CT)
    (place : i.r ≠ .CP) : n.address i = m.address i := by
  simp only [Machine.address, alike.regOf top place]

end Machine

/-- The value of a register that is the same at all times. -/
def Reg.fixed? (r : Reg) : Option Int :=
  if r = .PB then some primBase
  else if r = .PT then some primTop
  else if r = .SB then some 0
  else if r = .HB ∨ r = .HT then some dataSize
  else none

/-- The primitive that a call enters, wherever the machine is. -/
def Instruction.entered? (i : Instruction) : Option Primitive :=
  i.r.fixed?.bind fun base => Primitive.ofDisplacement? (base + i.d - primBase)

/-- After the instruction comes the next one, and it does not tell where it stands. -/
def Instruction.Sequential (i : Instruction) : Prop :=
  match i.op with
  | .load | .loadA | .store => i.r ∉ [Reg.CB, .CT, .CP]
  | .call => i.entered?.isSome ∧ i.n = Reg.SB.index.toNat
  | .loadI | .loadL | .storeI | .push | .pop => True
  | _ => False

instance (i : Instruction) : Decidable i.Sequential := by
  unfold Instruction.Sequential
  split <;> infer_instance

namespace Machine

variable {code code' : List Instruction} {a b : Nat} {m n : Machine} {i : Instruction}

theorem reg_fixed {r : Reg} {base : Int} (fixed : r.fixed? = some base) (m : Machine) :
    m.reg r = .ok base ∧ 0 ≤ base ∧ base ≤ 0x1000 := by
  simp only [Reg.fixed?] at fixed
  split at fixed
  · rename_i same
    cases fixed
    subst same
    exact ⟨rfl, by decide, by decide⟩
  · split at fixed
    · rename_i same
      cases fixed
      subst same
      exact ⟨rfl, by decide, by decide⟩
    · split at fixed
      · rename_i same
        cases fixed
        subst same
        exact ⟨rfl, by decide, by decide⟩
      · split at fixed
        · rename_i same
          cases fixed
          rcases same with rfl | rfl <;> exact ⟨rfl, by decide, by decide⟩
        · cases fixed

/-- A call of a primitive runs it. -/
theorem exec_call (call : i.op = .call) {p : Primitive} (entered : i.entered? = some p)
    (linked : i.n = Reg.SB.index.toNat) (low : -0x8000 ≤ i.d) (high : i.d < 0x8000) :
    exec i m = (do primitive p; next : Exec Unit) m := by
  obtain ⟨base, fixed, named⟩ := Option.bind_eq_some_iff.mp entered
  obtain ⟨held, small, large⟩ := reg_fixed fixed m
  have wrapped : wrap64 (base + i.d) = base + i.d := wrap64_eq (by omega) (by omega)
  have target : m.address i = .ok (base + i.d) := by
    simp [Machine.address, held, Bind.bind, Except.bind, pure, Except.pure, wrapped]
  have link : m.reg ⟨UInt8.ofInt i.n⟩ = .ok 0 := by
    rw [linked]
    rfl
  have inside : primBase ≤ base + i.d ∧ base + i.d < primTop := by
    have member := List.mem_of_find?_eq_some named
    have same := List.find?_some named
    have range : 1 ≤ p.displacement ∧ p.displacement ≤ 26 := by cases p <;> decide
    have aimed : p.displacement = base + i.d - primBase := by simpa using same
    simp only [primTop]
    omega
  simp [exec, call, asking, target, link, enter, inside, named]

theorem pairs_advance (alike : Alike code code' a b m n) :
    Pairs (Facing code code' a b) next next m n fun _ => Alike code code' (a + 1) (b + 1) :=
  .modify (alike.move (by simp [alike.cp]) (by simp [alike.cp']))

/-- Two instructions of the same kind, one after the other in both machines. -/
theorem pairs_sequential (alike : Alike code code' a b m n) (sequential : i.Sequential)
    (valid : i.validate = .ok ()) :
    Pairs (Facing code code' a b) (exec i) (exec i) m n fun _ => Alike code code' (a + 1) (b + 1) := by
  obtain ⟨-, -, ⟨natural, -⟩, low, high⟩ := Instruction.validate_iff.mp valid
  have address (based : i.r ∉ [Reg.CB, .CT, .CP]) : n.address i = m.address i := by
    simp only [List.mem_cons, List.not_mem_nil, or_false, not_or] at based
    exact alike.addressOf based.2.1 based.2.2
  have straight (inside : i.op ∈ [Op.load, .loadA, .loadI, .loadL, .store, .storeI, .push, .pop])
      (based : i.op ∈ [Op.load, .loadA, .store] → i.r ∉ [Reg.CB, .CT, .CP]) :=
    pairs_straight alike natural inside (fun named => address (based named))
      fun _ _ later => pairs_advance later
  unfold Instruction.Sequential at sequential
  cases op : i.op <;> simp only [op] at sequential
  case load | loadA | store => exact straight (by simp [op]) fun _ => sequential
  case loadI | loadL | storeI | push | pop => exact straight (by simp [op]) (by simp [op])
  case call =>
    obtain ⟨entered, linked⟩ := sequential
    obtain ⟨p, entered⟩ := Option.isSome_iff_exists.mp entered
    unfold Pairs
    have high : i.d < 0x8000 := Int.lt_add_one_of_le high
    rw [exec_call op entered linked low high, exec_call op entered linked low high]
    exact Pairs.bind (pairs_primitive alike p) fun _ _ _ later => pairs_advance later

/-! ## Jumps and the end -/

theorem address_code {op : Op} {k : Int} {x : Nat} (small : x < 0x8000) (m : Machine) :
    m.address ⟨op, .CB, k, x⟩ = .ok (x : Int) := by
  have wrapped : wrap64 (0 + x) = x := by rw [zero_add, wrap64_eq (by omega) (by omega)]
  have base : m.reg .CB = .ok 0 := rfl
  simp only [Machine.address, base, Bind.bind, Except.bind, pure, Except.pure, wrapped]

variable {k : Int} {x y : Nat}

theorem pairs_goTo_both (alike : Alike code code' a b m n) (x y : Nat) :
    Pairs (Facing code code' a b) (goTo x) (goTo y) m n fun _ => Alike code code' x y :=
  .modify (alike.move rfl rfl)

theorem pairs_jump (alike : Alike code code' a b m n) (small : x < 0x8000) (small' : y < 0x8000)
    (k k' : Int) :
    Pairs (Facing code code' a b) (exec ⟨.jump, .CB, k, x⟩) (exec ⟨.jump, .CB, k', y⟩) m n fun _ =>
      Alike code code' x y := by
  have left : exec ⟨.jump, .CB, k, x⟩ m = goTo x m := by
    simp [exec, asking, address_code small]
  have right : exec ⟨.jump, .CB, k', y⟩ n = goTo y n := by
    simp [exec, asking, address_code small']
  unfold Pairs
  rw [left, right]
  exact pairs_goTo_both alike x y

theorem pairs_jumpIf (alike : Alike code code' a b m n) (small : x < 0x8000) (small' : y < 0x8000) :
    Pairs (Facing code code' a b) (exec ⟨.jumpIf, .CB, k, x⟩) (exec ⟨.jumpIf, .CB, k, y⟩) m n fun _ m' n' =>
      Alike code code' x y m' n' ∨ Alike code code' (a + 1) (b + 1) m' n' := by
  refine .bind (pairs_pop alike) fun w m' n' later => ?_
  by_cases taken : w.toInt = k
  · simp only [taken, if_true]
    have left : (asking (·.address ⟨.jumpIf, .CB, k, x⟩) >>= goTo) m' = goTo x m' := by
      simp [asking, address_code small]
    have right : (asking (·.address ⟨.jumpIf, .CB, k, y⟩) >>= goTo) n' = goTo y n' := by
      simp [asking, address_code small']
    unfold Pairs
    rw [left, right]
    exact .inl ⟨(), _, _, rfl, rfl, .inl (Alike.move later rfl rfl)⟩
  · simp only [taken, if_false]
    exact .inl ⟨(), _, _, rfl, rfl,
      .inr (Alike.move later (by simp [Alike.cp later]) (by simp [Alike.cp' later]))⟩

theorem pairs_halt (alike : Alike code code' a b m n) (halts : i.op = .halt) :
    Pairs (Facing code code' a b) (exec i) (exec i) m n fun _ => HaltAlike := by
  simp only [exec, halts]
  exact .modify ⟨rfl, rfl, alike.output, alike.st, alike.data⟩

/-! ## Views -/

/-- What shows of two machines that are alike differs in the place alone. -/
theorem Alike.shows (alike : Alike code code' a b m n) :
    ∃ v : View, v.cp = a ∧ v.lb = 0 ∧ m.Shows code v ∧ n.Shows code' { v with cp := b } := by
  obtain ⟨h, height⟩ := Int.eq_ofNat_of_zero_le alike.inside.1
  have fits : h ≤ dataSize := by
    have := alike.inside.2
    omega
  let stack := m.data.readBlock 0 h
  have length : stack.length = h := by simp [stack, Store.readBlock]
  have word (k : Nat) (w : Word) (found : stack[k]? = some w) : k < h ∧ m.data.read k = w := by
    have inside := (List.getElem?_eq_some_iff.mp found).1
    refine ⟨by omega, ?_⟩
    simpa [stack, Store.readBlock, show k < h by omega] using found
  refine ⟨⟨a, 0, stack, m.input, m.output.toList⟩, rfl, rfl, ?_, ?_⟩
  · exact {
      code := alike.program, running := alike.running, cp := alike.cp, lb := alike.lb
      st := by simp [height, length]
      fits := by simpa [length] using fits
      data := fun k w found => (word k w found).2
      input := rfl, output := rfl }
  · exact {
      code := alike.program', running := alike.running', cp := alike.cp', lb := alike.lb'
      st := by simp [alike.st, height, length]
      fits := by simpa [length] using fits
      data := fun k w found => by
        obtain ⟨below, same⟩ := word k w found
        rw [alike.data k (by omega), same]
      input := alike.input, output := by simp [alike.output] }

theorem Shows.alike {v : View} (shows : m.Shows code v) (shows' : n.Shows code' { v with cp := b })
    (outermost : v.lb = 0) : Alike code code' v.cp b m n where
  control := {
    code := shows.code, code' := shows'.code, cp := shows.cp, cp' := shows'.cp
    running := shows.running, running' := shows'.running
    lb := by simp [control, shows.lb, outermost]
    lb' := by simp [control, shows'.lb, outermost] }
  st := by rw [shows.st, shows'.st]
  inside := by
    have fits := shows.fits
    simp only [Inside, shows.st]
    omega
  input := by rw [shows.input, shows'.input]
  output := Array.toList_inj.mp (by rw [shows.output, shows'.output])
  data k below := by
    rw [shows.st] at below
    have inside : k < v.stack.length := by omega
    rw [shows.data k _ (List.getElem?_eq_getElem inside),
      shows'.data k _ (List.getElem?_eq_getElem inside)]

theorem Alike.count (alike : Alike code code' a b m n) (k l : Nat) :
    Alike code code' a b { m with steps := k } { n with steps := l } :=
  { alike with control := { alike.control with } }

/-- A jump is one step to the address of its target. -/
theorem Alike.jump (alike : Alike code code' a y m n)
    (here : code[a]? = some ⟨.jump, .CB, k, x⟩) (small : x < 0x8000) :
    ∃ m', m.Reaches 1 m' ∧ Alike code code' x y m' n := by
  obtain ⟨v, rfl, -, shows, -⟩ := alike.shows
  have step := shows.step here
  have done : exec ⟨.jump, .CB, k, x⟩ m = .ok () { m with cp := x } := by
    simp [exec, asking, address_code small, goTo]
  rw [done] at step
  exact ⟨_, .next alike.running step (.here _),
    { alike with control := { alike.control with cp := rfl } }⟩

/-- Two instructions that do alike, and what the first machine does on its own after them. -/
theorem Pairs.keeps {related : Machine → Machine → Prop} {j : Instruction}
    (alike : Alike code code' a b m n) (here : code[a]? = some i) (here' : code'[b]? = some j)
    {after : Machine → Machine → Prop}
    (pairs : Pairs (Facing code code' a b) (exec i) (exec j) m n fun _ => after)
    (goesOn : ∀ m' n', after m' n' → HaltAlike m' n' ∨
      ∀ s s', ∃ k m'', Reaches k { m' with steps := s } m'' ∧ related m'' { n' with steps := s' }) :
    Keeps related m n := by
  obtain ⟨v, rfl, -, shows, shows'⟩ := alike.shows
  have step := shows.step here
  have step' := shows'.step here'
  rcases pairs with ⟨_, m', n', done, done', holds⟩ | ⟨cause, m', n', failed, failed', same⟩
  · rw [done] at step
    rw [done'] at step'
    have first : m.Reaches 1 _ := .next alike.running step (.here _)
    rcases goesOn m' n' holds with halts | later
    · exact .step first alike.running' step' (.inr { halts with })
    · obtain ⟨k, m'', rest, holds⟩ := later (m'.steps + 1) (n'.steps + 1)
      have whole := first.trans rest
      rw [Nat.add_comm] at whole
      exact .step whole alike.running' step' (.inl holds)
  · rw [failed] at step
    rw [failed'] at step'
    exact .fail (.here m) step step' same.output

/-- Both machines have come to the end of their code. -/
theorem Alike.keeps_end {related : Machine → Machine → Prop} (alike : Alike code code' a b m n)
    (last : code[a]? = none) (last' : code'[b]? = none) : Keeps related m n := by
  have step : m.step = (m, some ⟨m.cp, .codeAccess⟩) := by
    simp [Machine.step, alike.running, alike.cp, alike.program, last]
  have step' : n.step = (n, some ⟨n.cp, .codeAccess⟩) := by
    simp [Machine.step, alike.running', alike.cp', alike.program', last']
  exact .fail (.here m) step step' alike.output

theorem alike_start (code code' : List Instruction) (input : List UInt8) :
    Alike code code' 0 0 (start code input) (start code' input) where
  control := ⟨rfl, rfl, rfl, rfl, rfl, rfl, rfl, rfl⟩
  st := rfl
  inside := ⟨Int.le_refl 0, Int.natCast_nonneg dataSize⟩
  input := rfl
  output := rfl
  data _ _ := rfl

end Machine
end Triangle

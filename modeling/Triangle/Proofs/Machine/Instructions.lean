import Mathlib
import Triangle.Proofs.Machine.Follows

/-! What each instruction does to the view of a machine. -/
namespace Triangle.Machine

variable {m : Machine} {code : List Instruction} {v : View} {a b k : Nat} {w : Word}
  {ws below gone changed : List Word}

/-! ## Registers and addresses -/

/-- The register holds `b`. -/
def RegIs (code : List Instruction) (v : View) (r : Reg) (b : Nat) : Prop :=
  ∀ m : Machine, m.Shows code v → m.reg r = .ok (b : Int)

theorem regIs_CB : RegIs code v .CB 0 := fun _ _ => rfl

theorem regIs_SB : RegIs code v .SB 0 := fun _ _ => rfl

theorem regIs_PB : RegIs code v .PB codeSize := fun _ _ => rfl

/-- The bases of the frames around the current one, from the inside. Each frame starts with the
base of the next. -/
def Linked (stack : List Word) : List Nat → Prop
  | [] | [_] => True
  | inner :: outer :: rest => Slice stack inner [.truncate outer] ∧ Linked stack (outer :: rest)

theorem Shows.follow (shows : m.Shows code v) {bases : List Nat} (linked : Linked v.stack bases)
    (small : ∀ b ∈ bases, b ≤ dataSize) (first : bases.head? = some a)
    (found : bases[k]? = some b) : m.follow k a = .ok (b : Int) := by
  induction k generalizing bases a with
  | zero =>
    obtain rfl : a = b := by
      cases bases <;> simp_all
    rfl
  | succ k ih =>
    match bases with
    | [] => simp at first
    | [_] => simp at found
    | inner :: outer :: rest =>
      obtain rfl : inner = a := by simpa using first
      obtain ⟨slice, linked⟩ := linked
      have inside := slice.bound
      have load : m.load inner = .ok (.truncate outer) := by
        rw [Machine.load, if_neg (by rw [shows.st]; simp at inside; omega), shows.data.read slice]
      have bound : outer ≤ dataSize := small outer (by simp)
      have value : (Word.truncate (outer : Int)).toInt = outer :=
        Word.toInt_truncate (by omega) (by simp only [dataSize] at bound; omega)
      simp only [Machine.follow, load]
      change m.follow k (Word.truncate (outer : Int)).toInt = _
      rw [value]
      exact ih linked (fun c member => small c (List.mem_cons_of_mem _ member)) rfl
        (by simpa using found)

/-- The display registers hold the bases of the frames around. -/
theorem regIs_display {bases : List Nat} (linked : Linked v.stack bases)
    (small : ∀ b ∈ bases, b ≤ dataSize) (first : bases.head? = some v.lb)
    (found : bases[k]? = some b) (named : Reg.display? k = some r) : RegIs code v r b := by
  intro m shows
  simp only [Reg.display?, Option.ite_none_right_eq_some, Option.some.injEq] at named
  obtain ⟨⟨_, near⟩, rfl⟩ := named
  simp only [Reg.maxDisplay] at near
  have follow := shows.follow linked small first found
  rw [← shows.lb] at follow
  have cases : k = 0 ∨ k = 1 ∨ k = 2 ∨ k = 3 ∨ k = 4 ∨ k = 5 ∨ k = 6 := by omega
  rcases cases with rfl | rfl | rfl | rfl | rfl | rfl | rfl <;> exact follow

theorem RegIs.address {i : Instruction} (holds : RegIs code v i.r b) (shows : m.Shows code v)
    (sum : (b : Int) + i.d = a) (small : a < 0x10000) : m.address i = .ok (a : Int) := by
  have wrapped : wrap64 (b + i.d) = a := by
    rw [sum]
    exact wrap64_eq (by omega) (by omega)
  simp [Machine.address, holds m shows, Bind.bind, Except.bind, pure, Except.pure, wrapped]

/-! ## Moving words -/

namespace Advances

theorem load (here : code[v.cp]? = some ⟨.load, r, n, d⟩) (holds : RegIs code v r b)
    (sum : (b : Int) + d = a) (slice : Slice v.stack a ws) (count : n = ws.length) :
    Advances code v { v with cp := v.cp + 1, stack := v.stack ++ ws } := by
  refine .of_safely here fun m shows => ?_
  have small : a ≤ dataSize := by
    have := slice.bound
    have := shows.fits
    omega
  refine (Safely.asking (holds.address shows sum (by simp only [dataSize] at small; omega))).bind ?_
  rintro _ _ ⟨rfl, rfl⟩
  refine (Safely.asking (shows.block slice count)).bind ?_
  rintro _ _ ⟨rfl, rfl⟩
  exact (Safely.push shows _).bind fun _ _ shows => Safely.next shows

theorem loadA (here : code[v.cp]? = some ⟨.loadA, r, n, d⟩) (holds : RegIs code v r b)
    (sum : (b : Int) + d = a) (small : a < 0x10000) :
    Advances code v { v with cp := v.cp + 1, stack := v.stack ++ [.truncate a] } := by
  refine .of_safely here fun m shows => ?_
  refine (Safely.asking (holds.address shows sum (by omega))).bind ?_
  rintro _ _ ⟨rfl, rfl⟩
  exact (Safely.push shows _).bind fun _ _ shows => Safely.next shows

theorem loadL (here : code[v.cp]? = some ⟨.loadL, r, n, d⟩) :
    Advances code v { v with cp := v.cp + 1, stack := v.stack ++ [.truncate d] } :=
  .of_safely here fun _ shows =>
    (Safely.push shows _).bind fun _ _ shows => Safely.next shows

theorem loadI (here : code[v.cp]? = some ⟨.loadI, r, n, d⟩)
    (top : v.stack = below ++ [.truncate a]) (slice : Slice below a ws)
    (count : n = ws.length) :
    Advances code v { v with cp := v.cp + 1, stack := below ++ ws } := by
  refine .of_safely here fun m shows => ?_
  refine (Safely.pop shows top).bind ?_
  rintro _ m' ⟨rfl, shows'⟩
  have small : a ≤ dataSize := by
    have := slice.bound
    have := shows'.fits
    simp only at this
    omega
  rw [Word.toInt_truncate (by omega) (by simp only [dataSize] at small; omega)]
  refine (Safely.asking (shows'.block slice count)).bind ?_
  rintro _ _ ⟨rfl, rfl⟩
  exact (Safely.push shows' _).bind fun _ _ shows => Safely.next shows

theorem store (here : code[v.cp]? = some ⟨.store, r, n, d⟩) (holds : RegIs code v r b)
    (sum : (b : Int) + d = a) (top : v.stack = below ++ ws) (count : n = ws.length)
    (replaces : Replaces below a ws changed) :
    Advances code v { v with cp := v.cp + 1, stack := changed } := by
  refine .of_safely here fun m shows => ?_
  have small : a ≤ dataSize := by
    obtain ⟨before, old, after, rfl, rfl, _, _⟩ := replaces
    have := shows.fits
    simp [top] at this
    omega
  refine (Safely.asking (holds.address shows sum (by simp only [dataSize] at small; omega))).bind ?_
  rintro _ _ ⟨rfl, rfl⟩
  refine (Safely.popN shows top count).bind ?_
  rintro _ _ ⟨rfl, shows⟩
  exact (Safely.storeBlock shows replaces).bind fun _ _ shows => Safely.next shows

theorem storeI (here : code[v.cp]? = some ⟨.storeI, r, n, d⟩)
    (top : v.stack = below ++ ws ++ [.truncate a]) (count : n = ws.length)
    (replaces : Replaces below a ws changed) :
    Advances code v { v with cp := v.cp + 1, stack := changed } := by
  refine .of_safely here fun m shows => ?_
  refine (Safely.pop shows top).bind ?_
  rintro _ m' ⟨rfl, shows'⟩
  have small : a ≤ dataSize := by
    obtain ⟨before, old, after, rfl, rfl, _, _⟩ := replaces
    have := shows'.fits
    simp at this
    omega
  rw [Word.toInt_truncate (by omega) (by simp only [dataSize] at small; omega)]
  refine (Safely.popN shows' rfl count).bind ?_
  rintro _ _ ⟨rfl, shows⟩
  exact (Safely.storeBlock shows replaces).bind fun _ _ shows => Safely.next shows

/-- New words are cleared. -/
theorem push (here : code[v.cp]? = some ⟨.push, r, n, k⟩) :
    Advances code v { v with cp := v.cp + 1, stack := v.stack ++ List.replicate k 0 } := by
  refine .of_safely here fun m shows => ?_
  have same : reserve k m = Machine.push (List.replicate k 0) m := by
    have nonneg : ¬(k : Int) < 0 := by omega
    simp [reserve, Machine.push, nonneg]
  have pushed := Safely.push shows (List.replicate k 0)
  rw [Safely, ← same] at pushed
  exact Safely.bind pushed fun _ _ shows => Safely.next shows

/-- Words under the top are removed. -/
theorem pop (here : code[v.cp]? = some ⟨.pop, r, n, d⟩)
    (top : v.stack = below ++ gone ++ ws) (count : n = ws.length) (depth : d = gone.length) :
    Advances code v { v with cp := v.cp + 1, stack := below ++ ws } := by
  refine .of_safely here fun m shows => ?_
  have discarded : Safely (discard n d) m fun _ m' =>
      m'.Shows code { v with stack := below ++ ws } := by
    refine (Safely.popN shows top count).bind ?_
    rintro _ m' ⟨rfl, shows'⟩
    have height : m'.st = below.length + gone.length := by simp [shows'.st]
    have enough : ¬(d < 0 ∨ m'.st < d) := by omega
    have fits := shows'.fits
    have dropped : Machine.Shows { m' with st := m'.st - d } code { v with stack := below } :=
      { shows' with
        st := by simp [height, depth]
        fits := by simp at fits ⊢; omega
        data := shows'.data.initial }
    have same : (do
        let m ← get
        if d < 0 ∨ m.st < d then throw .dataAccess
        else
          set { m with st := m.st - d }
          Machine.push ws : Exec Unit) m' = Machine.push ws { m' with st := m'.st - d } := by
      simp [enough]
    have pushed := Safely.push dropped ws
    rw [Safely, ← same] at pushed
    exact pushed
  exact discarded.bind fun _ _ shows => Safely.next shows

/-! ## Jumps -/

theorem jump (here : code[v.cp]? = some ⟨.jump, .CB, n, a⟩) (small : a < 0x10000) :
    Advances code v { v with cp := a } := by
  refine .of_safely here fun m shows => ?_
  refine (Safely.asking (regIs_CB.address shows (a := a) (by simp) (by omega))).bind ?_
  rintro _ _ ⟨rfl, rfl⟩
  exact Safely.goTo shows a

theorem jumpIf (here : code[v.cp]? = some ⟨.jumpIf, .CB, n, a⟩) (small : a < 0x10000)
    (top : v.stack = below ++ [w]) :
    Advances code v { v with cp := if w.toInt = n then a else v.cp + 1, stack := below } := by
  refine .of_safely here fun m shows => ?_
  refine (Safely.pop shows top).bind ?_
  rintro _ m' ⟨rfl, shows'⟩
  by_cases taken : w.toInt = n
  · simp only [taken, ↓reduceIte]
    refine (Safely.asking (regIs_CB.address shows' (a := a) (by simp) (by omega))).bind ?_
    rintro _ _ ⟨rfl, rfl⟩
    exact Safely.goTo shows' a
  · simp only [taken, ↓reduceIte]
    exact Safely.next shows'

end Advances
end Triangle.Machine

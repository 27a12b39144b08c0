import Mathlib
import Triangle.Proofs.Machine.Instructions

/-! Calls and returns. A call enters a routine of the code or runs a primitive, and both kinds of
call instruction do this in the same way once they have found the target and the static link. -/
namespace Triangle.Machine
open Semantics (Stop State Run)

variable {m : Machine} {code : List Instruction} {v v' : View} {a b target link : Nat}
  {ws below args : List Word}

/-- The next instruction, at the view `v`, calls `target` with static link `link`, and finds the
arguments on the stack of `v'`. -/
def CallSite (code : List Instruction) (v : View) (target link : Nat) (v' : View) : Prop :=
  v'.cp = v.cp ∧ ∃ i, code[v.cp]? = some i ∧ ∀ m : Machine, m.Shows code v →
    ∃ m', exec i m = enter target link m' ∧ m'.Shows code v'

/-- A call of a primitive runs it and goes on. -/
theorem enter_primitive (p : Primitive) (link : Int) :
    enter (primBase + p.displacement) link = (do Machine.primitive p; next : Exec Unit) := by
  have inside : primBase ≤ primBase + p.displacement ∧ primBase + p.displacement < primTop := by
    rw [primTop]
    cases p <;> simp [Primitive.displacement]
  have named : Primitive.ofDisplacement? p.displacement = some p := by cases p <;> rfl
  simp only [enter, inside, and_self, ↓reduceIte, add_sub_cancel_left, named]

namespace CallSite

theorem call (here : code[v.cp]? = some ⟨.call, r, n, d⟩) (holds : RegIs code v r b)
    (sum : (b : Int) + d = target) (small : target < 0x10000)
    (linked : RegIs code v ⟨UInt8.ofInt n⟩ link) : CallSite code v target link v := by
  refine ⟨rfl, _, here, fun m shows => ⟨m, ?_, shows⟩⟩
  simp [exec, asking, holds.address (i := ⟨.call, r, n, d⟩) shows sum small, linked m shows]

theorem callI (here : code[v.cp]? = some ⟨.callI, r, n, d⟩)
    (top : v.stack = below ++ [.truncate link, .truncate target]) (linkSmall : link < 0x8000)
    (targetSmall : target < 0x8000) :
    CallSite code v target link { v with stack := below } := by
  refine ⟨rfl, _, here, fun m shows => ?_⟩
  have split : v.stack = below ++ [.truncate link] ++ [.truncate target] := by simp [top]
  obtain ⟨first, popped, shows⟩ := shows.pop split
  obtain ⟨second, poppedAgain, shows⟩ := shows.pop rfl
  refine ⟨second, ?_, shows⟩
  simp only [exec]
  rw [Result.bind_ok popped, Result.bind_ok poppedAgain, Word.toInt_truncate (by omega) (by omega),
    Word.toInt_truncate (by omega) (by omega)]

/-- A frame starts with the static link, the caller's base and the return address. -/
theorem enters (site : CallSite code v target link v') (size : code.length ≤ codeSize)
    (inside : target < code.length) :
    Advances code v { v' with
      cp := target
      lb := v'.stack.length
      stack := v'.stack ++ [.truncate link, .truncate v'.lb, .truncate (v'.cp + 1 : Nat)] } := by
  obtain ⟨_, i, here, calls⟩ := site
  refine .of_safely here fun m shows => ?_
  obtain ⟨m', same, shows'⟩ := calls m shows
  rw [Safely, same]
  have program : ¬(primBase ≤ target ∧ (target : Int) < primTop) := by
    simp only [primBase]
    omega
  have nonneg : ¬(target : Int) < 0 := by omega
  have valid : ¬m'.code.size ≤ target := by simpa [shows'.code] using inside
  have unfolded : enter target link m' = (do
      push [.truncate link, .truncate m'.lb, .truncate (m'.cp + 1)]
      modify fun after => { after with lb := m'.st, cp := target } : Exec Unit) m' := by
    simp [enter, program, nonneg, valid]
  rw [unfolded]
  refine (Safely.push shows' _).bind fun _ m'' shows'' => ?_
  refine .of_ok (a := ()) (f := { m'' with lb := m'.st, cp := target }) rfl ?_
  have frame : ([.truncate link, .truncate m'.lb, .truncate (m'.cp + 1)] : List Word) =
      [.truncate link, .truncate v'.lb, .truncate (v'.cp + 1 : Nat)] := by
    simp [shows'.lb, shows'.cp]
  rw [frame] at shows''
  exact { shows'' with cp := rfl, lb := by simp [shows'.st] }

theorem primitive {r : EStateM.Result Stop State α} {after : α → State → View → Prop}
    (site : CallSite code v target link v') {p : Primitive}
    (aimed : (target : Int) = primBase + p.displacement)
    (matched : ∀ m, m.Shows code v' → Matches code (Machine.primitive p) m r after) :
    Follows code leaves n v r fun a s w =>
      ∃ w', after a s w' ∧ w = { w' with cp := w'.cp + 1 } := by
  obtain ⟨_, i, here, calls⟩ := site
  refine .of_matches here fun m shows => ?_
  obtain ⟨m', same, shows'⟩ := calls m shows
  unfold Matches
  rw [same, aimed, enter_primitive]
  rcases matched m' shows' with ⟨m'', overflow⟩ | matched
  · exact .inl ⟨m'', Result.bind_error overflow⟩
  · refine .inr ?_
    match r, matched with
    | .ok x s, ⟨m'', w, done, shows'', holds⟩ =>
      exact ⟨{ m'' with cp := m''.cp + 1 }, { w with cp := w.cp + 1 }, Result.bind_ok done,
        { shows'' with cp := by simp [shows''.cp] }, w, holds, rfl⟩
    | .error (.trap cause) s, ⟨ordinary, m'', failed, same⟩ =>
      exact ⟨ordinary, m'', Result.bind_error failed, same⟩

end CallSite

/-- A return puts the result in place of the frame and the arguments. -/
theorem Advances.ret {outer back : Nat} (here : code[v.cp]? = some ⟨.ret, r, n, d⟩)
    (frame : v.stack = below ++ args ++
      [.truncate link, .truncate outer, .truncate back] ++ ws)
    (base : v.lb = below.length + args.length) (count : n = ws.length) (depth : d = args.length)
    (outerSmall : outer < 0x8000) (backSmall : back < 0x8000) :
    Advances code v { v with cp := back, lb := outer, stack := below ++ ws } := by
  refine .of_safely here fun m shows => ?_
  have large := shows.fits
  simp only [frame, List.length_append, List.length_cons, List.length_nil, dataSize] at large
  refine (Safely.popN shows frame count).bind ?_
  rintro _ m' ⟨rfl, shows'⟩
  have header : m'.block m'.lb 3 = .ok [.truncate link, .truncate outer, .truncate back] := by
    rw [shows'.lb]
    exact shows'.block ⟨below ++ args, [], by simp, by simp [base]⟩ rfl
  have bottom : wrap64 (m'.lb - d) = below.length := by
    rw [shows'.lb, depth, base, wrap64_eq (by omega) (by omega)]
    omega
  have dropped : Machine.Shows { m' with st := below.length, lb := outer } code
      { v with lb := outer, stack := below } :=
    { shows' with
      lb := rfl
      st := rfl
      fits := by simp only [dataSize]; omega
      data := by
        have data := shows'.data
        simp only [List.append_assoc] at data
        exact data.initial }
  have unfolded : (do
      let m ← get
      let frame ← asking (·.block m.lb 3)
      let st := wrap64 (m.lb - d)
      set { m with st }
      if st < 0 then throw .dataAccess
      else
        modify fun m => { m with lb := (frame.getD 1 0).toInt }
        Machine.push ws
        goTo (frame.getD 2 0).toInt : Exec Unit) m' =
      (do Machine.push ws; goTo back : Exec Unit) { m' with st := below.length, lb := outer } := by
    have outerValue := Word.toInt_truncate (n := outer) (by omega) (by omega)
    have backValue := Word.toInt_truncate (n := back) (by omega) (by omega)
    have nonneg : ¬(below.length : Int) < 0 := by omega
    simp [asking, header, nonneg, bottom, outerValue, backValue]
  rw [Safely, unfolded]
  exact (Safely.push dropped ws).bind fun _ _ shows => Safely.goTo shows back

end Triangle.Machine

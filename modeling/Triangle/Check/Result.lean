import Triangle.Diagnostic
import Triangle.Tree.Slots

/-! Results of checking. A node comes back annotated as far as checking got, also when it
fails; errors already reported inside of it come with it. -/
namespace Triangle.Check

structure Checked (α β : Type) where
  node : α
  result : Except Diagnostic β
  reports : List Diagnostic := []

namespace Checked
variable {α β γ δ : Type}

def pass (node : α) (b : β) : Checked α β := ⟨node, .ok b, []⟩

def fail (node : α) (d : Diagnostic) : Checked α β := ⟨node, .error d, []⟩

/-- Goes on with `next` after a success; after a failure the node is what `rebuild` makes of the
part that was checked. -/
def andThen (c : Checked α β) (rebuild : α → γ) (next : α → β → Checked γ δ) : Checked γ δ :=
  match c.result with
  | .error d => ⟨rebuild c.node, .error d, c.reports⟩
  | .ok b =>
    let after := next c.node b
    { after with reports := c.reports ++ after.reports }

/-- Gives a node its type, or leaves its type slot as it was. -/
def settle (make : Info → α) (info : Info) : Except Diagnostic Ty → Checked α Ty
  | .ok t => pass (make (info.setTy t)) t
  | .error d => fail (make info) d

end Checked
end Triangle.Check

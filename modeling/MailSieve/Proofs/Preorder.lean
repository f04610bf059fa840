import Mathlib
import MailSieve.Script

/-!
# Source order

The commands of a script, each before those of its block, and the tests of a
command, each before those it contains.
-/

namespace MailSieve

mutual
def Command.preorder : Command → List Command
  | ⟨name, arguments, tests, block, position⟩ =>
    ⟨name, arguments, tests, block, position⟩ :: Script.blockPreorder block
def Script.blockPreorder : Option (List Command) → List Command
  | none => []
  | some commands => Script.preorder commands
def Script.preorder : List Command → List Command
  | [] => []
  | c :: cs => c.preorder ++ Script.preorder cs
end

theorem Command.preorder_eq (c : Command) : c.preorder = c :: Script.blockPreorder c.block := by
  cases c
  rw [preorder]

theorem Command.mem_preorder_self (c : Command) : c ∈ c.preorder := by
  rw [preorder_eq]
  exact List.mem_cons_self

theorem Command.blockPreorder_subset (c : Command) : Script.blockPreorder c.block ⊆ c.preorder := by
  rw [preorder_eq]
  exact List.subset_cons_self _ _

theorem Script.mem_preorder {script : Script} {d : Command} :
    d ∈ Script.preorder script ↔ ∃ c ∈ script, d = c ∨ d ∈ Script.blockPreorder c.block := by
  induction script with
  | nil => simp [preorder]
  | cons c cs ih => simp [preorder, Command.preorder_eq, ih, or_assoc]

/-! ## Tests -/

mutual
def Test.preorder : Test → List Test
  | ⟨name, arguments, tests, position⟩ => ⟨name, arguments, tests, position⟩ :: Test.preorder? tests
def Test.preorder? : Option (List Test) → List Test
  | none => []
  | some tests => Test.preorderAll tests
def Test.preorderAll : List Test → List Test
  | [] => []
  | t :: ts => t.preorder ++ Test.preorderAll ts
end

theorem Test.preorder_eq (t : Test) : t.preorder = t :: Test.preorder? t.tests := by
  cases t
  rw [preorder]

def Script.tests (script : Script) : List Test :=
  (Script.preorder script).flatMap fun c => Test.preorder? c.tests

end MailSieve

import Mathlib
import MailSieve.Registry.Environment

/-!
# What the standard names stand for

Every entry of the standard tables was inserted under its own id, so a lookup
that succeeds says what was found.
-/

namespace MailSieve

namespace Registry

theorem get?_insert (r : Registry α) (name : String) (value : α) (n : String) :
    (r.insert name value).get? n = if n = name then some value else r.get? n :=
  r.table.get?_insert name value n

theorem lookup_eq_ok {r : Registry α} {name : String} {value : α} :
    r.lookup name = .ok value ↔ r.get? name = some value := by
  unfold lookup
  cases r.get? name <;> simp

/-- What is found after insertions was inserted, or was there before. -/
theorem mem_of_get?_foldl_insert (name : β → String) (value : β → α) {entries : List β}
    {r : Registry α} {n : String} {v : α}
    (h : (entries.foldl (fun r e => r.insert (name e) (value e)) r).get? n = some v) :
    (∃ e ∈ entries, name e = n ∧ value e = v) ∨ r.get? n = some v := by
  induction entries generalizing r with
  | nil => exact .inr h
  | cons e entries ih =>
    rcases ih h with ⟨e', he', hn, hv⟩ | h
    · exact .inl ⟨e', List.mem_cons_of_mem _ he', hn, hv⟩
    · rw [get?_insert] at h
      by_cases hn : n = name e
      · rw [if_pos hn] at h
        exact .inl ⟨e, List.mem_cons_self, hn.symm, Option.some.inj h⟩
      · rw [if_neg hn] at h
        exact .inr h

end Registry

namespace Environment

def standardWith (strict : Bool) : Environment :=
  { standard with enforceRequire := strict }

theorem standard_commands_lookup (kind : CommandKind) : standard.commands.lookup kind.id = .ok kind := by
  cases kind <;> rfl

theorem standard_commands_lookup_eq_ok {name : String} {kind : CommandKind} :
    standard.commands.lookup name = .ok kind ↔ name = kind.id := by
  constructor
  · intro h
    have h := Registry.lookup_eq_ok.1 h
    rcases Registry.mem_of_get?_foldl_insert CommandKind.id id h with ⟨e, -, hn, rfl⟩ | h
    · exact hn.symm
    · cases h
  · rintro rfl
    exact standard_commands_lookup kind

theorem eq_of_id_eq {a b : CommandKind} (h : a.id = b.id) : a = b := by
  have ha := standard_commands_lookup a
  rw [h, standard_commands_lookup b] at ha
  exact (Except.ok.inj ha).symm

theorem standard_tests_lookup_mem {name : String} {kind : TestKind}
    (h : standard.tests.lookup name = .ok kind) : (name, kind) ∈ TestKind.all := by
  have h := Registry.lookup_eq_ok.1 h
  rcases Registry.mem_of_get?_foldl_insert Prod.fst Prod.snd h with ⟨e, he, rfl, rfl⟩ | h
  · exact he
  · cases h

theorem standard_tests_not_host {name : String} {test : HostTest} :
    standard.tests.lookup name ≠ .ok (.host test) := by
  intro h
  simpa [TestKind.all] using standard_tests_lookup_mem h

end Environment

end MailSieve

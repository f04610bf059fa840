import MailSieve.Proofs.TaggedArguments

/-!
# The comparator a test names

A comparator is looked for in two ways. The static check takes the string list after each
comparator tag, wherever it stands; the test itself reads its tag part from the front. Of
arguments that can be read both find the same comparator, or none.
-/

namespace MailSieve

namespace TagGroup

variable {g : TagGroup}

/-- A group ends with no comparator tag, so what follows it names nothing more. -/
theorem namedComparators_append (g : TagGroup) (rest : List Argument) :
    namedComparators (g.arguments ++ rest) = g.comparator?.toList ++ namedComparators rest := by
  cases g with
  | comparator name => simp [arguments, comparator?, namedComparators, comparatorTag]
  | matchType m =>
    have htag : m.tag ≠ comparatorTag := by cases m <;> decide
    cases rest with
    | nil => rfl
    | cons a rest => cases a <;> simp [arguments, comparator?, namedComparators, htag]
  | addressPart part =>
    have htag : part.tag ≠ comparatorTag := by cases part <;> decide
    cases rest with
    | nil => rfl
    | cons a rest => cases a <;> simp [arguments, comparator?, namedComparators, htag]

theorem comparatorTag_mem_arguments : .tag comparatorTag ∈ g.arguments ↔ g.comparator?.isSome := by
  cases g with
  | comparator name => simp [arguments, comparator?, comparatorTag]
  | matchType m => cases m <;> decide
  | addressPart part => cases part <;> decide

end TagGroup

theorem namedComparators_strings (lists : List (List String)) : namedComparators (lists.map .strings) = [] := by
  induction lists with
  | nil => rfl
  | cons items lists ih => exact ih

theorem namedComparators_groups (groups : List TagGroup) (lists : List (List String)) :
    namedComparators (groups.flatMap TagGroup.arguments ++ lists.map .strings) =
      groups.filterMap TagGroup.comparator? := by
  induction groups with
  | nil => exact namedComparators_strings lists
  | cons g groups ih =>
    rw [List.flatMap_cons, List.append_assoc, TagGroup.namedComparators_append, ih]
    cases h : g.comparator? with
    | none => rw [List.filterMap_cons_none h]; rfl
    | some name => rw [List.filterMap_cons_some h]; rfl

theorem comparatorTag_mem_groups (groups : List TagGroup) (lists : List (List String)) :
    .tag comparatorTag ∈ groups.flatMap TagGroup.arguments ++ lists.map .strings ↔
      groups.filterMap TagGroup.comparator? ≠ [] := by
  have hlists : .tag comparatorTag ∉ lists.map Argument.strings := by simp
  rw [List.mem_append, or_iff_left hlists, List.mem_flatMap]
  simp only [TagGroup.comparatorTag_mem_arguments]
  constructor
  · rintro ⟨g, hg, hnames⟩
    obtain ⟨name, hname⟩ := Option.isSome_iff_exists.1 hnames
    exact List.ne_nil_of_mem (List.mem_filterMap.2 ⟨g, hg, hname⟩)
  · intro hne
    obtain ⟨name, hmem⟩ := List.exists_mem_of_ne_nil _ hne
    obtain ⟨g, hg, hname⟩ := List.mem_filterMap.1 hmem
    exact ⟨g, hg, Option.isSome_of_eq_some hname⟩

theorem Environment.validateComparators_singleton (env : Environment) (enabled : List String) (name : String) :
    env.validateComparators enabled [name] = verdict (env.comparator enabled name) := by
  unfold validateComparators verdict
  cases env.comparator enabled name <;> rfl

namespace Comparison

/-- The comparators that are checked for a test are the one it compares with, if it has a
comparator tag, and none if it compares with the default one. -/
theorem ofTest_namedComparators (t : Test) (takesPart : Bool) (n : Nat) (args : Comparison)
    (h : ofTest t takesPart n = .ok args) :
    (.tag ":comparator" ∈ t.arguments →
      namedComparators t.arguments = [args.comparator] ∧
      ∀ (env : Environment) (enabled : List String),
        env.validateComparators enabled (namedComparators t.arguments) =
          verdict (env.comparator enabled args.comparator)) ∧
    (.tag ":comparator" ∉ t.arguments →
      namedComparators t.arguments = [] ∧ args.comparator = "i;ascii-casemap") := by
  obtain ⟨-, tags, lists, hread, -, rfl⟩ := ofTest_eq_ok.1 h
  obtain ⟨groups, harguments, hgroups, rfl⟩ := groups_of_read hread rfl rfl .nil
  have htag := comparatorTag_mem_groups groups lists
  rw [harguments, namedComparators_groups]
  simp only [List.nil_append, ComparisonTags.ofGroups] at hgroups ⊢
  cases hnames : groups.filterMap TagGroup.comparator? with
  | nil =>
    rw [hnames] at htag
    exact ⟨fun hmem => absurd rfl (htag.1 hmem), fun _ => ⟨rfl, rfl⟩⟩
  | cons name names =>
    -- there is at most one group of a comparator
    have hone := hgroups.comparator
    rw [hnames, List.length_cons] at hone
    obtain rfl : names = [] := List.length_eq_zero_iff.1 (by omega)
    rw [hnames] at htag
    refine ⟨fun _ => ⟨rfl, fun env enabled => env.validateComparators_singleton enabled name⟩, ?_⟩
    intro hmem
    exact absurd (htag.2 (List.cons_ne_nil _ _)) hmem

def octetTest : Test :=
  ⟨"header", [.tag ":matches", .tag ":comparator", .strings ["i;octet"], .strings ["Subject", ":comparator"],
    .strings ["i;unknown"]], none, ⟨2, 4⟩⟩

theorem ofTest_namedComparators_octet :
    ofTest octetTest false 2 =
      .ok ⟨"i;octet", .globs, .all, [["Subject", ":comparator"], ["i;unknown"]]⟩ ∧
    .tag ":comparator" ∈ octetTest.arguments ∧ namedComparators octetTest.arguments = ["i;octet"] := by
  have hread : ofTest octetTest false 2 =
      .ok ⟨"i;octet", .globs, .all, [["Subject", ":comparator"], ["i;unknown"]]⟩ := by cbv
  have htag : .tag ":comparator" ∈ octetTest.arguments := by simp [octetTest]
  exact ⟨hread, htag, ((ofTest_namedComparators octetTest false 2 _ hread).1 htag).1⟩

end Comparison

end MailSieve

import MailSieve.Proofs.Distribution

/-!
# The grammar of comparison arguments

The arguments of a comparison are a tag part and then string lists. The tag part is made of
groups, at most one of each sort and in any order. Of the string lists, the one in the group of
a comparator is no operand; it is told from the operands by the tag before it.
-/

namespace MailSieve

inductive TagGroup
  | comparator (name : String)
  | matchType (m : MatchType)
  | addressPart (part : AddressPart)
deriving DecidableEq

namespace TagGroup

def arguments : TagGroup → List Argument
  | comparator name => [.tag ":comparator", .strings [name]]
  | matchType m => [.tag m.tag]
  | addressPart part => [.tag part.tag]

def comparator? : TagGroup → Option String
  | comparator name => some name
  | _ => none

def matchType? : TagGroup → Option MatchType
  | matchType m => some m
  | _ => none

def addressPart? : TagGroup → Option AddressPart
  | addressPart part => some part
  | _ => none

end TagGroup

open TagGroup

/-- At most one group of each sort, and an address part only where one is taken. -/
@[mk_iff]
structure TagPart (takesPart : Bool) (groups : List TagGroup) : Prop where
  comparator : (groups.filterMap comparator?).length ≤ 1
  matchType : (groups.filterMap matchType?).length ≤ 1
  addressPart : (groups.filterMap addressPart?).length ≤ if takesPart then 1 else 0

def Comparison.ofGroups (groups : List TagGroup) (lists : List (List String)) : Comparison where
  comparator := (groups.filterMap comparator?).head?.getD "i;ascii-casemap"
  matchType := (groups.filterMap matchType?).head?.getD .is
  addressPart := (groups.filterMap addressPart?).head?.getD .all
  operands := lists

/-! ## One group -/

namespace TagGroup

def Fits (takesPart : Bool) (tags : ComparisonTags) : TagGroup → Prop
  | comparator _ => tags.comparator = none
  | matchType _ => tags.matchType = none
  | addressPart _ => tags.addressPart = none ∧ takesPart = true

def addTo (tags : ComparisonTags) : TagGroup → ComparisonTags
  | comparator name => { tags with comparator := some name }
  | matchType m => { tags with matchType := some m }
  | addressPart part => { tags with addressPart := some part }

end TagGroup

namespace Comparison

section
variable {name : String} {takesPart : Bool} {tags tags' : ComparisonTags} {tag : String} {g : TagGroup}

theorem matchType_ofTag?_addressPart (part : AddressPart) : MatchType.ofTag? part.tag = none := by
  cases part <;> decide

theorem addTag_matchType (h : tags.matchType = none) (m : MatchType) :
    addTag name takesPart tags m.tag = .ok { tags with matchType := some m } := by
  unfold addTag
  rw [MatchType.ofTag?_eq_some.2 rfl]
  simp only [fill_eq_ok.2 ⟨h, rfl⟩, ok_bind]
  rfl

theorem addTag_addressPart (h : tags.addressPart = none) (part : AddressPart) :
    addTag name true tags part.tag = .ok { tags with addressPart := some part } := by
  unfold addTag
  rw [matchType_ofTag?_addressPart, AddressPart.ofTag?_eq_some.2 rfl]
  simp only [fill_eq_ok.2 ⟨h, rfl⟩, ok_bind]
  rfl

theorem group_of_addTag (h : addTag name takesPart tags tag = .ok tags') :
    ∃ g : TagGroup, g.arguments = [.tag tag] ∧ g.Fits takesPart tags ∧ tags' = g.addTo tags := by
  unfold addTag at h
  split at h
  · next m hm =>
    obtain ⟨filled, hfill, h⟩ := bind_eq_ok.1 h
    obtain ⟨hnone, rfl⟩ := fill_eq_ok.1 hfill
    cases MatchType.ofTag?_eq_some.1 hm
    exact ⟨.matchType m, rfl, hnone, (pure_eq_ok.1 h).symm⟩
  · split at h
    · next part hpart =>
      obtain ⟨filled, hfill, h⟩ := bind_eq_ok.1 h
      obtain ⟨hnone, rfl⟩ := fill_eq_ok.1 hfill
      cases AddressPart.ofTag?_eq_some.1 hpart
      exact ⟨.addressPart part, rfl, ⟨hnone, rfl⟩, (pure_eq_ok.1 h).symm⟩
    · cases h

theorem read_comparatorTag (comparator : String) (rest : List Argument) :
    read name takesPart tags [] (.tag comparatorTag :: .strings [comparator] :: rest) = (do
      let filled ← fill tags.comparator comparator name comparatorTag
      read name takesPart { tags with comparator := filled } [] rest) := by
  rw [read]
  rfl

theorem read_otherTag (htag : tag ≠ comparatorTag) (rest : List Argument) :
    read name takesPart tags [] (.tag tag :: rest) = (do
      read name takesPart (← addTag name takesPart tags tag) [] rest) := by
  rw [read.eq_def]
  simp only [if_neg htag]
  rfl

theorem read_group (h : g.Fits takesPart tags) (rest : List Argument) :
    read name takesPart tags [] (g.arguments ++ rest) = read name takesPart (g.addTo tags) [] rest := by
  cases g with
  | comparator c =>
    have hfill : fill tags.comparator c name comparatorTag = .ok (some c) := fill_eq_ok.2 ⟨h, rfl⟩
    exact (read_comparatorTag c rest).trans (by rw [hfill, ok_bind]; rfl)
  | matchType m =>
    have htag : m.tag ≠ comparatorTag := by cases m <;> decide
    exact (read_otherTag htag rest).trans (by rw [addTag_matchType h, ok_bind]; rfl)
  | addressPart part =>
    obtain ⟨hnone, rfl⟩ := h
    have htag : part.tag ≠ comparatorTag := by cases part <;> decide
    exact (read_otherTag htag rest).trans (by rw [addTag_addressPart hnone, ok_bind]; rfl)

end

end Comparison

/-! ## The tag part -/

def ComparisonTags.ofGroups (groups : List TagGroup) : ComparisonTags where
  comparator := (groups.filterMap comparator?).head?
  matchType := (groups.filterMap matchType?).head?
  addressPart := (groups.filterMap addressPart?).head?

section
variable {takesPart : Bool} {groups groups' before : List TagGroup} {g : TagGroup}

theorem filterMap_snoc_some {f : TagGroup → Option α} {a : α} (h : f g = some a) :
    (before ++ [g]).filterMap f = before.filterMap f ++ [a] := by
  rw [List.filterMap_append, List.filterMap_cons_some h, List.filterMap_nil]

theorem filterMap_snoc_none {f : TagGroup → Option α} (h : f g = none) :
    (before ++ [g]).filterMap f = before.filterMap f := by
  rw [List.filterMap_append, List.filterMap_cons_none h, List.filterMap_nil, List.append_nil]

theorem length_snoc_le_one {xs : List α} {a : α} : (xs ++ [a]).length ≤ 1 ↔ xs.length ≤ 1 ∧ xs.head? = none := by
  cases xs <;> simp

theorem TagPart.nil : TagPart takesPart [] :=
  ⟨Nat.zero_le _, Nat.zero_le _, Nat.zero_le _⟩

theorem TagPart.of_append (h : TagPart takesPart (groups ++ groups')) : TagPart takesPart groups := by
  obtain ⟨hc, hm, ha⟩ := h
  simp only [List.filterMap_append, List.length_append] at hc hm ha
  exact ⟨by omega, by omega, by omega⟩

theorem TagPart.snoc :
    TagPart takesPart (before ++ [g]) ↔ TagPart takesPart before ∧ g.Fits takesPart (.ofGroups before) := by
  rw [tagPart_iff, tagPart_iff]
  cases g with
  | comparator name =>
    rw [filterMap_snoc_some (f := comparator?) rfl, filterMap_snoc_none (f := matchType?) rfl,
      filterMap_snoc_none (f := addressPart?) rfl, length_snoc_le_one]
    simp only [Fits, ComparisonTags.ofGroups]
    tauto
  | matchType m =>
    rw [filterMap_snoc_none (f := comparator?) rfl, filterMap_snoc_some (f := matchType?) rfl,
      filterMap_snoc_none (f := addressPart?) rfl, length_snoc_le_one]
    simp only [Fits, ComparisonTags.ofGroups]
    tauto
  | addressPart part =>
    rw [filterMap_snoc_none (f := comparator?) rfl, filterMap_snoc_none (f := matchType?) rfl,
      filterMap_snoc_some (f := addressPart?) rfl]
    simp only [Fits, ComparisonTags.ofGroups]
    cases takesPart with
    | false => simp
    | true =>
      simp only [if_true, length_snoc_le_one]
      tauto

theorem ofGroups_snoc (h : g.Fits takesPart (.ofGroups before)) :
    ComparisonTags.ofGroups (before ++ [g]) = g.addTo (.ofGroups before) := by
  unfold ComparisonTags.ofGroups at h ⊢
  cases g with
  | comparator name =>
    have hnone : before.filterMap comparator? = [] := List.head?_eq_none_iff.1 h
    rw [filterMap_snoc_some (f := comparator?) rfl, filterMap_snoc_none (f := matchType?) rfl,
      filterMap_snoc_none (f := addressPart?) rfl, hnone]
    rfl
  | matchType m =>
    have hnone : before.filterMap matchType? = [] := List.head?_eq_none_iff.1 h
    rw [filterMap_snoc_none (f := comparator?) rfl, filterMap_snoc_some (f := matchType?) rfl,
      filterMap_snoc_none (f := addressPart?) rfl, hnone]
    rfl
  | addressPart part =>
    have hnone : before.filterMap addressPart? = [] := List.head?_eq_none_iff.1 h.1
    rw [filterMap_snoc_none (f := comparator?) rfl, filterMap_snoc_none (f := matchType?) rfl,
      filterMap_snoc_some (f := addressPart?) rfl, hnone]
    rfl

/-! ## Reading a tag part -/

namespace Comparison

variable {name : String} {tags tags' : ComparisonTags} {lists lists' : List (List String)} {args : List Argument}

theorem read_groups (before : List TagGroup) (h : TagPart takesPart (before ++ groups)) (rest : List Argument) :
    read name takesPart (.ofGroups before) [] (groups.flatMap TagGroup.arguments ++ rest) =
      read name takesPart (.ofGroups (before ++ groups)) [] rest := by
  induction groups generalizing before with
  | nil => rw [List.append_nil]; rfl
  | cons g groups ih =>
    rw [List.append_cons] at h ⊢
    have hfits := (TagPart.snoc.1 h.of_append).2
    rw [List.flatMap_cons, List.append_assoc, read_group hfits, ← ofGroups_snoc hfits, ih _ h]

/-- What is read is a tag part and then string lists. -/
theorem groups_of_read (h : read name takesPart tags lists args = .ok (tags', lists')) (hlists : lists = [])
    (htags : tags = .ofGroups before) (hbefore : TagPart takesPart before) :
    ∃ groups, args = groups.flatMap TagGroup.arguments ++ lists'.map .strings ∧
      TagPart takesPart (before ++ groups) ∧ tags' = .ofGroups (before ++ groups) := by
  fun_induction read name takesPart tags lists args generalizing before with
  | case1 tags lists =>
    cases h
    subst hlists htags
    exact ⟨[], rfl, by rwa [List.append_nil], by rw [List.append_nil]⟩
  | case2 tags lists items rest ih =>
    subst hlists htags
    obtain ⟨more, rfl, rfl, rfl⟩ := read_late (List.cons_ne_nil _ _) h
    exact ⟨[], rfl, by rwa [List.append_nil], by rw [List.append_nil]⟩
  | case3 => cases h
  | case4 => cases h
  | case5 tags lists _ comparator rest ih =>
    obtain ⟨filled, hfill, h⟩ := bind_eq_ok.1 h
    obtain ⟨hnone, rfl⟩ := fill_eq_ok.1 hfill
    subst htags
    have hfits : (TagGroup.comparator comparator).Fits takesPart (.ofGroups before) := hnone
    obtain ⟨groups, rfl, hgroups, rfl⟩ :=
      ih _ h hlists (ofGroups_snoc hfits).symm (TagPart.snoc.2 ⟨hbefore, hfits⟩)
    exact ⟨.comparator comparator :: groups, rfl, by rwa [List.append_cons], by rw [← List.append_cons]⟩
  | case6 => cases h
  | case7 tags lists tag rest _ htag ih =>
    obtain ⟨tags₁, hadd, h⟩ := bind_eq_ok.1 h
    subst htags
    obtain ⟨g, hg, hfits, rfl⟩ := group_of_addTag hadd
    obtain ⟨groups, rfl, hgroups, rfl⟩ :=
      ih _ h hlists (ofGroups_snoc hfits).symm (TagPart.snoc.2 ⟨hbefore, hfits⟩)
    refine ⟨g :: groups, ?_, by rwa [List.append_cons], by rw [← List.append_cons]⟩
    rw [List.flatMap_cons, hg]
    rfl

end Comparison

/-! ## Permuted groups -/

theorem eq_of_perm_of_length_le_one {xs ys : List α} (h : xs.Perm ys) (hxs : xs.length ≤ 1) : xs = ys := by
  match xs, hxs with
  | [], _ => exact h.nil_eq
  | [x], _ => exact (List.perm_singleton.1 h.symm).symm

theorem TagPart.perm (h : TagPart takesPart groups) (hperm : groups.Perm groups') :
    TagPart takesPart groups' ∧ ComparisonTags.ofGroups groups' = .ofGroups groups := by
  have hc := eq_of_perm_of_length_le_one (hperm.filterMap comparator?) h.comparator
  have hm := eq_of_perm_of_length_le_one (hperm.filterMap matchType?) h.matchType
  have ha := eq_of_perm_of_length_le_one (hperm.filterMap addressPart?) (h.addressPart.trans (by split <;> simp))
  constructor
  · rw [tagPart_iff, ← hc, ← hm, ← ha]
    exact (tagPart_iff _ _).1 h
  · unfold ComparisonTags.ofGroups
    rw [hc, hm, ha]

end

def Test.withTagPart (t : Test) (groups : List TagGroup) (rest : List Argument) : Test :=
  { t with arguments := groups.flatMap TagGroup.arguments ++ rest }

namespace Comparison

/-- The arguments of a comparison are read exactly if they are a tag part and as many string
lists as the test takes. The order of the groups does not matter, whatever comes after them. -/
theorem ofTest_eq_ok_iff_tagPart (t : Test) (takesPart : Bool) (n : Nat) :
    (∀ args, ofTest t takesPart n = .ok args ↔
      t.tests = none ∧ ∃ groups lists,
        t.arguments = groups.flatMap TagGroup.arguments ++ lists.map .strings ∧
        TagPart takesPart groups ∧ lists.length = n ∧ args = ofGroups groups lists) ∧
    ∀ groups groups' rest, TagPart takesPart groups → groups.Perm groups' →
      ofTest (t.withTagPart groups' rest) takesPart n = ofTest (t.withTagPart groups rest) takesPart n := by
  constructor
  · intro args
    rw [ofTest_eq_ok]
    refine and_congr_right fun _ => ⟨?_, ?_⟩
    · intro ⟨tags, lists, hread, hn, hargs⟩
      obtain ⟨groups, harguments, hgroups, rfl⟩ := groups_of_read hread rfl rfl .nil
      exact ⟨groups, lists, harguments, hgroups, hn, hargs⟩
    · intro ⟨groups, lists, harguments, hgroups, hn, hargs⟩
      refine ⟨.ofGroups groups, lists, ?_, hn, hargs⟩
      rw [harguments]
      exact (read_groups [] hgroups _).trans (read_strings _ _ _ [] lists)
  · intro groups groups' rest hgroups hperm
    obtain ⟨hgroups', htags⟩ := hgroups.perm hperm
    have hread : read t.name takesPart {} [] (groups'.flatMap TagGroup.arguments ++ rest) =
        read t.name takesPart {} [] (groups.flatMap TagGroup.arguments ++ rest) := by
      calc
        _ = read t.name takesPart (.ofGroups groups') [] rest := read_groups [] hgroups' rest
        _ = read t.name takesPart (.ofGroups groups) [] rest := by rw [htags]
        _ = _ := (read_groups [] hgroups rest).symm
    unfold ofTest Test.withTagPart
    simp only [hread]

def domainGroups : List TagGroup := [.matchType .contains, .comparator "i;octet", .addressPart .domain]

def domainTest : Test :=
  ⟨"address", domainGroups.flatMap TagGroup.arguments ++ [.strings ["From", "To"], .strings ["i;octet"]],
    none, ⟨1, 4⟩⟩

theorem ofTest_eq_ok_iff_tagPart_reversed :
    ofTest domainTest true 2 = .ok ⟨"i;octet", .contains, .domain, [["From", "To"], ["i;octet"]]⟩ ∧
    TagPart true domainGroups ∧ domainGroups.Perm domainGroups.reverse ∧
    ofTest (domainTest.withTagPart domainGroups.reverse [.strings ["From"], .tag ":is"]) true 2 =
      ofTest (domainTest.withTagPart domainGroups [.strings ["From"], .tag ":is"]) true 2 := by
  have hgroups : TagPart true domainGroups := ⟨by decide, by decide, by decide⟩
  have hperm : domainGroups.Perm domainGroups.reverse := (List.reverse_perm domainGroups).symm
  refine ⟨?_, hgroups, hperm, (ofTest_eq_ok_iff_tagPart domainTest true 2).2 _ _ _ hgroups hperm⟩
  exact ((ofTest_eq_ok_iff_tagPart domainTest true 2).1 _).2
    ⟨rfl, domainGroups, [["From", "To"], ["i;octet"]], rfl, hgroups, rfl, rfl⟩

end Comparison

end MailSieve

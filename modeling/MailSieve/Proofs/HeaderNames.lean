import MailSieve.Mail.Message
import MailSieve.Proofs.Evaluation

/-!
# Names and values of headers

A message is read by the names of its headers, up to case. The names are listed by one walk
over the headers and the values of a name by another. Both see the same classes of names: each
class is listed once, in its first spelling, and together the listed names have all values.
-/

namespace MailSieve

namespace Text

theorem sameFolded_self (a : String) : sameFolded a a = true :=
  beq_self_eq_true _

/-- Two spellings of one name agree with the same names. -/
theorem sameFolded_congr {a b : String} (h : sameFolded a b = true) (c : String) :
    sameFolded c a = sameFolded c b := by
  unfold sameFolded at h ⊢
  rw [eq_of_beq h]

theorem sameFolded_symm {a b : String} (h : sameFolded a b = true) : sameFolded b a = true := by
  rw [sameFolded_congr h, sameFolded_self]

theorem sameFolded_eq_false_symm {a b : String} (h : sameFolded a b = false) : sameFolded b a = false := by
  by_contra hba
  rw [sameFolded_symm (Bool.eq_true_of_not_eq_false hba)] at h
  cases h

theorem sameFolded_trans {a b c : String} (hab : sameFolded a b = true) (hbc : sameFolded b c = true) :
    sameFolded a c = true := by
  rw [← sameFolded_congr hbc, hab]

end Text

/-! ## Listing the names -/

/-- Of the names, each is listed in the spelling in which it comes first, and the names are
listed in the order in which they come first. -/
structure FirstSpellings (names listed : List String) : Prop where
  first : ∀ d ∈ listed, names.find? (Text.sameFolded · d) = some d
  inOrder : listed.Pairwise fun a b =>
    names.findIdx (Text.sameFolded · a) < names.findIdx (Text.sameFolded · b)
  covered : ∀ n ∈ names, ∃ d ∈ listed, Text.sameFolded d n = true

namespace FirstSpellings

variable {seen names listed : List String} {n : String}

theorem mem (h : FirstSpellings names listed) {d : String} (hd : d ∈ listed) : d ∈ names :=
  List.mem_of_find?_eq_some (h.first d hd)

theorem findIdx_lt (h : FirstSpellings names listed) {d : String} (hd : d ∈ listed) :
    names.findIdx (Text.sameFolded · d) < names.length :=
  List.findIdx_lt_length_of_exists ⟨d, h.mem hd, Text.sameFolded_self d⟩

/-- No name is listed in two spellings. -/
theorem apart (h : FirstSpellings names listed) : listed.Pairwise fun a b => Text.sameFolded a b = false := by
  refine h.inOrder.imp ?_
  intro a b hlt
  rw [← Bool.not_eq_true]
  intro hab
  simp only [Text.sameFolded_congr hab, Nat.lt_irrefl] at hlt

theorem nil : FirstSpellings [] [] where
  first := by simp
  inOrder := .nil
  covered := by simp

theorem findIdx_snoc (h : FirstSpellings seen listed) {d : String} (hd : d ∈ listed) (n : String) :
    (seen ++ [n]).findIdx (Text.sameFolded · d) = seen.findIdx (Text.sameFolded · d) := by
  rw [List.findIdx_append, if_pos (h.findIdx_lt hd)]

theorem first_snoc (h : FirstSpellings seen listed) (n : String) :
    ∀ d ∈ listed, (seen ++ [n]).find? (Text.sameFolded · d) = some d := by
  intro d hd
  rw [List.find?_append, h.first d hd, Option.some_or]

theorem inOrder_snoc (h : FirstSpellings seen listed) (n : String) : listed.Pairwise fun a b =>
    (seen ++ [n]).findIdx (Text.sameFolded · a) < (seen ++ [n]).findIdx (Text.sameFolded · b) := by
  refine h.inOrder.imp_of_mem ?_
  intro a b ha hb hlt
  rwa [h.findIdx_snoc ha, h.findIdx_snoc hb]

/-- A further spelling of a listed name. -/
theorem skip (h : FirstSpellings seen listed) {d : String} (hd : d ∈ listed) (hn : Text.sameFolded d n = true) :
    FirstSpellings (seen ++ [n]) listed where
  first := h.first_snoc n
  inOrder := h.inOrder_snoc n
  covered := by
    rw [List.forall_mem_append, List.forall_mem_singleton]
    exact ⟨h.covered, d, hd, hn⟩

/-- A name that is not listed yet. -/
theorem add (h : FirstSpellings seen listed) (hn : ∀ d ∈ listed, Text.sameFolded d n = false) :
    FirstSpellings (seen ++ [n]) (listed ++ [n]) := by
  have hnew : ∀ a ∈ seen, Text.sameFolded a n = false := by
    intro a ha
    obtain ⟨d, hd, hda⟩ := h.covered a ha
    by_contra han
    have hdn := Text.sameFolded_trans hda (Bool.eq_true_of_not_eq_false han)
    rw [hn d hd] at hdn
    cases hdn
  have hidx : (seen ++ [n]).findIdx (Text.sameFolded · n) = seen.length := by
    have hnone : seen.findIdx (Text.sameFolded · n) = seen.length := List.findIdx_eq_length_of_false hnew
    rw [List.findIdx_append, hnone, if_neg (Nat.lt_irrefl _), List.findIdx_cons, Text.sameFolded_self]
    exact Nat.zero_add _
  constructor
  · rw [List.forall_mem_append, List.forall_mem_singleton]
    refine ⟨h.first_snoc n, ?_⟩
    have hnone : seen.find? (Text.sameFolded · n) = none := by
      rw [List.find?_eq_none]
      intro a ha
      rw [hnew a ha]
      exact Bool.false_ne_true
    rw [List.find?_append, hnone, Option.none_or]
    exact List.find?_cons_of_pos (Text.sameFolded_self n)
  · rw [List.pairwise_append]
    refine ⟨h.inOrder_snoc n, List.pairwise_singleton _ _, ?_⟩
    intro a ha b hb
    rw [List.mem_singleton.1 hb, h.findIdx_snoc ha, hidx]
    exact h.findIdx_lt ha
  · rw [List.forall_mem_append, List.forall_mem_singleton]
    refine ⟨?_, n, List.mem_append_right _ List.mem_cons_self, Text.sameFolded_self n⟩
    intro a ha
    obtain ⟨d, hd, hda⟩ := h.covered a ha
    exact ⟨d, List.mem_append_left _ hd, hda⟩

theorem distinctNames (h : FirstSpellings seen listed) (names : List String) :
    FirstSpellings (seen ++ names) (Message.distinctNames listed names) := by
  induction names generalizing seen listed with
  | nil => rwa [List.append_nil]
  | cons n names ih =>
    rw [List.append_cons, Message.distinctNames]
    by_cases hn : listed.any (Text.sameFolded · n) = true
    · rw [if_pos hn]
      obtain ⟨d, hd, hdn⟩ := List.any_eq_true.1 hn
      exact ih (h.skip hd hdn)
    · rw [if_neg hn]
      rw [Bool.not_eq_true, List.any_eq_false] at hn
      exact ih (h.add fun d hd => Bool.eq_false_of_not_eq_true (hn d hd))

end FirstSpellings

/-! ## The values of the names -/

/-- Fields of another name are passed over. -/
theorem flatMap_named_cons {names : List String} {f : String × α} (hf : ∀ d ∈ names, Text.sameFolded f.1 d = false)
    (fields : List (String × α)) :
    (names.flatMap fun d => (f :: fields).filter fun f => Text.sameFolded f.1 d) =
      names.flatMap fun d => fields.filter fun f => Text.sameFolded f.1 d := by
  apply List.flatMap_congr
  intro d hd
  rw [List.filter_cons_of_neg]
  rw [hf d hd]
  exact Bool.false_ne_true

/-- Every field belongs to just one of the names. -/
theorem flatMap_named_perm {names : List String} (hapart : names.Pairwise fun a b => Text.sameFolded a b = false)
    {fields : List (String × α)} (hcovered : ∀ f ∈ fields, ∃ d ∈ names, Text.sameFolded d f.1 = true) :
    (names.flatMap fun d => fields.filter fun f => Text.sameFolded f.1 d).Perm fields := by
  induction fields with
  | nil => simp
  | cons f fields ih =>
    rw [List.forall_mem_cons] at hcovered
    obtain ⟨⟨d, hd, hdf⟩, hcovered⟩ := hcovered
    have ih := ih hcovered
    obtain ⟨before, after, rfl⟩ := List.append_of_mem hd
    rw [List.pairwise_middle Text.sameFolded_eq_false_symm, List.pairwise_cons] at hapart
    have hrest : ∀ a ∈ before ++ after, Text.sameFolded f.1 a = false := by
      intro a ha
      by_contra hfa
      have hda := Text.sameFolded_trans hdf (Bool.eq_true_of_not_eq_false hfa)
      rw [hapart.1 a ha] at hda
      cases hda
    rw [List.forall_mem_append] at hrest
    have hown : (f :: fields).filter (fun f => Text.sameFolded f.1 d) =
        f :: fields.filter fun f => Text.sameFolded f.1 d :=
      List.filter_cons_of_pos (Text.sameFolded_symm hdf)
    rw [List.flatMap_append, List.flatMap_cons] at ih ⊢
    rw [flatMap_named_cons hrest.1, flatMap_named_cons hrest.2, hown]
    exact List.perm_middle.trans (ih.cons f)

namespace Message

variable (m : Message)

theorem firstSpellings_headerNames : FirstSpellings (m.headers.map (·.1)) m.headerNames :=
  FirstSpellings.nil.distinctNames _

theorem header_congr {n n' : String} (h : Text.sameFolded n n' = true) : m.header n = m.header n' := by
  unfold header
  simp only [Text.sameFolded_congr h]

theorem header_ne_nil_iff (n : String) :
    m.header n ≠ [] ↔ ∃ d ∈ m.headerNames, Text.sameFolded d n = true := by
  have hfields : m.header n ≠ [] ↔ ∃ f ∈ m.headers, Text.sameFolded f.1 n = true := by
    unfold header
    rw [Ne, List.map_eq_nil_iff, List.filter_eq_nil_iff]
    simp only [not_forall, Bool.not_eq_true, Bool.not_eq_false, exists_prop]
  have hlisted := m.firstSpellings_headerNames
  rw [hfields]
  constructor
  · rintro ⟨f, hf, hfn⟩
    obtain ⟨d, hd, hdf⟩ := hlisted.covered f.1 (List.mem_map_of_mem hf)
    exact ⟨d, hd, Text.sameFolded_trans hdf hfn⟩
  · rintro ⟨d, hd, hdn⟩
    obtain ⟨f, hf, rfl⟩ := List.mem_map.1 (hlisted.mem hd)
    exact ⟨f, hf, hdn⟩

/-- The listed names have all values among them, each as often as the message has it. -/
theorem flatMap_header_perm : (m.headerNames.flatMap m.header).Perm (m.headers.map (·.2)) := by
  have hlisted := m.firstSpellings_headerNames
  have hcovered : ∀ f ∈ m.headers, ∃ d ∈ m.headerNames, Text.sameFolded d f.1 = true :=
    fun f hf => hlisted.covered f.1 (List.mem_map_of_mem hf)
  have hperm := (flatMap_named_perm hlisted.apart hcovered).map (·.2)
  rwa [List.map_flatMap] at hperm

structure HeadersAgree : Prop where
  listed : FirstSpellings (m.headers.map (·.1)) m.headerNames
  apart : m.headerNames.Pairwise fun a b => Text.sameFolded a b = false
  found : ∀ n, m.header n ≠ [] ↔ ∃ d ∈ m.headerNames, Text.sameFolded d n = true
  folded : ∀ n n', Text.sameFolded n n' = true → m.header n = m.header n'
  ordered : ∀ n, ∃ fields : List (String × String), fields.Sublist m.headers ∧
    (∀ f, f ∈ fields ↔ f ∈ m.headers ∧ Text.sameFolded f.1 n = true) ∧ m.header n = fields.map (·.2)
  /-- Every value of the message is found under one listed name. -/
  shared : (m.headerNames.flatMap m.header).Perm (m.headers.map (·.2))

end Message

/-! ## Presence -/

theorem allRead_eq_all (values : String → α) (found : α → Bool) (names : List String) :
    allRead (fun n => .ok (values n)) found names = .ok (names.all fun n => found (values n)) := by
  induction names with
  | nil => rfl
  | cons n names ih => cases hn : found (values n) <;> simp [allRead, hn, ih]

theorem Environment.evaluate_present {env : Environment} {t : Test} {names : List String}
    (hlook : env.tests.lookup t.name = .ok .present) (hnames : t.presentNames = .ok names) (enabled : List String)
    (m : Message) :
    env.evaluate enabled m.toMail t = ⟨[], .ok (names.all fun n => !(m.header n).isEmpty)⟩ := by
  have hcheck : TestKind.present.check t = .ok () := liftShape_eq_ok.2 (verdict_eq_ok.2 ⟨names, hnames⟩)
  rw [evaluate_of_checked hlook hcheck (checkEnabled_core ..)]
  simp only [valueOf, leafValue, hnames, liftShape, ok_bind, Message.toMail, allRead_eq_all]
  rfl

namespace Message

/-- The headers of a message are read consistently, and a test for presence asks for listed
names. -/
theorem headersAgree (m : Message) : m.HeadersAgree ∧
    ∀ (env : Environment) (enabled : List String) (t : Test) (names : List String),
      env.tests.lookup t.name = .ok .present → t.presentNames = .ok names →
        ∃ found, (env.evaluate enabled m.toMail t).result = .ok found ∧
          (found = true ↔ ∀ n ∈ names, ∃ d ∈ m.headerNames, Text.sameFolded d n = true) := by
  refine ⟨?_, ?_⟩
  · exact {
      listed := m.firstSpellings_headerNames
      apart := m.firstSpellings_headerNames.apart
      found := m.header_ne_nil_iff
      folded := fun n n' => m.header_congr
      ordered := fun n => ⟨_, List.filter_sublist, fun f => List.mem_filter, rfl⟩
      shared := m.flatMap_header_perm }
  · intro env enabled t names hlook hnames
    rw [env.evaluate_present hlook hnames]
    refine ⟨_, rfl, ?_⟩
    rw [List.all_eq_true]
    refine forall₂_congr fun n _ => ?_
    rw [← m.header_ne_nil_iff]
    simp

def respelled : Message where
  headers := [("X-Tag", "one"), ("Subject", "x"), ("x-tag", "two"), ("SUBJECT", ""), ("To", "a@b"),
    ("X-Tag", "one")]
  bodies := []
  size := 0
  envelope := []

theorem headersAgree_respelled :
    respelled.headerNames = ["X-Tag", "Subject", "To"] ∧ respelled.HeadersAgree ∧
      (Text.sameFolded "X-TAG" "x-tag" = true ∧ respelled.header "X-TAG" = respelled.header "x-tag") ∧
      ∃ found, (Environment.standard.evaluate [] respelled.toMail
          ⟨"exists", [.strings ["tO", "SUBJECT", "x-Tag"]], none, ⟨1, 4⟩⟩).result = .ok found ∧ found = true := by
  have hnames : respelled.headerNames = ["X-Tag", "Subject", "To"] := by decide
  have hsame : Text.sameFolded "X-TAG" "x-tag" = true := by decide
  obtain ⟨hagree, hexists⟩ := headersAgree respelled
  obtain ⟨found, hresult, hiff⟩ := hexists .standard []
    ⟨"exists", [.strings ["tO", "SUBJECT", "x-Tag"]], none, ⟨1, 4⟩⟩ ["tO", "SUBJECT", "x-Tag"] rfl rfl
  refine ⟨hnames, hagree, ⟨hsame, hagree.folded _ _ hsame⟩, found, hresult, hiff.2 ?_⟩
  rw [hnames]
  decide

end Message

end MailSieve

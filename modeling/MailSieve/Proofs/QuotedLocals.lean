import MailSieve.Proofs.Mailboxes
import MailSieve.Proofs.Queries
import MailSieve.Proofs.Soundness

/-!
# Quoted local parts

The scan of an address list drops quoted text wherever it stands: a display name before angle
brackets, but a local part before an at sign as well. Of a mailbox with a quoted local part only
the at sign and the domain are left, so an address test cannot tell two of them apart. Local parts
without quotes are kept.
-/

namespace MailSieve

namespace AddressList

/-! ## Mailboxes at a domain -/

def quotedMailbox (q d : String) : String :=
  "\"" ++ Text.escaped ['\\', '"'] q ++ "\"@" ++ d

def Plain (c : Char) : Prop :=
  Text.isBlank c = false ∧ c ∉ specials

theorem plain_of_isAlphanum {c : Char} (h : c.isAlphanum = true) : Plain c := by
  have hrange : ((65 ≤ c.toNat ∧ c.toNat ≤ 90) ∨ (97 ≤ c.toNat ∧ c.toNat ≤ 122)) ∨
      (48 ≤ c.toNat ∧ c.toNat ≤ 57) := by
    simpa [Char.isAlphanum, Char.isAlpha, Char.isUpper, Char.isLower, Char.isDigit, UInt32.le_iff_toNat_le] using h
  constructor
  · simp only [Text.isBlank, Bool.or_eq_false_iff, Bool.and_eq_false_iff, decide_eq_false_iff_not,
      beq_eq_false_iff_ne]
    omega
  · intro hc
    simp only [specials, List.mem_cons, List.not_mem_nil, or_false] at hc
    rcases hc with rfl | rfl | rfl | rfl | rfl | rfl | rfl | rfl | rfl <;> cases h

/-- Domains are written with these characters. -/
theorem plain_of_domain {c : Char} (h : c.isAlphanum = true ∨ c = '.' ∨ c = '-') : Plain c := by
  rcases h with h | rfl | rfl
  · exact plain_of_isAlphanum h
  · exact ⟨rfl, by decide⟩
  · exact ⟨rfl, by decide⟩

/-- What stands before and after the at sign of an address; either may be empty. -/
def Atom.at (before after : String) (hbefore : ∀ c ∈ before.toList, Plain c)
    (hafter : ∀ c ∈ after.toList, Plain c) : Atom where
  text := before ++ "@" ++ after
  ne_empty := by
    intro h
    simpa using congrArg String.toList h
  plain := by
    intro c hc
    simp only [String.toList_append, List.mem_append] at hc
    rcases hc with (hc | hc) | hc
    · exact hbefore c hc
    · rw [List.mem_singleton.1 hc]
      exact ⟨rfl, by decide⟩
    · exact hafter c hc

theorem split_atom (a : Atom) : split a.text = [a.text] := by
  have hrender : (Mailbox.render ⟨none, a, none⟩).toList = a.text.toList := by
    simp [Mailbox.render, Mailbox.nameAndAddress, Mailbox.commentText]
  obtain ⟨found, current, hscan, hfound⟩ := Mailbox.yields ⟨none, a, none⟩ [] [] (List.forall_mem_nil _)
  rw [hrender, List.append_nil] at hscan
  exact hscan.trans hfound

/-- The quotes and what they hold are gone before the at sign is read. -/
theorem split_quotedMailbox (q d : String) : split (quotedMailbox q d) = split ("@" ++ d) := by
  have hopen : "\"".toList = ['"'] := rfl
  have hclose : "\"@".toList = '"' :: "@".toList := rfl
  unfold split quotedMailbox
  simp only [String.toList_append, hopen, hclose, List.append_assoc, List.cons_append, List.nil_append]
  exact scan_quoted [] q

/-- The same value, or another quoted local part at the same domain. -/
inductive Requoted : String → String → Prop
  | same (value : String) : Requoted value value
  | quoted (q q' d : String) : Requoted (quotedMailbox q d) (quotedMailbox q' d)

theorem Requoted.split_eq {value value' : String} (h : Requoted value value') : split value = split value' := by
  cases h with
  | same => rfl
  | quoted q q' d => rw [split_quotedMailbox, split_quotedMailbox]

theorem flatMap_split_of_requoted {values values' : List String} (h : List.Forall₂ Requoted values values') :
    values.flatMap split = values'.flatMap split := by
  induction h with
  | nil => rfl
  | cons hvalue _ ih => rw [List.flatMap_cons, List.flatMap_cons, hvalue.split_eq, ih]

end AddressList

/-! ## Address tests -/

structure Mail.Requoted (mail mail' : Mail) : Prop where
  values : ∀ name values, mail.header name = .ok values →
    ∃ values', mail'.header name = .ok values' ∧ List.Forall₂ AddressList.Requoted values values'
  failure : ∀ name e, mail.header name = .error e → mail'.header name = .error e

theorem Mail.Requoted.addresses {mail mail' : Mail} (h : mail.Requoted mail') (name : String) :
    (mail.header name).map (·.flatMap AddressList.split) =
      (mail'.header name).map (·.flatMap AddressList.split) := by
  cases hvalues : mail.header name with
  | error e => rw [h.failure name e hvalues]
  | ok values =>
    obtain ⟨values', hvalues', hrequoted⟩ := h.values name values hvalues
    rw [hvalues']
    exact congrArg Except.ok (AddressList.flatMap_split_of_requoted hrequoted)

/-- A search through a view of the values reads the view. -/
theorem anyRead_map (read : String → Except MailError α) (view : α → β) (found : β → Bool) (names : List String) :
    anyRead (fun name => (read name).map view) found names =
      anyRead read (fun values => found (view values)) names := by
  induction names with
  | nil => rfl
  | cons name names ih =>
    unfold anyRead
    rw [ih]
    cases read name <;> rfl

namespace Environment

theorem leafValue_address_of_requoted {mail mail' : Mail} (h : mail.Requoted mail') (env : Environment)
    (enabled : List String) (t : Test) :
    env.leafValue enabled mail .address t = env.leafValue enabled mail' .address t := by
  simp only [leafValue, compareRead]
  congr
  funext args
  congr
  funext comparator
  split
  · next names keys _ =>
    have hsplit : ∀ values : List String,
        (values.flatMap fun value => (AddressList.split value).map args.addressPart.extract) =
          (values.flatMap AddressList.split).map args.addressPart.extract :=
      fun values => (List.map_flatMap ..).symm
    simp only [hsplit]
    rw [← anyRead_map mail.header (fun values => values.flatMap AddressList.split)
        (fun found => args.matchType.any comparator (found.map args.addressPart.extract) keys),
      anyRead_congr fun name _ => h.addresses name, anyRead_map]
  · rfl

/-- At a domain, a quoted local part is dropped and one without quotes is kept. So whatever part an
address test compares, it comes to the same on mails that differ in quoted local parts only. -/
theorem quotedLocals_dropped (d : String) (hd : ∀ c ∈ d.toList, AddressList.Plain c) :
    (∀ q, AddressList.split (AddressList.quotedMailbox q d) = ["@" ++ d]) ∧
    (∀ before : String, (∀ c ∈ before.toList, AddressList.Plain c) →
      AddressList.split (before ++ "@" ++ d) = [before ++ "@" ++ d]) ∧
    ∀ (mail mail' : Mail), mail.Requoted mail' → ∀ (env : Environment) (enabled : List String) (t : Test),
      env.tests.lookup t.name = .ok .address → env.evaluate enabled mail t = env.evaluate enabled mail' t := by
  refine ⟨?_, ?_, ?_⟩
  · intro q
    have hatom := AddressList.split_atom (.at "" d (by simp) hd)
    rw [AddressList.split_quotedMailbox]
    simpa [AddressList.Atom.at] using hatom
  · intro before hbefore
    exact AddressList.split_atom (.at before d hbefore hd)
  · intro mail mail' h env enabled t hlook
    have hvalue : env.valueOf enabled mail .address t = env.valueOf enabled mail' .address t :=
      congrArg (Traced.mk (reachedLeaf .address t)) (leafValue_address_of_requoted h env enabled t)
    rw [evaluate_eq, evaluate_eq, hlook]
    simp only [Traced.ofExcept_ok_bind, hvalue]

def quotedSender (q : String) : Mail :=
  { plainMail with header := fun name => .ok (if name = "From" then [AddressList.quotedMailbox q "x.org"] else []) }

theorem quotedLocals_dropped_sender :
    let t : Test := ⟨"address", [.tag ":localpart", .strings ["From"], .strings ["a"]], none, ⟨1, 4⟩⟩
    (∀ c ∈ "x.org".toList, AddressList.Plain c) ∧ (quotedSender "a").Requoted (quotedSender "b") ∧
    standard.tests.lookup t.name = .ok .address ∧
    AddressList.split (AddressList.quotedMailbox "a" "x.org") = ["@x.org"] ∧
    AddressList.split "joe@x.org" = ["joe@x.org"] ∧
    standard.evaluate [] (quotedSender "a") t = standard.evaluate [] (quotedSender "b") t := by
  intro t
  have hd : ∀ c ∈ "x.org".toList, AddressList.Plain c := by simp [AddressList.plain_of_domain]
  have hjoe : ∀ c ∈ "joe".toList, AddressList.Plain c := by simp [AddressList.plain_of_domain]
  have hmails : (quotedSender "a").Requoted (quotedSender "b") := by
    constructor
    · intro name values hvalues
      cases Except.ok.inj hvalues
      refine ⟨_, rfl, ?_⟩
      split
      · exact .cons (.quoted "a" "b" "x.org") .nil
      · exact .nil
    · intro name e he
      cases he
  obtain ⟨hquoted, hplain, htests⟩ := quotedLocals_dropped "x.org" hd
  exact ⟨hd, hmails, rfl, hquoted "a", hplain "joe" hjoe, htests _ _ hmails standard [] t rfl⟩

/-- Two mailboxes at one domain that come to the same addresses. -/
theorem quotedMailbox_collision :
    "a" ≠ "" ∧ "b" ≠ "" ∧ "a" ≠ "b" ∧ (∀ c ∈ "x.org".toList, c.isAlphanum = true ∨ c = '.' ∨ c = '-') ∧
    AddressList.split (AddressList.quotedMailbox "a" "x.org") =
      AddressList.split (AddressList.quotedMailbox "b" "x.org") := by
  refine ⟨by decide, by decide, by decide, by simp, ?_⟩
  rw [AddressList.split_quotedMailbox, AddressList.split_quotedMailbox]

end Environment

end MailSieve

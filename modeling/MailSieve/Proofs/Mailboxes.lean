import MailSieve.Mail.Address
import MailSieve.Proofs.Spacing

/-!
# Address lists as they are written

A mailbox is written as its address, or as a quoted display name and the address in angle
brackets, and a comment may follow; a group is written as its name and its mailboxes. Display
names and comments may hold every character that means something outside of them. The scan of
such a list comes to the addresses of its mailboxes.
-/

namespace MailSieve

namespace AddressList

/-! ## Writing -/

def specials : List Char := ['\\', '"', '(', ')', '<', '>', ',', ';', ':']

structure Atom where
  text : String
  ne_empty : text ≠ ""
  plain : ∀ c ∈ text.toList, Text.isBlank c = false ∧ c ∉ specials

structure Mailbox where
  displayName : Option String
  address : Atom
  comment : Option String

namespace Mailbox

def nameAndAddress (m : Mailbox) : String :=
  match m.displayName with
  | none => m.address.text
  | some name => "\"" ++ Text.escaped ['\\', '"'] name ++ "\" <" ++ m.address.text ++ ">"

def commentText (m : Mailbox) : String :=
  match m.comment with
  | none => ""
  | some text => " (" ++ Text.escaped ['\\', '(', ')'] text ++ ")"

def render (m : Mailbox) : String :=
  m.nameAndAddress ++ m.commentText

end Mailbox

inductive Entry
  | mailbox (m : Mailbox)
  | group (name : Atom) (members : List Mailbox)

namespace Entry

def render : Entry → String
  | mailbox m => m.render
  | group name members => name.text ++ ": " ++ ", ".intercalate (members.map Mailbox.render) ++ ";"

def mailboxes : Entry → List Mailbox
  | mailbox m => [m]
  | group _ members => members

end Entry

def render (entries : List Entry) : String :=
  ", ".intercalate (entries.map Entry.render)

/-! ## Scanning -/

section
variable {s : Scan} {c : Char} {cs rest : List Char}

theorem scan_visible (hs : s.hidden = false) (hc : s.isSeparator c = false) :
    scan s (c :: cs) = scan (s.read c) cs := by
  rw [scan.eq_def]
  simp [hs, hc]

theorem scan_separator (hs : s.hidden = false) (hc : s.isSeparator c = true) :
    scan s (c :: cs) = s.address ++ scan { s with current := [] } cs := by
  rw [scan.eq_def]
  simp [hs, hc]

theorem scan_hidden (hs : s.hidden = true) (hc : c ≠ '\\') : scan s (c :: cs) = scan (s.read c) cs := by
  rw [scan.eq_def]
  simp [hs, hc]

theorem scan_escape (hs : s.hidden = true) : scan s ('\\' :: c :: cs) = scan s cs := by
  rw [scan]
  simp [hs]

theorem read_plain (hs : s.hidden = false) (hc : c ∉ specials) :
    s.read c = { s with current := s.current ++ [c] } := by
  simp only [specials, List.mem_cons, List.not_mem_nil, or_false, not_or] at hc
  simp [Scan.read, hs, hc]

theorem isSeparator_plain (hc : c ∉ specials) : s.isSeparator c = false := by
  simp only [specials, List.mem_cons, List.not_mem_nil, or_false, not_or] at hc
  simp [Scan.isSeparator, hc]

theorem scan_plain (hs : s.hidden = false) (hcs : ∀ c ∈ cs, c ∉ specials) :
    scan s (cs ++ rest) = scan { s with current := s.current ++ cs } rest := by
  induction cs generalizing s with
  | nil => rw [List.append_nil]; rfl
  | cons c cs ih =>
    rw [List.forall_mem_cons] at hcs
    have hs' : Scan.hidden { s with current := s.current ++ [c] } = false := hs
    rw [List.cons_append, scan_visible hs (isSeparator_plain hcs.1), read_plain hs hcs.1, ih hs' hcs.2,
      List.append_assoc, List.singleton_append]

/-- Nothing is seen of a text that is escaped. -/
theorem scan_escaped {special : List Char} (hs : s.hidden = true) (hspecial : '\\' ∈ special)
    (hread : ∀ c, c ∉ special → s.read c = s) (text : String) :
    scan s ((Text.escaped special text).toList ++ rest) = scan s rest := by
  unfold Text.escaped
  rw [String.toList_ofList]
  induction text.toList with
  | nil => rfl
  | cons c cs ih =>
    by_cases hc : c ∈ special
    · rw [Text.escape_cons_of_mem hc]
      exact (scan_escape hs).trans ih
    · have hback : c ≠ '\\' := fun h => hc (h ▸ hspecial)
      rw [Text.escape_cons_of_not_mem hc, List.cons_append, scan_hidden hs hback, hread c hc, ih]

theorem scan_space (current : List Char) :
    scan { current } (' ' :: rest) = scan { current := current ++ [' '] } rest :=
  scan_visible rfl rfl

theorem scan_quoted (current : List Char) (name : String) :
    scan { current } ('"' :: ((Text.escaped ['\\', '"'] name).toList ++ '"' :: rest)) = scan { current } rest := by
  have hopen : Scan.read { current } '"' = { current, quoted := true } := rfl
  have hclose : Scan.read { current, quoted := true } '"' = { current } := rfl
  have hread : ∀ c, c ∉ ['\\', '"'] → Scan.read { current, quoted := true } c = { current, quoted := true } := by
    intro c hc
    simp only [List.mem_cons, List.not_mem_nil, or_false, not_or] at hc
    simp [Scan.read, Scan.hidden, hc]
  rw [scan_visible rfl rfl, hopen, scan_escaped rfl (by simp) hread, scan_hidden rfl (by decide), hclose]

theorem scan_comment (current : List Char) (text : String) :
    scan { current } ('(' :: ((Text.escaped ['\\', '(', ')'] text).toList ++ ')' :: rest)) =
      scan { current } rest := by
  have hopen : Scan.read { current } '(' = { current, comments := 1 } := rfl
  have hclose : Scan.read { current, comments := 1 } ')' = { current } := rfl
  have hread : ∀ c, c ∉ ['\\', '(', ')'] →
      Scan.read { current, comments := 1 } c = { current, comments := 1 } := by
    intro c hc
    simp only [List.mem_cons, List.not_mem_nil, or_false, not_or] at hc
    simp [Scan.read, Scan.hidden, hc]
  rw [scan_visible rfl rfl, hopen, scan_escaped rfl (by simp) hread, scan_hidden rfl (by decide), hclose]

theorem scan_angles (current : List Char) (hcs : ∀ c ∈ cs, c ∉ specials) :
    scan { current } ('<' :: (cs ++ '>' :: rest)) = scan { current := cs } rest := by
  have hopen : Scan.read { current } '<' = { angles := 1 } := rfl
  have hclose : Scan.read { current := cs, angles := 1 } '>' = { current := cs } := rfl
  rw [scan_visible rfl rfl, hopen, scan_plain rfl hcs, List.nil_append, scan_visible rfl rfl, hclose]

end

/-! ## Mailboxes -/

/-- Wherever the text stands, the scan finds the addresses in it, but it may keep the last one
until a separator comes. -/
def Yields (text : List Char) (addresses : List String) : Prop :=
  ∀ blank rest : List Char, (∀ c ∈ blank, Text.isBlank c = true) →
    ∃ found current, scan { current := blank } (text ++ rest) = found ++ scan { current } rest ∧
      found ++ Scan.address { current } = addresses

theorem isBlank_space : ∀ c ∈ [' '], Text.isBlank c = true := by
  intro c hc
  rw [List.mem_singleton.1 hc]
  rfl

theorem address_blank {current : List Char} (h : ∀ c ∈ current, Text.isBlank c = true) :
    Scan.address { current } = [] := by
  simp only [Scan.address, Text.trim_blank h]

theorem address_padded {before after : List Char} (a : Atom) (hbefore : ∀ c ∈ before, Text.isBlank c = true)
    (hafter : ∀ c ∈ after, Text.isBlank c = true) :
    Scan.address { current := before ++ a.text.toList ++ after } = [a.text] := by
  have htrim := Text.trim_padded hbefore (.of_forall fun c hc => (a.plain c hc).1) hafter
  have hne : a.text.toList ≠ [] := fun h => a.ne_empty (String.toList_eq_nil_iff.1 h)
  simp only [Scan.address, htrim]
  cases hchars : a.text.toList with
  | nil => exact absurd hchars hne
  | cons c cs => simp only [← hchars, String.ofList_toList]

/-- After the address of a mailbox, only white space precedes it. -/
theorem Mailbox.scan_nameAndAddress (m : Mailbox) {blank : List Char} (hblank : ∀ c ∈ blank, Text.isBlank c = true)
    (rest : List Char) :
    ∃ before, (∀ c ∈ before, Text.isBlank c = true) ∧
      scan { current := blank } (m.nameAndAddress.toList ++ rest) =
        scan { current := before ++ m.address.text.toList } rest := by
  have haddress : ∀ c ∈ m.address.text.toList, c ∉ specials := fun c hc => (m.address.plain c hc).2
  unfold nameAndAddress
  cases m.displayName with
  | none => exact ⟨blank, hblank, scan_plain rfl haddress⟩
  | some name =>
    refine ⟨[], by simp, ?_⟩
    simp only [String.toList_append, List.append_assoc]
    calc
      _ = scan { current := blank } (' ' :: '<' :: (m.address.text.toList ++ '>' :: rest)) :=
        scan_quoted blank name
      _ = scan { current := blank ++ [' '] } ('<' :: (m.address.text.toList ++ '>' :: rest)) := scan_space blank
      _ = scan { current := m.address.text.toList } rest := scan_angles _ haddress

theorem Mailbox.scan_commentText (m : Mailbox) (current rest : List Char) :
    ∃ after, (∀ c ∈ after, Text.isBlank c = true) ∧
      scan { current } (m.commentText.toList ++ rest) = scan { current := current ++ after } rest := by
  unfold commentText
  cases m.comment with
  | none => exact ⟨[], by simp, by rw [List.append_nil]; rfl⟩
  | some text =>
    refine ⟨[' '], isBlank_space, ?_⟩
    simp only [String.toList_append, List.append_assoc]
    calc
      _ = scan { current := current ++ [' '] }
          ('(' :: ((Text.escaped ['\\', '(', ')'] text).toList ++ ')' :: rest)) := scan_space current
      _ = scan { current := current ++ [' '] } rest := scan_comment _ text

theorem Mailbox.yields (m : Mailbox) : Yields m.render.toList [m.address.text] := by
  intro blank rest hblank
  obtain ⟨before, hbefore, hname⟩ := m.scan_nameAndAddress hblank (m.commentText.toList ++ rest)
  obtain ⟨after, hafter, hcomment⟩ := m.scan_commentText (before ++ m.address.text.toList) rest
  refine ⟨[], before ++ m.address.text.toList ++ after, ?_, address_padded m.address hbefore hafter⟩
  rw [render, String.toList_append, List.append_assoc, hname, hcomment, List.nil_append]

/-! ## Lists -/

/-- A comma ends the address before it, and the space after it is no part of the next one. -/
theorem Yields.comma {text text' : List Char} {addresses addresses' : List String} (h : Yields text addresses)
    (h' : Yields text' addresses') : Yields (text ++ ", ".toList ++ text') (addresses ++ addresses') := by
  intro blank rest hblank
  obtain ⟨found, current, hscan, hfound⟩ := h blank (',' :: ' ' :: (text' ++ rest)) hblank
  obtain ⟨found', current', hscan', hfound'⟩ := h' [' '] rest isBlank_space
  refine ⟨found ++ Scan.address { current } ++ found', current', ?_, by rw [List.append_assoc, hfound', hfound]⟩
  calc
    _ = scan { current := blank } (text ++ ',' :: ' ' :: (text' ++ rest)) := by
      simp only [List.append_assoc]
      rfl
    _ = found ++ (Scan.address { current } ++ scan {} (' ' :: (text' ++ rest))) := by
      rw [hscan, scan_separator rfl rfl]
    _ = found ++ (Scan.address { current } ++ scan { current := [' '] } (text' ++ rest)) := by
      rw [scan_space, List.nil_append]
    _ = found ++ Scan.address { current } ++ found' ++ scan { current := current' } rest := by
      rw [hscan']
      simp only [List.append_assoc]

theorem yields_nil : Yields [] [] := by
  intro blank rest hblank
  exact ⟨[], blank, rfl, address_blank hblank⟩

theorem yields_intercalate {render : α → String} {addresses : α → List String} (items : List α)
    (h : ∀ item ∈ items, Yields (render item).toList (addresses item)) :
    Yields (", ".intercalate (items.map render)).toList (items.flatMap addresses) := by
  induction items with
  | nil => exact yields_nil
  | cons item items ih =>
    rw [List.forall_mem_cons] at h
    cases items with
    | nil => simpa using h.1
    | cons next items =>
      have hlist := h.1.comma (ih h.2)
      rw [List.flatMap_cons]
      simpa only [List.map_cons, String.intercalate_cons_cons, String.toList_append] using hlist

theorem Entry.yields (entry : Entry) :
    Yields entry.render.toList (entry.mailboxes.map fun m => m.address.text) := by
  cases entry with
  | mailbox m => exact m.yields
  | group name members =>
    intro blank rest hblank
    have hname : ∀ c ∈ name.text.toList, c ∉ specials := fun c hc => (name.plain c hc).2
    have hmembers := yields_intercalate members fun m _ => m.yields
    obtain ⟨found, current, hscan, hfound⟩ := hmembers [' '] (';' :: rest) isBlank_space
    refine ⟨found ++ Scan.address { current }, [], ?_, ?_⟩
    · simp only [render, String.toList_append, List.append_assoc]
      calc
        _ = scan { current := blank ++ name.text.toList }
            (':' :: ' ' :: ((", ".intercalate (members.map Mailbox.render)).toList ++ ';' :: rest)) :=
          scan_plain rfl hname
        _ = scan {} (' ' :: ((", ".intercalate (members.map Mailbox.render)).toList ++ ';' :: rest)) :=
          scan_visible rfl rfl
        _ = found ++ scan { current } (';' :: rest) := by rw [scan_space, List.nil_append, hscan]
        _ = found ++ (Scan.address { current } ++ scan {} rest) := by rw [scan_separator rfl rfl]
    · rw [hfound, address_blank (by simp), List.append_nil]
      exact List.map_eq_flatMap.symm

/-- The addresses of a list that is written out are those of its mailboxes, in order. -/
theorem split_render (entries : List Entry) :
    split (render entries) = (entries.flatMap Entry.mailboxes).map fun m => m.address.text := by
  obtain ⟨found, current, hscan, hfound⟩ := yields_intercalate entries (fun e _ => e.yields) [] [] (by simp)
  rw [List.append_nil] at hscan
  calc
    split (render entries) = found ++ Scan.address { current } := hscan
    _ = _ := by rw [hfound, List.map_flatMap]

example :
    render [
      .mailbox ⟨some "Bloggs, \"Joe\" <j>", ⟨"joe@example.com", by decide, by simp [specials]; decide⟩,
        some "home (: work)"⟩,
      .group ⟨"Team", by decide, by simp [specials]; decide⟩
        [⟨none, ⟨"ann", by decide, by simp [specials]; decide⟩, none⟩]] =
    "\"Bloggs, \\\"Joe\\\" <j>\" <joe@example.com> (home \\(: work\\)), Team: ann;" := by
  cbv

end AddressList

end MailSieve

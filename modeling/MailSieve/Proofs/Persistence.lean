import Mathlib
import MailSieve.Registry.Settings

/-!
# Settings kept as text

What is written for a JSON value is read as that value, whatever characters its strings hold
and whatever follows. Settings are written with every part and every name, so nothing is left
to a default when they are read again.
-/

namespace MailSieve

namespace Json

/-! ## Strings -/

inductive StringUnit.Spells : StringUnit → Char → Prop
  | char (c : Char) : Spells (.char c) c
  | escaped {c : Char} (h : c.toNat < 0x20) : Spells (.escaped c.toNat) c

theorem unitsText_cons {u : StringUnit} {c : Char} (h : u.Spells c) (units : List StringUnit) :
    unitsText (u :: units) = (unitsText units).map (c :: ·) := by
  cases h with
  | char => rfl
  | escaped h =>
    have hhigh : isHighSurrogate c.toNat = false := by
      simp [isHighSurrogate]
      omega
    have hlow : isLowSurrogate c.toNat = false := by
      simp [isLowSurrogate]
      omega
    cases units with
    | nil => simp [unitsText, hhigh, hlow]
    | cons v units =>
      cases v with
      | char d =>
        simp only [unitsText, hhigh, hlow, Char.ofNat_toNat, Option.map_map]
        rfl
      | escaped m => simp [unitsText, hhigh, hlow]

theorem hexValue?_hexDigit : ∀ n < 16, hexValue? (hexDigit n) = some n := by decide

theorem hexUnit?_hexDigit {n : Nat} (h : n < 0x20) :
    hexUnit? '0' '0' (hexDigit (n / 16)) (hexDigit (n % 16)) = some n := by
  have hzero : hexValue? '0' = some 0 := rfl
  have hhigh := hexValue?_hexDigit (n / 16) (by omega)
  have hlow := hexValue?_hexDigit (n % 16) (by omega)
  simp only [hexUnit?, hzero, hhigh, hlow]
  show some (0 * 4096 + 0 * 256 + n / 16 * 16 + n % 16) = some n
  rw [Option.some.injEq]
  omega

/-- The three ways to write a character. -/
theorem escapeChar_cases (c : Char) :
    (∃ e, e ≠ 'u' ∧ simpleEscape? e = some c ∧ escapeChar c = ['\\', e]) ∨
      (c.toNat < 0x20 ∧
        escapeChar c = ['\\', 'u', '0', '0', hexDigit (c.toNat / 16), hexDigit (c.toNat % 16)]) ∨
      (¬ c.toNat < 0x20 ∧ c ≠ '"' ∧ c ≠ '\\' ∧ escapeChar c = [c]) := by
  by_cases hsimple : c ∈ ['"', '\\', '\x08', '\x0c', '\n', '\r', '\t']
  · left
    simp only [List.mem_cons, List.not_mem_nil, or_false] at hsimple
    rcases hsimple with rfl | rfl | rfl | rfl | rfl | rfl | rfl <;> exact ⟨_, by decide, rfl, rfl⟩
  · right
    simp only [List.mem_cons, List.not_mem_nil, or_false, not_or] at hsimple
    by_cases hc : c.toNat < 0x20
    · exact .inl ⟨hc, by simp [escapeChar, hsimple, hc]⟩
    · exact .inr ⟨hc, hsimple.1, hsimple.2.1, by simp [escapeChar, hsimple, hc]⟩

theorem readUnits_escapeChar (c : Char) : ∃ u : StringUnit, u.Spells c ∧ ∀ rest units rest',
    readUnits rest = some (units, rest') → readUnits (escapeChar c ++ rest) = some (u :: units, rest') := by
  rcases escapeChar_cases c with ⟨e, he, hsimple, hc⟩ | ⟨hcontrol, hc⟩ | ⟨hplain, hquote, hbackslash, hc⟩
  · refine ⟨.char c, .char c, ?_⟩
    intro rest units rest' hrest
    simp [hc, readUnits, he, hsimple, hrest]
  · refine ⟨.escaped c.toNat, .escaped hcontrol, ?_⟩
    intro rest units rest' hrest
    simp [hc, readUnits, hexUnit?_hexDigit hcontrol, hrest]
  · refine ⟨.char c, .char c, ?_⟩
    intro rest units rest' hrest
    simp [hc, readUnits, hbackslash, hplain, hrest]

theorem readString_escaped (cs rest : List Char) :
    readString (cs.flatMap escapeChar ++ '"' :: rest) = some (some (String.ofList cs), rest) := by
  have hunits : ∃ units, readUnits (cs.flatMap escapeChar ++ '"' :: rest) = some (units, rest) ∧
      unitsText units = some cs := by
    induction cs with
    | nil => exact ⟨[], by simp [readUnits], rfl⟩
    | cons c cs ih =>
      obtain ⟨units, hunits, htext⟩ := ih
      obtain ⟨u, hu, hread⟩ := readUnits_escapeChar c
      refine ⟨u :: units, ?_, ?_⟩
      · rw [List.flatMap_cons, List.append_assoc, hread _ _ _ hunits]
      · rw [unitsText_cons hu, htext]
        rfl
  obtain ⟨units, hunits, htext⟩ := hunits
  simp [readString, hunits, htext]

/-! ## Layout -/

theorem skipSpace_cons {c : Char} (h : isSpace c = false) (cs : List Char) : skipSpace (c :: cs) = c :: cs := by
  simp [skipSpace, h]

theorem skipSpace_newLine (level : Nat) (cs : List Char) : skipSpace (newLine level ++ cs) = skipSpace cs := by
  have hspace : ∀ c ∈ newLine level, isSpace c = true := by
    intro c hc
    rcases List.mem_cons.1 hc with rfl | hc
    · rfl
    · rw [List.eq_of_mem_replicate hc]
      rfl
  exact List.dropWhile_append_of_pos hspace

/-! ## Values -/

mutual
/-- A value without numbers whose strings are texts. -/
inductive Plain : Json → Prop
  | null : Plain .null
  | bool (b : Bool) : Plain (.bool b)
  | text (s : String) : Plain (.text s)
  | array {items} (h : PlainItems items) : Plain (.array items)
  | object {fields} (h : PlainFields fields) : Plain (.object fields)
inductive PlainItems : List Json → Prop
  | nil : PlainItems []
  | cons {item items} (h : Plain item) (hs : PlainItems items) : PlainItems (item :: items)
inductive PlainFields : List (Option String × Json) → Prop
  | nil : PlainFields []
  | cons {name value fields} (h : Plain value) (hs : PlainFields fields) :
      PlainFields ((some name, value) :: fields)
end

/-- No value is taken for white space or for the end of a list. -/
theorem Plain.write_head {j : Json} (h : Plain j) (level : Nat) :
    ∃ c cs, write level j = c :: cs ∧ isSpace c = false ∧ c ≠ ']' := by
  cases h with
  | null => exact ⟨_, _, rfl, rfl, by decide⟩
  | bool b => cases b <;> exact ⟨_, _, rfl, rfl, by decide⟩
  | text s => exact ⟨_, _, rfl, rfl, by decide⟩
  | @array items => cases items <;> exact ⟨_, _, rfl, rfl, by decide⟩
  | @object fields => cases fields <;> exact ⟨_, _, rfl, rfl, by decide⟩

theorem quoted_append (s : String) (rest : List Char) :
    quoted s ++ rest = '"' :: (s.toList.flatMap escapeChar ++ '"' :: rest) := by
  simp [quoted]

theorem readString_quoted (s : String) (rest : List Char) :
    readString (s.toList.flatMap escapeChar ++ '"' :: rest) = some (some s, rest) := by
  rw [readString_escaped, String.ofList_toList]

theorem skipSpace_write {j : Json} (h : Plain j) (level : Nat) (rest : List Char) :
    skipSpace (write level j ++ rest) = write level j ++ rest := by
  obtain ⟨c, cs, hwrite, hc, -⟩ := h.write_head level
  rw [hwrite, List.cons_append, skipSpace_cons hc]

/-! ## Lists

What is written of an array or an object after a first item or field, up to the closing
bracket and what follows it. -/

def itemsTail (level outer : Nat) (items : List Json) (rest : List Char) : List Char :=
  writeItems level items ++ (newLine outer ++ ']' :: rest)

def fieldsTail (level outer : Nat) (fields : List (Option String × Json)) (rest : List Char) : List Char :=
  writeFields level fields ++ (newLine outer ++ '\x7d' :: rest)

def writeField (level : Nat) (name : String) (value : Json) (rest : List Char) : List Char :=
  quoted name ++ (':' :: ' ' :: (write level value ++ rest))

section
variable (level outer : Nat) (rest : List Char)

theorem skipSpace_itemsTail_nil : skipSpace (itemsTail level outer [] rest) = ']' :: rest := by
  rw [itemsTail, writeItems, List.nil_append, skipSpace_newLine]
  exact skipSpace_cons rfl rest

theorem itemsTail_cons (item : Json) (items : List Json) : itemsTail level outer (item :: items) rest =
    ',' :: (newLine level ++ (write level item ++ itemsTail level outer items rest)) := by
  simp [itemsTail, writeItems]

theorem write_array_cons (item : Json) (items : List Json) : write level (.array (item :: items)) ++ rest =
    '[' :: (newLine (level + 1) ++ (write (level + 1) item ++ itemsTail (level + 1) level items rest)) := by
  simp [write, itemsTail]

theorem skipSpace_fieldsTail_nil : skipSpace (fieldsTail level outer [] rest) = '\x7d' :: rest := by
  rw [fieldsTail, writeFields, List.nil_append, skipSpace_newLine]
  exact skipSpace_cons rfl rest

theorem fieldsTail_cons (name : String) (value : Json) (fields : List (Option String × Json)) :
    fieldsTail level outer ((some name, value) :: fields) rest =
      ',' :: (newLine level ++ writeField level name value (fieldsTail level outer fields rest)) := by
  simp [fieldsTail, writeFields, writeField]

theorem write_object_cons (name : String) (value : Json) (fields : List (Option String × Json)) :
    write level (.object ((some name, value) :: fields)) ++ rest =
      '\x7b' :: (newLine (level + 1) ++
        writeField (level + 1) name value (fieldsTail (level + 1) level fields rest)) := by
  simp [write, fieldsTail, writeField]

theorem skipSpace_writeField (name : String) (value : Json) :
    skipSpace (writeField level name value rest) = writeField level name value rest := by
  rw [writeField, quoted_append]
  exact skipSpace_cons rfl _

end

/-! ## Reading what is written

The reader's fuel goes down with every step, so what holds of one more step is shown from what
holds of the steps before. -/

/-- With this fuel a value is read that is not written longer. -/
def ReadsValue (fuel : Nat) : Prop := ∀ {j level cs rest}, Plain j →
  skipSpace cs = write level j ++ rest → (write level j).length ≤ fuel → readValue fuel cs = some (j, rest)

def ReadsItems (fuel : Nat) : Prop := ∀ {item items level outer cs rest}, Plain item → PlainItems items →
  skipSpace cs = write level item ++ itemsTail level outer items rest →
  (write level item).length + (writeItems level items).length < fuel →
  readItems fuel cs = some (item :: items, rest)

def ReadsFields (fuel : Nat) : Prop := ∀ {name value fields level outer cs rest},
  Plain value → PlainFields fields →
  skipSpace cs = writeField level name value (fieldsTail level outer fields rest) →
  (write level value).length + (writeFields level fields).length < fuel →
  readFields fuel cs = some ((some name, value) :: fields, rest)

theorem readsValue_succ {fuel : Nat} (hitems : ReadsItems fuel) (hfields : ReadsFields fuel) :
    ReadsValue (fuel + 1) := by
  intro j level cs rest h hcs hfuel
  rw [readValue, hcs]
  cases h with
  | null => rfl
  | bool b => cases b <;> rfl
  | text s =>
    have hwrite : write level (.text s) = quoted s := rfl
    rw [hwrite, quoted_append]
    simp only [readString_quoted]
    rfl
  | array h =>
    cases h with
    | nil => rfl
    | @cons item items h hs =>
      have hskip := skipSpace_write h (level + 1) (itemsTail (level + 1) level items rest)
      have hread := hitems h hs hskip (by simp [write] at hfuel; omega)
      obtain ⟨c, ds, hhead, -, hc⟩ := h.write_head (level + 1)
      rw [hhead, List.cons_append] at hread hskip
      simp only [write_array_cons, skipSpace_newLine, hhead, List.cons_append]
      rw [hskip]
      simp [hc, hread]
  | object h =>
    cases h with
    | nil => rfl
    | @cons name value fields h hs =>
      have hskip := skipSpace_writeField (level + 1) (fieldsTail (level + 1) level fields rest) name value
      have hread := hfields h hs hskip (by simp [write] at hfuel; omega)
      simp only [write_object_cons, skipSpace_newLine]
      rw [hskip]
      rw [writeField, quoted_append] at hread ⊢
      simp [hread]

theorem readsItems_succ {fuel : Nat} (hvalue : ReadsValue fuel) (hitems : ReadsItems fuel) :
    ReadsItems (fuel + 1) := by
  intro item items level outer cs rest h hs hcs hfuel
  have hread := hvalue h hcs (by omega)
  rw [readItems, hread]
  cases hs with
  | nil => simp [skipSpace_itemsTail_nil]
  | @cons item' items h' hs =>
    have hskip : skipSpace (newLine level ++ (write level item' ++ itemsTail level outer items rest)) =
        write level item' ++ itemsTail level outer items rest := by
      rw [skipSpace_newLine, skipSpace_write h']
    have hnext := hitems h' hs hskip (by simp [writeItems] at hfuel; omega)
    rw [itemsTail_cons]
    simp [skipSpace_cons, isSpace, hnext]

theorem readsFields_succ {fuel : Nat} (hvalue : ReadsValue fuel) (hfields : ReadsFields fuel) :
    ReadsFields (fuel + 1) := by
  intro name value fields level outer cs rest h hs hcs hfuel
  have hskip : skipSpace (' ' :: (write level value ++ fieldsTail level outer fields rest)) =
      write level value ++ fieldsTail level outer fields rest :=
    skipSpace_write h level _
  have hread := hvalue h hskip (by omega)
  rw [readFields, hcs, writeField, quoted_append]
  simp only [readString_quoted]
  cases hs with
  | nil => simp [skipSpace_cons, isSpace, hread, skipSpace_fieldsTail_nil]
  | @cons name' value' fields h' hs =>
    have hskip' : skipSpace (newLine level ++ writeField level name' value' (fieldsTail level outer fields rest)) =
        writeField level name' value' (fieldsTail level outer fields rest) := by
      rw [skipSpace_newLine, skipSpace_writeField]
    have hnext := hfields h' hs hskip' (by simp [writeFields] at hfuel; omega)
    rw [fieldsTail_cons] at hread ⊢
    simp [skipSpace_cons, isSpace, hread, hnext]

theorem reads_of_fuel (fuel : Nat) : ReadsValue fuel ∧ ReadsItems fuel ∧ ReadsFields fuel := by
  induction fuel with
  | zero =>
    -- No value is written without a character, so there is nothing to read without fuel.
    refine ⟨?_, ?_, ?_⟩
    · intro j level cs rest h _ hfuel
      obtain ⟨c, ds, hwrite, -⟩ := h.write_head level
      simp [hwrite] at hfuel
    · intro item items level outer cs rest _ _ _ hfuel
      omega
    · intro name value fields level outer cs rest _ _ _ hfuel
      omega
  | succ fuel ih =>
    obtain ⟨hvalue, hitems, hfields⟩ := ih
    exact ⟨readsValue_succ hitems hfields, readsItems_succ hvalue hitems, readsFields_succ hvalue hfields⟩

/-- What is written for a value is read as that value. -/
theorem parse?_pretty {j : Json} (h : Plain j) : parse? j.pretty = some j := by
  have hskip : skipSpace (write 0 j) = write 0 j ++ [] := by
    simpa using skipSpace_write h 0 []
  have hread : ∀ fuel, (write 0 j).length ≤ fuel → readValue fuel (write 0 j) = some (j, []) := by
    intro fuel hfuel
    exact (reads_of_fuel fuel).1 h hskip hfuel
  rw [parse?, pretty, String.toList_ofList, hread _ (by omega)]
  rfl

end Json

/-! ## Tables

The entries of a table come in order, so reading them one after another puts each at the end
and none is merged with another. -/

theorem insertEntry_after {α : Type} {name : String} (value : α) {entries : List (String × α)}
    (h : ∀ e ∈ entries, e.1 < name) : insertEntry name value entries = entries ++ [(name, value)] := by
  induction entries with
  | nil => rfl
  | cons entry entries ih =>
    have hbefore : entry.1 < name := h entry List.mem_cons_self
    have hnot : ¬ name < entry.1 := String.lt_asymm hbefore
    have hne : name ≠ entry.1 := fun heq => String.lt_irrefl entry.1 (heq ▸ hbefore)
    have hrest := ih fun e he => h e (List.mem_cons_of_mem _ he)
    simp [insertEntry, hnot, hne, hrest]

namespace Settings

open Json

def textFields (entries : List (String × String)) : List (Option String × Json) :=
  entries.map fun e => (some e.1, .text e.2)

theorem tableJson_eq (t : Table String) : tableJson t = .object (textFields t.entries) := by
  simp [tableJson, record, textFields]

theorem addFields_textFields {entries : List (String × String)} :
    ∀ {t u : Table String}, u.entries = t.entries ++ entries → addFields t (textFields entries) = some u := by
  induction entries with
  | nil =>
    intro t u hu
    cases t
    cases u
    simp_all [textFields, addFields]
  | cons entry entries ih =>
    intro t u hu
    have hsorted : EntriesSorted (t.entries ++ entry :: entries) := hu ▸ u.sorted
    have hbefore : ∀ e ∈ t.entries, e.1 < entry.1 := by
      intro e he
      exact (List.pairwise_append.1 hsorted).2.2 e he entry List.mem_cons_self
    have hinsert : (t.insert entry.1 entry.2).entries = t.entries ++ [entry] := insertEntry_after entry.2 hbefore
    show addFields (t.insert entry.1 entry.2) (textFields entries) = some u
    apply ih
    rw [hinsert, hu, List.append_assoc]
    rfl

theorem readTable_tableJson (t : Table String) : readTable (tableJson t) = some t := by
  rw [tableJson_eq]
  exact addFields_textFields rfl

theorem plain_tableJson (t : Table String) : Plain (tableJson t) := by
  rw [tableJson_eq]
  apply Plain.object
  induction t.entries with
  | nil => exact .nil
  | cons entry entries ih => exact .cons (.text entry.2) ih

/-! ## Parts -/

theorem readPolicy_name (p : DuplicatePolicy) : readPolicy (.text p.name) = some p := by
  cases p <;> rfl

/-- Every part is written under its own name. -/
theorem ofJson?_toJson (s : Settings) : ofJson? s.toJson = some s := by
  have hcommands : Part.ofName? "commands" = some .commands := by decide
  have htests : Part.ofName? "tests" = some .tests := by decide
  have hcomparators : Part.ofName? "comparators" = some .comparators := by decide
  have hpolicy : Part.ofName? "duplicate_policy" = some .duplicatePolicy := by decide
  have hrequire : Part.ofName? "enforce_require" = some .enforceRequire := by decide
  simp [toJson, record, ofJson?, setFields, setPart, hcommands, htests, hcomparators, hpolicy, hrequire,
    readTable_tableJson, readPolicy_name, readBool]

theorem plain_toJson (s : Settings) : Plain s.toJson := by
  apply Plain.object
  have hpolicy : Plain (.text s.duplicatePolicy.name) := .text _
  have hrequire : Plain (.bool s.enforceRequire) := .bool _
  exact .cons (plain_tableJson _) (.cons (plain_tableJson _) (.cons (plain_tableJson _)
    (.cons hpolicy (.cons hrequire .nil))))

/-- Settings that are saved are loaded as they were, and saved again in the same text. -/
theorem load_save (s : Settings) : load s.save = .ok s ∧ (load s.save).map save = .ok s.save := by
  have hparse : parse? s.save = some s.toJson := parse?_pretty s.plain_toJson
  have hload : load s.save = .ok s := by
    simp [load, hparse, ofJson?_toJson]
  constructor
  · exact hload
  · rw [hload]
    rfl

end Settings

end MailSieve

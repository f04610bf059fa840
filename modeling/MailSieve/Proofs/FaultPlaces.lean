import MailSieve.Proofs.Evaluation
import MailSieve.Proofs.Overflow

/-!
# Where faults are reported

What is wrong with a text is reported where a token begins, or the text that is none. The lexer
stands there, the parser has just been given that token or remembers it as a brace, and the static
walk has it as the place of a command or test. When a tree is read no place is at hand: a number
out of range is reported without one, although its token has one.
-/

namespace MailSieve

/-- Whether a fault of a text is reported with a place. What the end of the text breaks off is
not, for want of a token, nor is a number out of range. -/
def Fault.hasPlace : Fault → Bool
  | grammar (.unexpected _ none) | literal (.numberRange _) => false
  | _ => true

/-! ## Lexer -/

/-- Reading a text from its front, the lexer comes to where some of it is behind and the rest
ahead. -/
inductive Reaches (cs : List Char) : List Char → List Char → Prop
  | start : Reaches cs [] cs
  | layout {before c rest} (hc : Text.isLayout c = true) (h : Reaches cs before (c :: rest)) :
      Reaches cs (before ++ [c]) rest
  | lexeme {before c rest cut} (hc : Text.isLayout c = false) (hcut : Cut.split c rest = .ok cut)
      (h : Reaches cs before (c :: rest)) : Reaches cs (before ++ cut.lexeme) cut.rest

theorem Reaches.append {cs before rest : List Char} (h : Reaches cs before rest) : cs = before ++ rest := by
  induction h with
  | start => rfl
  | layout _ _ ih => rw [ih, List.append_assoc, List.singleton_append]
  | lexeme _ hcut _ ih => rw [ih, List.append_assoc, Cut.split_append hcut]

/-- A token begins after the text behind, or text that the lexer refuses. -/
def LexemeAfter (text : String) (before : List Char) : Prop :=
  ∃ c rest, Reaches text.toList before (c :: rest) ∧ Text.isLayout c = false

def LexemeAt (text : String) (offset : Nat) : Prop :=
  ∃ before, LexemeAfter text before ∧ (Text.bytes before).length = offset

theorem LexemeAfter.lexemeAt {text : String} {before : List Char} (h : LexemeAfter text before) :
    ∃ offset < text.toUTF8.size, LexemeAt text offset ∧
      Position.start.advance before = (LineStarts.ofText text).position offset := by
  obtain ⟨c, rest, hreaches, hc⟩ := h
  have happend := hreaches.append
  refine ⟨(Text.bytes before).length, ?_, ⟨before, ⟨c, rest, hreaches, hc⟩, rfl⟩,
    (LineStarts.position_ofText happend).symm⟩
  have hpos := List.length_pos_iff.2 (Text.bytes_ne_nil (List.cons_ne_nil c rest))
  rw [Text.toUTF8_size, happend, Text.bytes_append, List.length_append]
  omega

/-- What the lexer gives, tokens or a refusal, is placed where lexemes begin. -/
def PlacesLexemes (text : String) : Except Error (List PlacedToken) → Prop
  | .error e => ∃ fault before, LexemeAfter text before ∧
      e = (Fault.lexical fault).errorAt (Position.start.advance before)
  | .ok ts => ∀ t ∈ ts, ∃ before, LexemeAfter text before ∧ t.position = Position.start.advance before

theorem placesLexemes_tokenizeFrom {text : String} {before rest : List Char} {p : Position}
    (hreaches : Reaches text.toList before rest) (hp : p = Position.start.advance before) :
    PlacesLexemes text (tokenizeFrom p rest) := by
  fun_induction tokenizeFrom p rest generalizing before with
  | case1 => exact List.forall_mem_nil _
  | case2 p c cs hc ih =>
    refine ih (hreaches.layout hc) ?_
    rw [hp, Position.advance_append]
    rfl
  | case3 p c cs hc fault hcut =>
    exact ⟨fault, before, ⟨c, cs, hreaches, Bool.eq_false_iff.2 hc⟩, by rw [hp]⟩
  | case4 p c cs hc cut hcut e he ih =>
    have hrest := ih (hreaches.lexeme (Bool.eq_false_iff.2 hc) hcut) (by rw [hp, Position.advance_append])
    rw [he] at hrest
    exact hrest
  | case5 p c cs hc cut hcut us hus ih =>
    have hc := Bool.eq_false_iff.2 hc
    have hrest := ih (hreaches.lexeme hc hcut) (by rw [hp, Position.advance_append])
    rw [hus] at hrest
    exact List.forall_mem_cons.2 ⟨⟨before, ⟨c, cs, hreaches, hc⟩, hp⟩, hrest⟩

theorem placesLexemes_tokenize (text : String) : PlacesLexemes text (tokenize text) :=
  placesLexemes_tokenizeFrom .start rfl

/-! ## Parser -/

namespace Parser

def Sequence.braces : Sequence → List Position
  | top _ => []
  | block outer _ _ _ brace _ => brace :: outer.braces

def Holder.braces : Holder → List Position
  | command within .. => within.braces
  | test within .. => within.braces
  | listed within .. => within.braces

def Closed.braces : Closed → List Position
  | command within .. => within.braces
  | testList within _ => within.braces

def State.braces : State → List Position
  | commands sequence => sequence.braces
  | arguments holder | full holder | test holder _ | string holder _ | stringEnd holder _ => holder.braces

@[simp] theorem Sequence.braces_push (s : Sequence) (n : Node) : (s.push n).braces = s.braces := by
  cases s <;> rfl

@[simp] theorem Holder.braces_push (h : Holder) (n : Node) : (h.push n).braces = h.braces := by
  cases h <;> rfl

@[simp] theorem Holder.braces_close (h : Holder) (extra : List Node) : (h.close extra).braces = h.braces := by
  induction h generalizing extra with
  | command => rfl
  | test within name position arguments ih => exact ih _
  | listed => rfl

/-- The parser is given a token: it refuses it and says where it stands, or it goes on and
remembers at most the place of this token besides those it had. -/
def Handles (braces : List Position) (t : PlacedToken) : Except Error State → Prop
  | .error e => ∃ fault, e = (Fault.grammar fault).errorAt t.position ∧ (Fault.grammar fault).hasPlace = true
  | .ok next => next.braces ⊆ t.position :: braces

namespace Handles

variable {braces : List Position} {t : PlacedToken}

theorem unexpected (expected : Expected) : Handles braces t (unexpected expected t) :=
  ⟨_, rfl, rfl⟩

theorem next {state : State} (h : state.braces = braces) : Handles braces t (.ok state) :=
  h ▸ List.subset_cons_self _ _

theorem nested {depth : Nat} {state : State} (h : state.braces ⊆ t.position :: braces) :
    Handles braces t (nested depth t.position state) := by
  unfold Parser.nested
  split
  · exact h
  · exact ⟨_, rfl, rfl⟩

end Handles

theorem handles_stepClosed (closed : Closed) (t : PlacedToken) : Handles closed.braces t (stepClosed closed t) := by
  cases closed with
  | command within name position arguments =>
    simp only [stepClosed]
    split
    · exact .next (within.braces_push _)
    · exact .nested (List.Subset.refl _)
    · exact .unexpected _
  | testList within tests =>
    simp only [stepClosed]
    split
    · exact .next rfl
    · exact .next (within.braces_push _)
    · exact .unexpected _

theorem handles_close (holder : Holder) (t : PlacedToken) :
    Handles holder.braces t (stepClosed (holder.close []) t) :=
  holder.braces_close [] ▸ handles_stepClosed (holder.close []) t

theorem handles_step (state : State) (t : PlacedToken) : Handles state.braces t (step state t) := by
  cases state with
  | commands sequence =>
    simp only [step]
    split
    · exact .next rfl
    · cases sequence with
      | top => exact .unexpected _
      | block outer name position arguments brace commands =>
        -- the brace of the block that ends is forgotten
        change (outer.push _).braces ⊆ t.position :: brace :: outer.braces
        rw [Sequence.braces_push]
        exact fun p hp => List.mem_cons_of_mem _ (List.mem_cons_of_mem _ hp)
    · exact .unexpected _
  | arguments holder =>
    simp only [step]
    split
    · exact .next (holder.braces_push _)
    · exact .next (holder.braces_push _)
    · exact .next (holder.braces_push _)
    · exact .next (holder.braces_push _)
    · exact .next rfl
    · exact .nested (List.subset_cons_self _ _)
    · exact .nested (List.subset_cons_self _ _)
    · exact handles_close holder t
  | full holder => exact handles_close holder t
  | test within tests =>
    simp only [step]
    split
    · exact .next rfl
    · exact .unexpected _
  | string holder strings =>
    simp only [step]
    split
    · exact .next rfl
    · exact .next rfl
    · exact .unexpected _
  | stringEnd holder strings =>
    simp only [step]
    split
    · exact .next rfl
    · exact .next (holder.braces_push _)
    · exact .unexpected _

/-- Over a whole run every place is that of a token it was given, or one it began with. -/
theorem run_places {state : State} {ts : List PlacedToken} :
    match run state ts with
    | .error e => ∃ t ∈ ts, Handles [] t (.error e)
    | .ok final => final.braces ⊆ ts.map (·.position) ++ state.braces := by
  induction ts generalizing state with
  | nil => exact List.Subset.refl _
  | cons t ts ih =>
    have hstep := handles_step state t
    unfold run
    cases hnext : step state t with
    | error e =>
      rw [hnext] at hstep
      exact ⟨t, List.mem_cons_self, hstep⟩
    | ok next =>
      rw [hnext] at hstep
      have ih := @ih next
      simp only
      cases hrun : run next ts with
      | error e =>
        rw [hrun] at ih
        obtain ⟨u, hu, hfault⟩ := ih
        exact ⟨u, List.mem_cons_of_mem _ hu, hfault⟩
      | ok final =>
        rw [hrun] at ih
        intro p hp
        rcases List.mem_append.1 (ih hp) with hmem | hmem
        · exact List.mem_append_left _ (List.mem_cons_of_mem _ hmem)
        · rcases List.mem_cons.1 (hstep hmem) with rfl | hold
          · exact List.mem_append_left _ List.mem_cons_self
          · exact List.mem_append_right _ hold

/-- When the tokens end too early that is said, or which block is still open. -/
theorem finish_error {state : State} {e : Error} (h : finish state = .error e) :
    (∃ p ∈ state.braces, e = (Fault.grammar .openBlock).errorAt p) ∨
      ∃ expected, e = (Fault.grammar (.unexpected expected none)).error := by
  cases state with
  | commands sequence =>
    cases sequence with
    | top => cases h
    | block outer name position arguments brace commands =>
      cases h
      exact .inl ⟨brace, List.mem_cons_self, rfl⟩
  | arguments holder | full holder =>
    simp only [finish] at h
    split at h <;> cases h <;> exact .inr ⟨_, rfl⟩
  | test | string | stringEnd =>
    cases h
    exact .inr ⟨_, rfl⟩

end Parser

theorem parseTokens_error {ts : List PlacedToken} {e : Error} (h : parseTokens ts = .error e) :
    (∃ t ∈ ts, ∃ fault, e = (Fault.grammar fault).errorAt t.position ∧ (Fault.grammar fault).hasPlace = true) ∨
      ∃ expected, e = (Fault.grammar (.unexpected expected none)).error := by
  have hrun := @Parser.run_places (.commands (.top [])) ts
  unfold parseTokens at h
  split at h
  · next e' hfail =>
    cases h
    rw [hfail] at hrun
    exact .inl hrun
  · next state hstate =>
    rw [hstate] at hrun
    rcases Parser.finish_error h with ⟨p, hp, rfl⟩ | hend
    · have hmem : p ∈ ts.map (·.position) := by simpa [Parser.State.braces, Parser.Sequence.braces] using hrun hp
      obtain ⟨t, ht, rfl⟩ := List.mem_map.1 hmem
      exact .inl ⟨t, ht, _, rfl, rfl⟩
    · exact .inr hend

/-! ## Static walk -/

/-- A computation that reports a fault of a script, if any, at one of the places. -/
def FaultsAt (places : List Position) (x : Except Error α) : Prop :=
  ∀ fault position, x = .error (.illFormed fault position) →
    fault.hasPlace = true ∧ ∃ p ∈ places, position = some p

namespace FaultsAt

variable {places places' : List Position}

theorem ok (a : α) : FaultsAt places (.ok a) := by
  intro fault position he
  cases he

theorem ofLookup {kind : EntryKind} {name : String} {failure : NameFault} :
    FaultsAt places (.error (.lookup kind name failure) : Except Error α) := by
  intro fault position he
  cases he

theorem mono {x : Except Error α} (hsub : places ⊆ places') (h : FaultsAt places x) : FaultsAt places' x := by
  intro fault position he
  obtain ⟨hfault, p, hp, hposition⟩ := h fault position he
  exact ⟨hfault, p, hsub hp, hposition⟩

theorem bind {x : Except Error α} {f : α → Except Error β} (h : FaultsAt places x)
    (hf : ∀ a, x = .ok a → FaultsAt places (f a)) : FaultsAt places (x >>= f) := by
  cases x with
  | error e =>
    intro fault position he
    cases he
    exact h fault position rfl
  | ok a => exact hf a rfl

theorem lookup {r : Registry α} {name : String} : FaultsAt places (r.lookup name) := by
  unfold Registry.lookup
  cases r.get? name with
  | none => exact .ofLookup
  | some value => exact .ok value

/-- A fault of shape is given the place of what is checked. -/
theorem locate {x : Except ShapeFault α} (p : Position) :
    FaultsAt [p] ((liftShape x).mapError (·.locate p)) := by
  intro fault position he
  cases x with
  | ok a => cases he
  | error f =>
    cases he
    exact ⟨rfl, p, List.mem_cons_self, rfl⟩

end FaultsAt

namespace Environment

section
variable {env : Environment}

theorem checkEnabled_faultsAt {places : List Position} {enabled : List String} {kind : EntryKind} {name : String}
    {ext : Bool} : FaultsAt places (env.checkEnabled enabled kind name ext) := by
  unfold checkEnabled
  split
  · exact .ok ()
  · exact .ofLookup

theorem validateComparators_faultsAt {places : List Position} {enabled : List String} :
    ∀ names, FaultsAt places (env.validateComparators enabled names)
  | [] => .ok ()
  | _ :: names =>
    (FaultsAt.lookup.bind fun _ _ => checkEnabled_faultsAt.bind fun _ _ => .ok _).bind
      fun _ _ => validateComparators_faultsAt names

theorem requireAll_faultsAt {places : List Position} {enabled : List String} :
    ∀ names, FaultsAt places (env.requireAll enabled names) := by
  intro names
  induction names generalizing enabled with
  | nil => exact .ok _
  | cons name names ih =>
    unfold requireAll
    split
    · exact ih
    · exact .ofLookup

theorem validateTestUse_faultsAt (hhost : env.HostFree) (enabled : List String) (t : Test) :
    FaultsAt [t.position] (env.validateTestUse enabled t) := by
  apply FaultsAt.lookup.bind
  intro kind hkind
  refine FaultsAt.bind ?_ fun _ _ => checkEnabled_faultsAt.bind fun _ _ => validateComparators_faultsAt _
  cases kind with
  | host test => exact absurd hkind (hhost t.name test)
  | _ => exact .locate t.position

mutual
theorem validateTest_faultsAt (hhost : env.HostFree) (enabled : List String) :
    ∀ t : Test, FaultsAt (t.preorder.map (·.position)) (env.validateTest enabled t)
  | ⟨_, _, tests, _⟩ => by
    rw [validateTest, Test.preorder, List.map_cons]
    refine FaultsAt.bind ?_ fun _ _ => ?_
    · exact (validateTestUse_faultsAt hhost enabled _).mono (by simp)
    · exact (validateTests?_faultsAt hhost enabled tests).mono (List.subset_cons_self _ _)

theorem validateTests?_faultsAt (hhost : env.HostFree) (enabled : List String) :
    ∀ tests : Option (List Test),
      FaultsAt ((Test.preorder? tests).map (·.position)) (env.validateTests? enabled tests)
  | none => .ok ()
  | some tests => validateTests_faultsAt hhost enabled tests

theorem validateTests_faultsAt (hhost : env.HostFree) (enabled : List String) :
    ∀ tests : List Test, FaultsAt ((Test.preorderAll tests).map (·.position)) (env.validateTests enabled tests)
  | [] => .ok ()
  | t :: ts => by
    rw [validateTests, Test.preorderAll, List.map_append]
    refine FaultsAt.bind ?_ fun _ _ => ?_
    · exact (validateTest_faultsAt hhost enabled t).mono (List.subset_append_left _ _)
    · exact (validateTests_faultsAt hhost enabled ts).mono (List.subset_append_right _ _)
end

/-- Whatever is registered as `require` reads its operands when it is checked. -/
def RequireIsBuiltin (env : Environment) : Prop :=
  ∀ kind, env.commands.lookup requireName = .ok kind → kind = .require

theorem validateCommandUse_faultsAt (hrequire : env.RequireIsBuiltin) (enabled : List String) (c : Command) :
    FaultsAt [c.position] (env.validateCommandUse enabled c) := by
  apply FaultsAt.lookup.bind
  intro kind hkind
  refine FaultsAt.bind (.locate c.position) ?_
  intro _ hcheck
  refine checkEnabled_faultsAt.bind fun _ _ => ?_
  by_cases hname : c.name = requireName
  · rw [hname] at hkind
    cases hrequire kind hkind
    obtain ⟨names, hnames⟩ := verdict_eq_ok.1 (liftShape_eq_ok.1 (mapError_eq_ok.1 hcheck))
    rw [if_pos hname, hnames]
    exact requireAll_faultsAt names
  · rw [if_neg hname]
    exact .ok _

def places (commands : List Command) : List Position :=
  (commands.flatMap Command.uses).map (·.position)

theorem places_append (cs ds : List Command) : places (cs ++ ds) = places cs ++ places ds := by
  simp [places]

theorem places_preorder (c : Command) : places c.preorder =
    c.position :: ((Test.preorder? c.tests).map (·.position) ++ places (Script.blockPreorder c.block)) := by
  rw [Command.preorder_eq, places, List.flatMap_cons, List.map_append, Command.uses, List.map_cons, List.map_map]
  rfl

theorem placeCheck_faultsAt (p : Place) (c : Command) :
    FaultsAt [c.position] ((p.check c.name).mapError fun fault => (Fault.placement fault).errorAt c.position) := by
  intro fault position he
  obtain ⟨f, -, hf⟩ := error_of_mapError he
  cases hf
  exact ⟨rfl, c.position, List.mem_cons_self, rfl⟩

mutual
theorem validateCommand_faultsAt (hhost : env.HostFree) (hrequire : env.RequireIsBuiltin) (enabled : List String) :
    ∀ c : Command, FaultsAt (places c.preorder) (env.validateCommand enabled c)
  | ⟨name, arguments, tests, block, position⟩ => by
    rw [validateCommand, places_preorder]
    refine FaultsAt.bind ?_ fun en _ => FaultsAt.bind ?_ fun _ _ => ?_
    · exact (validateCommandUse_faultsAt hrequire enabled _).mono (by simp)
    · refine (validateTests?_faultsAt hhost en tests).mono ?_
      exact List.subset_cons_of_subset _ (List.subset_append_left _ _)
    · refine (validateBlock?_faultsAt hhost hrequire en block).mono ?_
      exact List.subset_cons_of_subset _ (List.subset_append_right _ _)

theorem validateBlock?_faultsAt (hhost : env.HostFree) (hrequire : env.RequireIsBuiltin) (enabled : List String) :
    ∀ block : Option (List Command),
      FaultsAt (places (Script.blockPreorder block)) (env.validateBlock? enabled block)
  | none => .ok _
  | some commands => validateSequence_faultsAt hhost hrequire enabled (.start false) commands

theorem validateSequence_faultsAt (hhost : env.HostFree) (hrequire : env.RequireIsBuiltin) (enabled : List String)
    (p : Place) :
    ∀ commands : List Command,
      FaultsAt (places (Script.preorder commands)) (env.validateSequence enabled p commands)
  | [] => .ok _
  | c :: cs => by
    rw [validateSequence, Script.preorder, places_append]
    refine FaultsAt.bind ?_ fun _ _ => FaultsAt.bind ?_ fun en _ => ?_
    · refine (placeCheck_faultsAt p c).mono ?_
      rw [places_preorder]
      simp
    · exact (validateCommand_faultsAt hhost hrequire enabled c).mono (List.subset_append_left _ _)
    · exact (validateSequence_faultsAt hhost hrequire en _ cs).mono (List.subset_append_right _ _)
end

theorem validate_faultsAt (hhost : env.HostFree) (hrequire : env.RequireIsBuiltin) (script : Script) :
    FaultsAt (places (Script.preorder script)) (env.validate script) := by
  unfold validate verdict
  intro fault position he
  cases hresult : env.validateSequence [] (.start true) script with
  | ok en =>
    rw [hresult] at he
    cases he
  | error e =>
    rw [hresult] at he
    cases he
    exact validateSequence_faultsAt hhost hrequire [] (.start true) script fault position hresult

end

theorem requireIsBuiltin_standard : standard.RequireIsBuiltin := by
  intro kind hkind
  exact eq_of_id_eq (standard_commands_lookup_eq_ok.1 hkind).symm

end Environment

/-! ## Whole texts -/

/-- Commands and tests stand where their identifiers do. -/
theorem Script.exists_token_of_mem_places {text : String} {script : Script} {tokens : List PlacedToken}
    (htokens : tokenize text = .ok tokens) (h : compile text = .ok script) {p : Position}
    (hp : p ∈ Environment.places (Script.preorder script)) : ∃ t ∈ tokens, t.position = p := by
  obtain ⟨tokens', htokens', hfringe⟩ := fringe_of_compile h
  cases htokens.symm.trans htokens'
  obtain ⟨u, hu, rfl⟩ := List.mem_map.1 hp
  have hleaf : Leaf.heading u.name u.position ∈ (uses script).flatMap Use.leaves :=
    List.mem_flatMap.2 ⟨u, hu, List.mem_cons_self⟩
  have hmem : .ok (Leaf.heading u.name u.position) ∈ tokens.filterMap PlacedToken.leaf? := by
    rw [hfringe]
    exact List.mem_map_of_mem hleaf
  obtain ⟨t, ht, hleaf⟩ := List.mem_filterMap.1 hmem
  have hheading : t.heading? = some u.heading := by
    rw [PlacedToken.heading?_eq, hleaf]
    rfl
  refine ⟨t, ht, ?_⟩
  unfold PlacedToken.heading? at hheading
  split at hheading
  · exact congrArg Prod.snd (Option.some.inj hheading)
  · cases hheading

namespace Environment

inductive Reports (text : String) : Fault → Option Position → Prop
  | located {fault : Fault} {offset : Nat} (hoffset : offset < text.toUTF8.size) (hlexeme : LexemeAt text offset)
      (hplace : fault.hasPlace = true) :
      Reports text fault (some ((LineStarts.ofText text).position offset))
  /-- No token is left that it could be reported at. -/
  | atEnd {expected : Expected} : Reports text (.grammar (.unexpected expected none)) none
  /-- The place of the number is not passed on. -/
  | numberRange {tokens : List PlacedToken} {literal : String} {p : Position} (htokens : tokenize text = .ok tokens)
      (hmem : ⟨.number literal, p⟩ ∈ tokens) (hlarge : 2 ^ 64 ≤ Literal.magnitude literal) :
      Reports text (.literal (.numberRange literal)) none

section
variable {text : String} {tokens : List PlacedToken}

theorem reports_of_lexemeAfter {fault : Fault} {before : List Char} (h : LexemeAfter text before)
    (hplace : fault.hasPlace = true) : Reports text fault (some (Position.start.advance before)) := by
  obtain ⟨offset, hoffset, hlexeme, hposition⟩ := h.lexemeAt
  rw [hposition]
  exact .located hoffset hlexeme hplace

theorem reports_of_token {fault : Fault} {t : PlacedToken} (htokens : tokenize text = .ok tokens) (ht : t ∈ tokens)
    (hplace : fault.hasPlace = true) : Reports text fault (some t.position) := by
  have hplaces := placesLexemes_tokenize text
  rw [htokens] at hplaces
  obtain ⟨before, hbefore, hposition⟩ := hplaces t ht
  rw [hposition]
  exact reports_of_lexemeAfter hbefore hplace

theorem reports_of_tokenize {fault : Fault} {position : Option Position}
    (h : tokenize text = .error (.illFormed fault position)) : Reports text fault position := by
  have hplaces := placesLexemes_tokenize text
  rw [h] at hplaces
  obtain ⟨f, before, hbefore, he⟩ := hplaces
  cases he
  exact reports_of_lexemeAfter hbefore rfl

theorem reports_of_parseTokens {fault : Fault} {position : Option Position} (htokens : tokenize text = .ok tokens)
    (h : parseTokens (withoutComments tokens) = .error (.illFormed fault position)) :
    Reports text fault position := by
  rcases parseTokens_error h with ⟨t, ht, f, he, hf⟩ | ⟨expected, he⟩
  · cases he
    exact reports_of_token htokens (List.mem_of_mem_filter ht) hf
  · cases he
    exact .atEnd

/-- What lexer and parser report, and the reading of the tree. -/
theorem reports_of_scriptCompile {fault : Fault} {position : Option Position}
    (h : Script.compile text = .error (.illFormed fault position)) : Reports text fault position := by
  unfold Script.compile parse at h
  cases htokens : tokenize text with
  | error e =>
    rw [htokens] at h
    cases h
    exact reports_of_tokenize htokens
  | ok tokens =>
    simp only [htokens] at h
    cases htree : parseTokens (withoutComments tokens) with
    | error e =>
      rw [htree] at h
      cases h
      exact reports_of_parseTokens htokens htree
    | ok tree =>
      rw [htree, ok_bind] at h
      obtain ⟨literal, p, hmem, hlarge, he⟩ := Script.numberRange_of_ofTree htokens htree h
      cases he
      exact .numberRange htokens hmem hlarge

end

/-- Under the standard names, what is wrong with a text is reported where a token begins or text
that the lexer refuses, unless the text ends too early or a number is out of range: these two
are reported without a place. -/
theorem compile_reports (text : String) (fault : Fault) (position : Option Position)
    (h : standard.compile text = .error (.illFormed fault position)) : Reports text fault position := by
  unfold compile at h
  cases hscript : Script.compile text with
  | error e =>
    rw [hscript] at h
    cases h
    exact reports_of_scriptCompile hscript
  | ok script =>
    obtain ⟨tokens, htokens, -⟩ := Script.fringe_of_compile hscript
    rw [hscript, ok_bind] at h
    cases hvalid : standard.validate script with
    | ok =>
      rw [hvalid] at h
      cases h
    | error e =>
      rw [hvalid] at h
      cases h
      have hhost : standard.HostFree := fun _ _ => standard_tests_not_host
      obtain ⟨hfault, p, hp, rfl⟩ :=
        validate_faultsAt hhost requireIsBuiltin_standard script fault position hvalid
      obtain ⟨t, ht, rfl⟩ := Script.exists_token_of_mem_places htokens hscript hp
      exact reports_of_token htokens ht hfault

def blankRedirect : String := "keep;\n  redirect \"\";"

theorem compile_reports_blankRedirect :
    standard.compile blankRedirect = .error (.illFormed (.shape .emptyAddress) (some ⟨2, 3⟩)) ∧
    ∃ offset < blankRedirect.toUTF8.size, LexemeAt blankRedirect offset ∧
      (LineStarts.ofText blankRedirect).position offset = ⟨2, 3⟩ := by
  have hcompile : standard.compile blankRedirect =
      .error (.illFormed (.shape .emptyAddress) (some ⟨2, 3⟩)) := by cbv
  refine ⟨hcompile, ?_⟩
  generalize hposition : some (⟨2, 3⟩ : Position) = position at hcompile
  have hreports := compile_reports blankRedirect _ position hcompile
  cases hreports with
  | located hoffset hlexeme => exact ⟨_, hoffset, hlexeme, (Option.some.inj hposition).symm⟩

/-- The only token out of range stands in the sixth column, and the error does not say so. -/
theorem compile_unplaced :
    tokenize "keep 99999999999999999999;" = .ok [
      ⟨.identifier "keep", ⟨1, 1⟩⟩, ⟨.number "99999999999999999999", ⟨1, 6⟩⟩, ⟨.punct .semicolon, ⟨1, 26⟩⟩] ∧
    ∃ e, standard.compile "keep 99999999999999999999;" = .error e ∧ e.position = none ∧
      e.message = "syntax error: number out of range: 99999999999999999999" := by
  have htokens : tokenize "keep 99999999999999999999;" = .ok [
      ⟨.identifier "keep", ⟨1, 1⟩⟩, ⟨.number "99999999999999999999", ⟨1, 6⟩⟩,
      ⟨.punct .semicolon, ⟨1, 26⟩⟩] := by cbv
  have hcompile : standard.compile "keep 99999999999999999999;" =
      .error (.illFormed (.literal (.numberRange "99999999999999999999")) none) := by cbv
  exact ⟨htokens, _, hcompile, rfl, rfl⟩

end Environment

end MailSieve

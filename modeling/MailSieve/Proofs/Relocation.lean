import MailSieve.Proofs.Reading

/-!
# Moving positions

Positions are carried along by the parser and by the reading of its trees, and nothing is
decided by them. So moving the positions of the tokens moves those of the script, or of the
error, in the same way and changes nothing else.
-/

namespace MailSieve

/-! ## Results -/

def PlacedToken.relocate (f : Position → Position) (t : PlacedToken) : PlacedToken :=
  ⟨t.token, f t.position⟩

def Error.relocate (f : Position → Position) : Error → Error
  | .illFormed fault p => .illFormed fault (p.map f)
  | .command fault p => .command fault (p.map f)
  | .lookup kind name failure => .lookup kind name failure
  | .mail e => .mail e

/-- A result whose value is moved by `g`, and whose error's position by `f`. -/
def moved (f : Position → Position) (g : α → β) : Except Error α → Except Error β
  | .ok a => .ok (g a)
  | .error e => .error (e.relocate f)

section
variable {f : Position → Position}

@[simp] theorem moved_ok (g : α → β) (a : α) : moved f g (.ok a) = .ok (g a) := rfl

@[simp] theorem moved_pure (g : α → β) (a : α) : moved f g (pure a) = pure (g a) := rfl

@[simp] theorem moved_throw (g : α → β) (e : Error) : moved f g (throw e) = throw (e.relocate f) := rfl

theorem moved_bind {g : α → α'} {h : β → β'} {x : Except Error α} {k : α → Except Error β}
    {k' : α' → Except Error β'} (hk : ∀ a, k' (g a) = moved f h (k a)) :
    (moved f g x >>= k') = moved f h (x >>= k) := by
  cases x with
  | error e => rfl
  | ok a => exact hk a

theorem Error.relocate_locate (e : Error) (p : Position) :
    (e.locate p).relocate f = (e.relocate f).locate (f p) := by
  cases e with
  | illFormed fault q => cases q <;> rfl
  | command fault q => cases q <;> rfl
  | lookup kind name failure => rfl
  | mail e => rfl

@[simp] theorem Fault.relocate_error (fault : Fault) : fault.error.relocate f = fault.error := rfl

@[simp] theorem Reading.relocate_misplaced (found parent : NodeKind) :
    (misplaced found parent).relocate f = misplaced found parent := rfl

end

/-! ## Trees -/

mutual
def Node.relocate (f : Position → Position) : Node → Node
  | .start children => .start (relocateAll f children)
  | .commands children => .commands (relocateAll f children)
  | .command name p children => .command name (f p) (relocateAll f children)
  | .block children => .block (relocateAll f children)
  | .arguments children => .arguments (relocateAll f children)
  | .argument children => .argument (relocateAll f children)
  | .test name p children => .test name (f p) (relocateAll f children)
  | .testList children => .testList (relocateAll f children)
  | .stringList children => .stringList (relocateAll f children)
  | .string literal => .string literal
  | .number literal => .number literal
  | .tag name => .tag name
def Node.relocateAll (f : Position → Position) : List Node → List Node
  | [] => []
  | n :: ns => n.relocate f :: relocateAll f ns
end

section
variable {f : Position → Position}

theorem Node.relocateAll_append (ns ms : List Node) :
    relocateAll f (ns ++ ms) = relocateAll f ns ++ relocateAll f ms := by
  induction ns with
  | nil => rfl
  | cons n ns ih => simp only [List.cons_append, relocateAll, ih]

theorem Node.length_relocateAll (ns : List Node) : (relocateAll f ns).length = ns.length := by
  induction ns with
  | nil => rfl
  | cons n ns ih => simp only [relocateAll, List.length_cons, ih]

end

/-! ## The parser -/

namespace Parser

def Sequence.relocate (f : Position → Position) : Sequence → Sequence
  | .top commands => .top (Node.relocateAll f commands)
  | .block outer name p arguments brace commands =>
    .block (outer.relocate f) name (f p) (Node.relocateAll f arguments) (f brace)
      (Node.relocateAll f commands)

def Holder.relocate (f : Position → Position) : Holder → Holder
  | .command within name p arguments =>
    .command (within.relocate f) name (f p) (Node.relocateAll f arguments)
  | .test within name p arguments =>
    .test (within.relocate f) name (f p) (Node.relocateAll f arguments)
  | .listed within tests name p arguments =>
    .listed (within.relocate f) (Node.relocateAll f tests) name (f p) (Node.relocateAll f arguments)

def Closed.relocate (f : Position → Position) : Closed → Closed
  | .command within name p arguments =>
    .command (within.relocate f) name (f p) (Node.relocateAll f arguments)
  | .testList within tests => .testList (within.relocate f) (Node.relocateAll f tests)

def State.relocate (f : Position → Position) : State → State
  | .commands sequence => .commands (sequence.relocate f)
  | .arguments holder => .arguments (holder.relocate f)
  | .full holder => .full (holder.relocate f)
  | .test within tests => .test (within.relocate f) (Node.relocateAll f tests)
  | .string holder strings => .string (holder.relocate f) (Node.relocateAll f strings)
  | .stringEnd holder strings => .stringEnd (holder.relocate f) (Node.relocateAll f strings)

section
variable {f : Position → Position}

@[simp] theorem Sequence.depth_relocate (s : Sequence) : (s.relocate f).depth = s.depth := by
  induction s with
  | top => rfl
  | block outer _ _ _ _ _ ih => simp only [relocate, depth, ih]

@[simp] theorem Sequence.relocate_push (s : Sequence) (n : Node) :
    (s.push n).relocate f = (s.relocate f).push (n.relocate f) := by
  cases s <;> simp [push, relocate, Node.relocateAll_append, Node.relocateAll]

@[simp] theorem Holder.depth_relocate (h : Holder) : (h.relocate f).depth = h.depth := by
  induction h with
  | command => simp only [relocate, depth, Sequence.depth_relocate]
  | test _ _ _ _ ih => simp only [relocate, depth, ih]
  | listed _ _ _ _ _ ih => simp only [relocate, depth, ih]

@[simp] theorem Holder.relocate_push (h : Holder) (n : Node) :
    (h.push n).relocate f = (h.relocate f).push (n.relocate f) := by
  cases h <;> simp [push, relocate, Node.relocateAll_append, Node.relocateAll]

theorem Holder.relocate_close (h : Holder) (extra : List Node) :
    (h.close extra).relocate f = (h.relocate f).close (Node.relocateAll f extra) := by
  induction h generalizing extra with
  | command => simp [close, relocate, Closed.relocate, Node.relocateAll_append]
  | test _ _ _ _ ih =>
    simp [close, relocate, ih, testNode, Node.relocateAll, Node.relocate, Node.relocateAll_append]
  | listed =>
    simp [close, relocate, Closed.relocate, testNode, Node.relocateAll, Node.relocate,
      Node.relocateAll_append]

theorem unexpected_relocate (expected : Expected) (t : PlacedToken) :
    unexpected expected (t.relocate f) = moved f (State.relocate f) (unexpected expected t) := rfl

theorem nested_relocate (depth : Nat) (p : Position) (next : State) :
    nested depth (f p) (next.relocate f) = moved f (State.relocate f) (nested depth p next) := by
  unfold nested
  split <;> rfl

theorem stepClosed_relocate (closed : Closed) (t : PlacedToken) :
    stepClosed (closed.relocate f) (t.relocate f) = moved f (State.relocate f) (stepClosed closed t) := by
  obtain ⟨token, p⟩ := t
  cases closed with
  | command within name q arguments =>
    simp only [Closed.relocate, stepClosed, PlacedToken.relocate]
    split
    · simp [State.relocate, Node.relocate, Node.relocateAll]
    · rw [Sequence.depth_relocate, ← nested_relocate]
      rfl
    · exact unexpected_relocate _ ⟨token, p⟩
  | testList within tests =>
    simp only [Closed.relocate, stepClosed, PlacedToken.relocate]
    split
    · rfl
    · simp [State.relocate, Node.relocate]
    · exact unexpected_relocate _ ⟨token, p⟩

theorem step_relocate (state : State) (t : PlacedToken) :
    step (state.relocate f) (t.relocate f) = moved f (State.relocate f) (step state t) := by
  have hclose : ∀ holder : Holder, stepClosed ((holder.relocate f).close []) (t.relocate f) =
      moved f (State.relocate f) (stepClosed (holder.close []) t) := by
    intro holder
    rw [← stepClosed_relocate, Holder.relocate_close]
    rfl
  obtain ⟨token, p⟩ := t
  cases state with
  | commands sequence =>
    cases token with
    | identifier name => rfl
    | punct c =>
      cases c with
      | closeBrace =>
        cases sequence with
        | top => rfl
        | block => simp [step, State.relocate, Sequence.relocate, PlacedToken.relocate, Node.relocate,
            Node.relocateAll]
      | _ => rfl
    | _ => rfl
  | arguments holder =>
    cases token with
    | quoted literal | multiline literal | number literal | tag name =>
      simp [step, State.relocate, PlacedToken.relocate, Node.relocate, Node.relocateAll]
    | identifier name =>
      simp only [step, State.relocate, PlacedToken.relocate, Holder.depth_relocate]
      exact nested_relocate (holder.depth + 1) p (.arguments (.test holder name p []))
    | punct c =>
      cases c with
      | openBracket => rfl
      | openParen =>
        simp only [step, State.relocate, PlacedToken.relocate, Holder.depth_relocate]
        exact nested_relocate (holder.depth + 1) p (.test holder [])
      | _ => exact hclose holder
    | comment _ | blockComment _ => exact hclose holder
  | full holder => exact hclose holder
  | test within tests => cases token <;> rfl
  | string holder strings =>
    cases token with
    | quoted literal | multiline literal =>
      simp [step, State.relocate, PlacedToken.relocate, Node.relocate, Node.relocateAll,
        Node.relocateAll_append]
    | _ => rfl
  | stringEnd holder strings =>
    cases token with
    | punct c =>
      cases c with
      | closeBracket =>
        simp [step, State.relocate, PlacedToken.relocate, Node.relocate, Node.relocateAll]
      | _ => rfl
    | _ => rfl

theorem run_relocate (state : State) (ts : List PlacedToken) :
    run (state.relocate f) (ts.map (PlacedToken.relocate f)) = moved f (State.relocate f) (run state ts) := by
  induction ts generalizing state with
  | nil => rfl
  | cons t ts ih =>
    simp only [List.map_cons, run, step_relocate]
    cases step state t with
    | error e => rfl
    | ok next => exact ih next

theorem finish_relocate (state : State) :
    finish (state.relocate f) = moved f (Node.relocate f) (finish state) := by
  have hclose : ∀ holder : Holder, (holder.relocate f).close [] = (holder.close []).relocate f :=
    fun holder => (Holder.relocate_close holder []).symm
  cases state with
  | commands sequence => cases sequence <;> rfl
  | arguments holder | full holder =>
    simp only [State.relocate, finish, hclose]
    cases holder.close [] <;> rfl
  | _ => rfl

end

end Parser

theorem parseTokens_relocate (f : Position → Position) (ts : List PlacedToken) :
    parseTokens (ts.map (PlacedToken.relocate f)) = moved f (Node.relocate f) (parseTokens ts) := by
  have hrun : Parser.run (.commands (.top [])) (ts.map (PlacedToken.relocate f)) =
      moved f (Parser.State.relocate f) (Parser.run (.commands (.top [])) ts) :=
    Parser.run_relocate (.commands (.top [])) ts
  simp only [parseTokens, hrun]
  cases Parser.run (.commands (.top [])) ts with
  | error e => rfl
  | ok state => exact Parser.finish_relocate state

/-! ## Scripts -/

mutual
def Test.relocate (f : Position → Position) : Test → Test
  | ⟨name, arguments, tests, p⟩ => ⟨name, arguments, relocate? f tests, f p⟩
def Test.relocate? (f : Position → Position) : Option (List Test) → Option (List Test)
  | none => none
  | some tests => some (relocateAll f tests)
def Test.relocateAll (f : Position → Position) : List Test → List Test
  | [] => []
  | t :: tests => t.relocate f :: relocateAll f tests
end

mutual
def Command.relocate (f : Position → Position) : Command → Command
  | ⟨name, arguments, tests, block, p⟩ =>
    ⟨name, arguments, Test.relocate? f tests, Script.relocateBlock f block, f p⟩
def Script.relocateBlock (f : Position → Position) : Option (List Command) → Option (List Command)
  | none => none
  | some commands => some (Script.relocate f commands)
def Script.relocate (f : Position → Position) : List Command → List Command
  | [] => []
  | c :: commands => c.relocate f :: Script.relocate f commands
end

section
variable {f : Position → Position}

theorem Test.relocateAll_eq_map (tests : List Test) : relocateAll f tests = tests.map (relocate f) := by
  induction tests with
  | nil => rfl
  | cons t tests ih => simp only [relocateAll, List.map_cons, ih]

theorem Script.relocate_eq_map (commands : List Command) :
    Script.relocate f commands = commands.map (Command.relocate f) := by
  induction commands with
  | nil => rfl
  | cons c commands ih => simp only [Script.relocate, List.map_cons, ih]

end

/-! ## Readings -/

namespace Reading

def relocate (f : Position → Position) : Reading → Reading
  | commands cs => commands (Script.relocate f cs)
  | command c => command (c.relocate f)
  | block cs => block (Script.relocate f cs)
  | arguments positional tests => arguments positional (Test.relocate? f tests)
  | argument a => argument a
  | test t => test (t.relocate f)
  | testList ts => testList (Test.relocateAll f ts)
  | strings items => strings items
  | number value => number value
  | tag name => tag name

section
variable {f : Position → Position}

@[simp] theorem kind_relocate (r : Reading) : (r.relocate f).kind = r.kind := by
  cases r <;> rfl

def relocateResults (f : Position → Position) (rs : Results) : Results :=
  rs.map (moved f (relocate f))

theorem collect_relocate {parent : NodeKind} {pick : Reading → Option α} {g : α → α}
    (hpick : ∀ r : Reading, pick (r.relocate f) = (pick r).map g) (rs : Results) :
    collect parent pick (relocateResults f rs) = moved f (List.map g) (collect parent pick rs) := by
  induction rs with
  | nil => rfl
  | cons r rs ih =>
    simp only [relocateResults, List.map_cons, collect] at ih ⊢
    apply moved_bind
    intro r
    rw [hpick, ih]
    cases pick r with
    | none => simp
    | some a => exact moved_bind fun as => rfl

def CommandParts.relocate (f : Position → Position) (parts : CommandParts) : CommandParts :=
  ⟨parts.arguments.map (Prod.map id (Test.relocate? f)), parts.block.map (Script.relocate f)⟩

theorem collectCommand_relocate (name : String) (p : Position) (parts : CommandParts) (rs : Results) :
    collectCommand name (f p) (parts.relocate f) (relocateResults f rs) =
      moved f (CommandParts.relocate f) (collectCommand name p parts rs) := by
  induction rs generalizing parts with
  | nil => rfl
  | cons r rs ih =>
    simp only [relocateResults, List.map_cons, collectCommand] at ih ⊢
    apply moved_bind
    intro r
    cases r with
    | arguments positional tests =>
      obtain ⟨arguments, block⟩ := parts
      cases arguments with
      | none => exact ih ⟨some (positional, tests), block⟩
      | some _ => rfl
    | block body =>
      obtain ⟨arguments, block⟩ := parts
      cases block with
      | none => exact ih ⟨arguments, some body⟩
      | some _ => rfl
    | _ => rfl

theorem collectTest_relocate (name : String) (p : Position)
    (known : Option (List Argument × Option (List Test))) (rs : Results) :
    collectTest name (f p) (known.map (Prod.map id (Test.relocate? f))) (relocateResults f rs) =
      moved f (Option.map (Prod.map id (Test.relocate? f))) (collectTest name p known rs) := by
  induction rs generalizing known with
  | nil => rfl
  | cons r rs ih =>
    simp only [relocateResults, List.map_cons, collectTest] at ih ⊢
    apply moved_bind
    intro r
    cases r with
    | arguments positional tests =>
      cases known with
      | none => exact ih (some (positional, tests))
      | some _ => rfl
    | _ => rfl

theorem collectArguments_relocate (positional : List Argument) (tests : Option (List Test)) (rs : Results) :
    collectArguments positional (Test.relocate? f tests) (relocateResults f rs) =
      moved f (Prod.map id (Test.relocate? f)) (collectArguments positional tests rs) := by
  induction rs generalizing positional tests with
  | nil => rfl
  | cons r rs ih =>
    simp only [relocateResults, List.map_cons, collectArguments] at ih ⊢
    apply moved_bind
    intro r
    cases r with
    | argument a => exact ih (positional ++ [a]) tests
    | test t =>
      cases tests with
      | none => exact ih positional (some [t])
      | some _ => rfl
    | testList ts =>
      cases tests with
      | none => exact ih positional (some ts)
      | some _ => rfl
    | _ => rfl

theorem collectArgument_relocate (strings : Option (List String)) (single : Option Argument) (rs : Results) :
    collectArgument strings single (relocateResults f rs) = moved f id (collectArgument strings single rs) := by
  induction rs generalizing strings single with
  | nil => rfl
  | cons r rs ih =>
    simp only [relocateResults, List.map_cons, collectArgument] at ih ⊢
    apply moved_bind
    intro r
    cases r with
    | strings items => exact ih _ _
    | number value => exact ih _ _
    | tag name => exact ih _ _
    | _ => rfl

theorem ofArgument_relocate (rs : Results) :
    ofArgument (relocateResults f rs) = moved f (relocate f) (ofArgument rs) := by
  simp only [ofArgument, collectArgument_relocate]
  apply moved_bind
  rintro ⟨strings, single⟩
  simp only [id, relocateResults, List.length_map]
  cases strings with
  | some _ => cases single <;> rfl
  | none =>
    cases single with
    | none => rfl
    | some a =>
      by_cases hone : rs.length = 1
      · simp [hone, relocate]
      · simp [hone]

theorem ofCommand_relocate (name : String) (p : Position) (rs : Results) :
    ofCommand name (f p) (relocateResults f rs) = moved f (relocate f) (ofCommand name p rs) := by
  have hcollect := collectCommand_relocate (f := f) name p {} rs
  simp only [ofCommand]
  rw [show ({} : CommandParts) = CommandParts.relocate f {} from rfl, hcollect]
  apply moved_bind
  rintro ⟨arguments, block⟩
  cases arguments <;> cases block <;> rfl

theorem ofTest_relocate (name : String) (p : Position) (rs : Results) :
    ofTest name (f p) (relocateResults f rs) = moved f (relocate f) (ofTest name p rs) := by
  have hcollect := collectTest_relocate (f := f) name p none rs
  simp only [Option.map_none] at hcollect
  simp only [ofTest, hcollect]
  apply moved_bind
  intro known
  cases known <;> rfl

theorem ofArguments_relocate (rs : Results) :
    ofArguments (relocateResults f rs) = moved f (relocate f) (ofArguments rs) := by
  have hcollect := collectArguments_relocate (f := f) [] none rs
  simp only [Test.relocate?] at hcollect
  simp only [ofArguments, hcollect]
  apply moved_bind
  rintro ⟨positional, tests⟩
  rfl

theorem ofBlock_relocate (rs : Results) :
    ofBlock (relocateResults f rs) = moved f (relocate f) (ofBlock rs) := by
  match rs with
  | [] => rfl
  | [r] =>
    simp only [relocateResults, List.map_cons, List.map_nil, ofBlock]
    apply moved_bind
    intro r
    cases r <;> rfl
  | _ :: _ :: _ => rfl

theorem ofStringList_relocate (rs : Results) :
    ofStringList (relocateResults f rs) = moved f (relocate f) (ofStringList rs) := by
  have hpick : ∀ r : Reading, strings? (r.relocate f) = (strings? r).map id := by
    intro r
    cases r <;> rfl
  simp only [ofStringList, collect_relocate hpick]
  apply moved_bind
  intro items
  rw [List.map_id]
  rfl

theorem ofLiteral_relocate {make : α → Reading} (hmake : ∀ a, (make a).relocate f = make a)
    (x : Except LiteralFault α) : ofLiteral make x = moved f (relocate f) (ofLiteral make x) := by
  cases x with
  | error fault => rfl
  | ok a => simp [ofLiteral, hmake]

mutual
theorem ofNode_relocate : ∀ n : Node, ofNode (n.relocate f) = moved f (relocate f) (ofNode n)
  | .start _ => rfl
  | .commands children => by
    have hpick : ∀ r : Reading, command? (r.relocate f) = (command? r).map (Command.relocate f) := by
      intro r
      cases r <;> rfl
    simp only [Node.relocate, ofNode, ofNodes_relocate children, collect_relocate hpick]
    apply moved_bind
    intro commands
    rw [← Script.relocate_eq_map]
    rfl
  | .command name p children => by
    rw [Node.relocate, ofNode, ofNode, ofNodes_relocate children, ofCommand_relocate]
  | .block children => by
    rw [Node.relocate, ofNode, ofNode, ofNodes_relocate children, ofBlock_relocate]
  | .arguments children => by
    rw [Node.relocate, ofNode, ofNode, ofNodes_relocate children, ofArguments_relocate]
  | .argument children => by
    rw [Node.relocate, ofNode, ofNode, ofNodes_relocate children, ofArgument_relocate]
  | .test name p children => by
    rw [Node.relocate, ofNode, ofNode, ofNodes_relocate children, ofTest_relocate]
  | .testList children => by
    have hpick : ∀ r : Reading, test? (r.relocate f) = (test? r).map (Test.relocate f) := by
      intro r
      cases r <;> rfl
    simp only [Node.relocate, ofNode, ofNodes_relocate children, collect_relocate hpick]
    apply moved_bind
    intro tests
    rw [← Test.relocateAll_eq_map]
    rfl
  | .stringList children => by
    rw [Node.relocate, ofNode, ofNode, ofNodes_relocate children, ofStringList_relocate]
  | .string literal => ofLiteral_relocate (fun _ => rfl) _
  | .number literal => ofLiteral_relocate (fun _ => rfl) _
  | .tag name => rfl

theorem ofNodes_relocate : ∀ ns : List Node,
    ofNodes (Node.relocateAll f ns) = relocateResults f (ofNodes ns)
  | [] => rfl
  | n :: ns => by
    rw [Node.relocateAll, ofNodes, ofNodes, ofNode_relocate n, ofNodes_relocate ns]
    rfl
end

end

end Reading

/-! ## Compiling -/

namespace Script

theorem ofTree_relocate (f : Position → Position) (n : Node) :
    ofTree (n.relocate f) = moved f (Script.relocate f) (ofTree n) := by
  cases n with
  | start children =>
    match children with
    | [] => rfl
    | [child] =>
      simp only [Node.relocate, Node.relocateAll, ofTree, Reading.ofNode_relocate]
      apply moved_bind
      intro r
      cases r <;> rfl
    | _ :: _ :: rest => simp [Node.relocate, Node.relocateAll, ofTree, Node.length_relocateAll]
  | _ => rfl

theorem ofTokens_relocate (f : Position → Position) (ts : List PlacedToken) :
    ofTokens (ts.map (PlacedToken.relocate f)) = moved f (Script.relocate f) (ofTokens ts) := by
  simp only [ofTokens, parseTokens_relocate]
  apply moved_bind
  intro tree
  exact ofTree_relocate f tree

end Script

end MailSieve

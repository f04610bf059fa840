import MailSieve.CommandLine.Session
import MailSieve.Proofs.Printing
import MailSieve.Proofs.Provenance

/-!
# Printed outcomes

The actions of a run are printed as commands. Read as a script of the standard
environment, these do the same again, to any message: quoting is undone, and an action
that could join those before it in the first run can do so in the second.
-/

namespace MailSieve

/-! ## Actions as commands -/

theorem CommandKind.isIdentifier_id (kind : CommandKind) : Text.isIdentifier kind.id.toList = true := by
  cases kind <;> decide

namespace Action

def kind : Action → CommandKind
  | keep => .keep
  | discard => .discard
  | fileInto _ => .fileInto
  | redirect _ => .redirect
  | reject _ => .reject

def operands : Action → List String
  | keep | discard => []
  | fileInto s | redirect s | reject s => [s]

def command (a : Action) (p : Position) : Command :=
  ⟨a.kind.id, a.operands.map fun s => .strings [s], none, none, p⟩

theorem writable_command (a : Action) (p : Position) : (a.command p).Writable := by
  refine .command a.kind.isIdentifier_id (fun b hb => ?_) .none .none
  obtain ⟨s, -, rfl⟩ := List.mem_map.1 hb
  exact .strings nofun

theorem nesting_command (a : Action) (p : Position) : (a.command p).nesting = 0 := rfl

theorem unplaced_command (a : Action) (p : Position) : (a.command p).unplaced = a.command .unknown := rfl

theorem eq_command_of_unplaced {a : Action} {c : Command} (h : c.unplaced = a.command .unknown) :
    c = a.command c.position := by
  obtain ⟨name, arguments, tests, block, p⟩ := c
  obtain ⟨rfl, rfl, htests, hblock, -⟩ := Command.mk.inj h
  cases tests with
  | some tests => cases htests
  | none =>
    cases block with
    | some commands => cases hblock
    | none => rfl

end Action

/-! ## Reading the printed actions -/

theorem lexes_semicolon {rest : List Char} {tokens : List Token} (h : Lexes rest tokens) :
    Lexes (';' :: '\n' :: rest) (.punct .semicolon :: tokens) :=
  .lexeme (Lexeme.whole_punct .semicolon) (.cons rfl (by decide) _) (.layout rfl h)

theorem lexes_operands {rest : List Char} {tokens : List Token} (h : Lexes rest tokens) (hrest : Apart rest) :
    ∀ items : List String, Lexes (items.flatMap (fun s => ' ' :: (Action.quote s).toList) ++ rest)
        (items.map (fun s => (Lexeme.string s).token) ++ tokens) ∧
      Apart (items.flatMap (fun s => ' ' :: (Action.quote s).toList) ++ rest)
  | [] => ⟨h, hrest⟩
  | s :: items => by
    obtain ⟨hitems, hapart⟩ := lexes_operands h hrest items
    have hstring := hitems.lexeme (Lexeme.whole_string s) hapart
    -- spelled out, since unification would open the string
    rw [Lexeme.chars_string] at hstring
    rw [List.flatMap_cons, List.append_assoc, List.cons_append]
    exact ⟨.layout rfl hstring, .cons rfl (by decide) _⟩

namespace Action

theorem toList_render (a : Action) : a.render.toList =
    a.kind.id.toList ++ (a.operands.flatMap (fun s => ' ' :: (quote s).toList) ++ [';']) := by
  cases a <;> simp [render, kind, operands, CommandKind.id]

theorem lexes_render (a : Action) {rest : List Char} {tokens : List Token} (h : Lexes rest tokens) :
    Lexes (a.render.toList ++ '\n' :: rest) (((a.command .unknown).lexemes true).map Lexeme.token ++ tokens) := by
  have hsemicolon : Lexes (';' :: '\n' :: rest) (.punct .semicolon :: tokens) := lexes_semicolon h
  obtain ⟨hoperands, hapart⟩ := lexes_operands hsemicolon (.cons rfl (by decide) _) a.operands
  have htokens : ((a.command .unknown).lexemes true).map Lexeme.token ++ tokens =
      (Lexeme.identifier a.kind.id).token ::
        (a.operands.map (fun s => (Lexeme.string s).token) ++ .punct .semicolon :: tokens) := by
    cases a <;> rfl
  rw [toList_render, List.append_assoc, List.append_assoc, htokens]
  exact .lexeme (Lexeme.whole_identifier a.kind.isIdentifier_id) hapart hoperands

end Action

inductive Replays : List Command → List Action → Prop
  | nil : Replays [] []
  | cons {a p commands actions} (h : Replays commands actions) : Replays (a.command p :: commands) (a :: actions)

theorem replays_of_unplaced : ∀ {commands : List Command} {actions : List Action},
    Script.unplaced commands = actions.map (·.command .unknown) → Replays commands actions
  | [], [], _ => .nil
  | c :: commands, a :: actions, h => by
    obtain ⟨hc, hcs⟩ := List.cons.inj h
    rw [Action.eq_command_of_unplaced hc]
    exact .cons (replays_of_unplaced hcs)

theorem lexes_actions : ∀ actions : List Action,
    Lexes (actions.flatMap fun a => a.render.toList ++ ['\n'])
      ((Script.lexemes true (actions.map (·.command .unknown))).map Lexeme.token)
  | [] => .nil
  | a :: actions => by
    rw [List.flatMap_cons, List.append_assoc, List.map_cons, Script.lexemes, List.map_append]
    exact a.lexes_render (lexes_actions actions)

theorem writable_actions : ∀ actions : List Action, Script.Writable (actions.map (·.command .unknown))
  | [] => .nil
  | a :: actions => .cons (a.writable_command _) (writable_actions actions)

theorem nesting_actions : ∀ actions : List Action, Script.nesting (actions.map (·.command .unknown)) = 0
  | [] => rfl
  | a :: actions => by rw [List.map_cons, Script.nesting, Action.nesting_command, nesting_actions actions]; rfl

theorem unplaced_actions : ∀ actions : List Action,
    Script.unplaced (actions.map (·.command .unknown)) = actions.map (·.command .unknown)
  | [] => rfl
  | a :: actions => by rw [List.map_cons, Script.unplaced, Action.unplaced_command, unplaced_actions actions]

open CommandLine

theorem toList_outcomeText {actions : List Action} (h : actions ≠ []) :
    (outcomeText actions).toList = actions.flatMap fun a => a.render.toList ++ ['\n'] := by
  simp [outcomeText, h, String.toList_join, List.flatMap_map]

/-- The printed outcome compiles to commands for the actions that are carried out. -/
theorem compile_outcomeText (actions : List Action) :
    ∃ commands, Script.compile (outcomeText actions) = .ok commands ∧ Replays commands (delivered actions) := by
  by_cases hempty : actions = []
  · subst hempty
    have hkeep : Script.compile (outcomeText []) = .ok [Action.keep.command ⟨1, 1⟩] := by cbv
    exact ⟨_, hkeep, .cons .nil⟩
  · have hlex := lexes_actions actions
    rw [← toList_outcomeText hempty] at hlex
    have hn : Script.nesting (actions.map (·.command .unknown)) ≤ Parser.maxNesting := by
      rw [nesting_actions]
      exact Nat.zero_le _
    obtain ⟨commands, hcompile, heq⟩ := Script.compile_of_lexes (writable_actions actions) hn hlex
    rw [unplaced_actions] at heq
    refine ⟨commands, hcompile, ?_⟩
    rw [delivered, if_neg (by simpa using hempty)]
    exact replays_of_unplaced heq

/-! ## Running the printed actions -/

theorem Joined.joins {actions before rest : List Action} {a : Action} (h : Joined actions)
    (heq : actions = before ++ a :: rest) : a.Joins before := by
  induction h generalizing rest with
  | nil => cases before <;> cases heq
  | @snoc actions a' h hj ih =>
    rcases List.eq_nil_or_concat rest with rfl | ⟨rest, last, rfl⟩
    · obtain ⟨rfl, hlast⟩ := List.append_inj' heq rfl
      cases hlast
      exact hj
    · rw [List.concat_eq_append, ← List.cons_append, ← List.append_assoc] at heq
      exact ih (List.append_inj' heq rfl).1

theorem Action.check_command {a : Action} {before : List Action} (h : a.Joins before) (p : Position) :
    a.kind.check (a.command p) = .ok () := by
  cases a with
  | redirect address =>
    refine verdict_eq_ok.2 ⟨address, bind_eq_ok.2 ⟨address, rfl, ?_⟩⟩
    rw [h.addressed address rfl]
    rfl
  | _ => rfl

theorem Exec.addAction_of_joins {a : Action} {ctx : Context} (h : a.Joins ctx.actions) :
    Exec.addAction a ctx = ⟨{ ctx with actions := ctx.actions ++ [a] }, [], .ok ()⟩ := by
  have hadd : ctx.addAction a = .ok { ctx with actions := ctx.actions ++ [a] } := by
    rw [Context.addAction, if_neg]
    rintro ⟨hne, hreject⟩
    obtain ⟨ha, hbefore⟩ := h.alone.resolve_left hne
    rcases hreject with hreject | hreject
    · rw [ha] at hreject
      cases hreject
    · obtain ⟨b, hb, hreject⟩ := List.any_eq_true.1 hreject
      rw [hbefore b hb] at hreject
      cases hreject
  rw [Exec.addAction, hadd]

namespace Environment

theorem standard_checkEnabled (en : List String) (kind : EntryKind) (name : String) (ext : Bool) :
    standard.checkEnabled en kind name ext = .ok () := by
  simp [checkEnabled, standard]

theorem runSimple_command (env : Environment) {a : Action} {ctx : Context} (h : a.Joins ctx.actions)
    (p : Position) :
    env.runSimple a.kind (a.command p) ctx = ⟨{ ctx with actions := ctx.actions ++ [a] }, [], .ok .next⟩ := by
  have hadd := Exec.addAction_of_joins h
  have hadded : (Exec.addAction a >>= fun _ => pure Flow.next) ctx =
      ⟨{ ctx with actions := ctx.actions ++ [a] }, [], .ok .next⟩ := by
    rw [Exec.bind_apply, hadd]
    rfl
  cases a with
  | fileInto mailbox =>
    have hnew : ctx.isFiled mailbox = false := by
      simpa [Context.isFiled] using h.once mailbox rfl
    have hfile : fileInto mailbox ctx = Exec.addAction (.fileInto mailbox) ctx := by
      simp [fileInto, hnew]
    show (fileInto mailbox >>= fun _ => pure Flow.next) ctx = _
    rw [Exec.bind_apply, hfile, ← Exec.bind_apply]
    exact hadded
  | _ => exact hadded

theorem runCommand_command {a : Action} {ctx : Context} (h : a.Joins ctx.actions) (p : Position) (mail : Mail) :
    standard.runCommand mail (a.command p) ctx =
      ⟨{ ctx.enterCommand with actions := ctx.actions ++ [a] }, [], .ok .next⟩ := by
  have hperform : standard.perform mail a.kind (a.command p) = standard.runSimple a.kind (a.command p) := by
    cases a <;> rfl
  have hjoins : a.Joins ctx.enterCommand.actions := h
  rw [runCommand_of_checked (standard_commands_lookup a.kind) (Action.check_command h p)
    (standard_checkEnabled _ _ _ _), hperform]
  simp only [Exec.locate, runSimple_command standard hjoins]
  rfl

/-- Every action is added again. -/
theorem runCommands_replays {commands : List Command} {actions : List Action} (h : Replays commands actions)
    (mail : Mail) : ∀ ctx : Context, Joined (ctx.actions ++ actions) →
      (standard.runCommands mail commands ctx).context.actions = ctx.actions ++ actions ∧
        (standard.runCommands mail commands ctx).result = .ok .next := by
  induction h with
  | nil => exact fun ctx _ => ⟨(List.append_nil _).symm, rfl⟩
  | @cons a p commands actions h ih =>
    intro ctx hj
    rw [runCommands_cons, Exec.bind_apply, runCommand_command (hj.joins rfl)]
    have hrest := ih { ctx.enterCommand with actions := ctx.actions ++ [a] } (by
      rw [List.append_assoc, List.singleton_append]
      exact hj)
    simp only [List.append_assoc, List.singleton_append] at hrest
    exact hrest

theorem id_ne_requireName (a : Action) : a.kind.id ≠ requireName := by
  cases a <;> simp [Action.kind, CommandKind.id, requireName]

theorem place_check_command (place : Place) (a : Action) : place.check a.kind.id = .ok () := by
  refine Place.check_eq_ok.2 ⟨fun h => absurd h (id_ne_requireName a), fun h => ?_⟩
  cases a <;> simp [Action.kind, CommandKind.id] at h

theorem validateCommand_command {a : Action} {before : List Action} (h : a.Joins before) (en : List String)
    (p : Position) : standard.validateCommand en (a.command p) = .ok en := by
  have haccepts : AcceptsCommand standard en (a.command p) a.kind :=
    ⟨standard_commands_lookup a.kind, Action.check_command h p, standard_checkEnabled _ _ _ _⟩
  have hname : (a.command p).name ≠ requireName := id_ne_requireName a
  have hrequires : Requires standard en (a.command p) en := by rw [Requires, if_neg hname]
  exact validateCommand_eq_ok.2 ⟨a.kind, en, haccepts, hrequires, rfl, rfl⟩

theorem validateSequence_replays {commands : List Command} {actions : List Action} (h : Replays commands actions)
    (hj : ∀ a ∈ actions, ∃ before, a.Joins before) : ∀ place,
      standard.validateSequence [] place commands = .ok [] := by
  induction h with
  | nil => exact fun _ => rfl
  | @cons a p commands actions h ih =>
    intro place
    obtain ⟨⟨before, ha⟩, has⟩ := List.forall_mem_cons.1 hj
    exact validateSequence_cons_eq_ok.2
      ⟨place_check_command place a, [], validateCommand_command ha [] p, ih has _⟩

theorem validate_replays {commands : List Command} {actions : List Action} (h : Replays commands actions)
    (hj : Joined actions) : standard.validate commands = .ok () := by
  refine verdict_eq_ok.2 ⟨[], validateSequence_replays h (fun a ha => ?_) _⟩
  obtain ⟨before, rest, heq⟩ := List.append_of_mem ha
  exact ⟨before, hj.joins heq⟩

theorem execute_replays {commands : List Command} {actions : List Action} (h : Replays commands actions)
    (hj : Joined actions) (mail : Mail) :
    (standard.execute commands mail).actions = actions ∧ (standard.execute commands mail).result = .ok .next := by
  rw [execute, validate_replays h hj]
  exact runCommands_replays h mail {} hj

end Environment

theorem Joined.delivered {actions : List Action} (h : Joined actions) : Joined (delivered actions) := by
  unfold MailSieve.delivered
  split
  · exact Joined.nil.snoc ⟨.inl rfl, fun _ h => (nomatch h), fun _ h => (nomatch h)⟩
  · exact h

/-- What a run prints is a script: it succeeds without stopping, whatever the message,
and leaves the actions that are carried out after the run. -/
theorem Environment.interpret_outcomeText (env : Environment) (script : Script) (mail mail' : Mail) :
    let run := env.execute script mail
    let replay := standard.interpret (outcomeText run.actions) mail'
    replay.actions = delivered run.actions ∧ replay.result = .ok .next := by
  intro run replay
  have hjoined : Joined run.actions := (env.execute_gathers script mail).joined .nil
  obtain ⟨commands, hcompile, hreplays⟩ := compile_outcomeText run.actions
  have hreplay : replay = standard.execute commands mail' := by
    simp only [replay, interpret, hcompile]
  rw [hreplay]
  exact execute_replays hreplays hjoined.delivered mail'

end MailSieve

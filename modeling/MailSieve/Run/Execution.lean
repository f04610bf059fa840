import MailSieve.Check.Validation
import MailSieve.Run.Evaluation
import MailSieve.Script.OfTree

/-!
# Running scripts

Commands run one after the other over a context. A chain of conditionals is
carried by the context's branch state: each conditional reads what the command
before it has told and tells the next one whether a branch has been taken.
-/

namespace MailSieve

namespace Environment

def enableAll (env : Environment) : List String → Exec Unit
  | [] => pure ()
  | name :: names => do
    if env.isAvailable name then
      Exec.modify (·.enable name)
      env.enableAll names
    else Exec.ofExcept (.error (.lookup .extension name .notRegistered))

def fileInto (destination : String) : Exec Unit := do
  if (← Exec.get).isFiled destination then pure ()
  else Exec.addAction (.fileInto destination)

def runSimple (env : Environment) (kind : CommandKind) (c : Command) : Exec Flow := do
  match kind with
  | .keep => Exec.addAction .keep
  | .discard => Exec.addAction .discard
  | .redirect => Exec.addAction (.redirect (← Exec.ofExcept (liftShape (c.operand "address"))))
  | .fileInto => fileInto (← Exec.ofExcept (liftShape (c.operand "mailbox")))
  | .reject => Exec.addAction (.reject (← Exec.ofExcept (liftShape (c.operand "message"))))
  | .require => env.enableAll (← Exec.ofExcept (liftShape c.requirements))
  | .stop | .ifThen | .elseIf | .otherwise => pure ()
  return if kind = .stop then .stop else .next

def testOf (env : Environment) (mail : Mail) (c : Command) : Exec Bool := do
  let (test, _) ← Exec.ofExcept (liftShape c.conditional)
  let ctx ← Exec.get
  Exec.ofTraced (env.evaluate ctx.enabled mail test)

def danglingBranch (name : String) : Exec α :=
  Exec.ofExcept (.error (Fault.placement (.danglingBranch name)).error)

/-- Whether a conditional's own block runs. Otherwise the chain is left in the
state that is returned. -/
inductive Decision
  | run
  | skip (branch : Branch)

def choose (env : Environment) (mail : Mail) (kind : CommandKind) (c : Command) :
    Exec Decision := do
  match kind, (← Exec.get).preceding with
  | .ifThen, _ | .elseIf, .pending =>
    return if ← env.testOf mail c then .run else .skip .pending
  | .elseIf, .taken => return .skip .taken
  | .elseIf, .none => danglingBranch "elsif"
  | .otherwise, .pending => return .run
  | .otherwise, .taken => return .skip .none
  | .otherwise, .none => danglingBranch "else"
  | _, _ => return .skip .none

mutual
def runCommand (env : Environment) (mail : Mail) : Command → Exec Flow
  | ⟨name, arguments, tests, block, position⟩ =>
    let c : Command := ⟨name, arguments, tests, block, position⟩
    Exec.locate (do
      Exec.modify Context.enterCommand
      let kind ← Exec.ofExcept (env.commands.lookup name)
      Exec.ofExcept (liftShape (kind.check c))
      let ctx ← Exec.get
      Exec.ofExcept (env.checkEnabled ctx.enabled .command name kind.isExtension)
      match kind with
      | .ifThen | .elseIf | .otherwise =>
        match ← env.choose mail kind c with
        | .skip branch =>
          Exec.modify ({ · with branch })
          return .next
        | .run =>
          let flow ← Exec.block (env.runBlock? mail block)
          if kind ≠ .otherwise then Exec.modify ({ · with branch := .taken })
          return flow
      | kind => env.runSimple kind c) position
def runBlock? (env : Environment) (mail : Mail) : Option (List Command) → Exec Flow
  | none => return .next
  | some commands => env.runCommands mail commands
def runCommands (env : Environment) (mail : Mail) : List Command → Exec Flow
  | [] => return .next
  | c :: cs => do
    match ← env.runCommand mail c with
    | .stop => return .stop
    | .next => env.runCommands mail cs
end

end Environment

structure Execution where
  actions : List Action
  reached : List Test
  result : Except Error Flow

namespace Environment

/-- Checks a script and runs it against a message. A script that does not pass
the checks collects no actions. -/
def execute (env : Environment) (script : Script) (mail : Mail) : Execution :=
  match env.validate script with
  | .error e => ⟨[], [], .error e⟩
  | .ok () =>
    let r := env.runCommands mail script {}
    ⟨r.context.actions, r.reached, r.result⟩

def compile (env : Environment) (text : String) : Except Error Script := do
  let script ← Script.compile text
  env.validate script
  return script

def interpret (env : Environment) (text : String) (mail : Mail) : Execution :=
  match Script.compile text with
  | .error e => ⟨[], [], .error e⟩
  | .ok script => env.execute script mail

end Environment

end MailSieve

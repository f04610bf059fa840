import MailSieve.Action.Delivery
import MailSieve.Action.Json
import MailSieve.CommandLine.Files
import MailSieve.CommandLine.Options
import MailSieve.Mail.Message
import MailSieve.Registry.Settings
import MailSieve.Run.Execution

/-!
# A session of the command line

A session asks for the contents of files and ends with a report. Reading files
and printing are left to whoever drives it.
-/

namespace MailSieve.CommandLine

inductive Source
  | file (path : String)
  | defaultSettings
  | standardInput

structure Report where
  exitCode : Nat
  output : String
  errors : Option String

inductive Session
  | read (source : Source) (next : Except FileError (List UInt8) → Session)
  | done (report : Report)

/-! ## Reports -/

def indentLines (indent : String) (text : String) : String :=
  String.ofList (text.toList.flatMap fun c => if c = '\n' then c :: indent.toList else [c])

def alignNumber (n : Nat) : String :=
  let digits := toString n
  String.ofList (List.replicate (5 - digits.length) ' ') ++ digits

def numberedCauses (n : Nat) : List String → String
  | [] => ""
  | cause :: causes =>
    "\n" ++ alignNumber n ++ ": " ++ indentLines "       " cause ++ numberedCauses (n + 1) causes

def causesText : List String → String
  | [] => ""
  | [cause] => "\n\nCaused by:\n    " ++ indentLines "    " cause
  | causes => "\n\nCaused by:" ++ numberedCauses 0 causes

/-- The report of what was being done and the causes of its failure, the nearest
first. -/
def failed (context : String) (causes : List String) : Session :=
  .done ⟨1, "", some ("Error: " ++ context ++ causesText causes ++ "\n")⟩

def printed (output : String) : Session :=
  .done ⟨0, output, none⟩

/-! ## Causes -/

def settingsCauses (e : SettingsError) : List String :=
  match e with
  | .unreadable reason => [e.message, reason]
  | _ => [e.message]

def mailCauses (e : MailError) : List String :=
  match e with
  | .io text => [e.message, text]
  | _ => [e.message]

def errorCauses (e : Error) : List String :=
  match e with
  | .mail m => e.message :: mailCauses m
  | _ => [e.message]

/-! ## The steps -/

def decodeText (r : Except FileError (List UInt8)) : Except FileError String :=
  match r with
  | .error e => .error e
  | .ok bytes =>
    match String.fromUTF8? ⟨bytes.toArray⟩ with
    | some text => .ok text
    | none => .error (.other "stream did not contain valid UTF-8")

def loadSettings (r : Except FileError (List UInt8)) : Except SettingsError Settings :=
  match decodeText r with
  | .ok text => Settings.load text
  | .error e => .error (.unreadable e.message)

def outcomeJson (actions : List Action) (flow : Flow) : Json :=
  .record [("actions", .array (actions.map Action.toJson)), ("stopped", .bool (flow = .stop))]

def outcomeText (actions : List Action) : String :=
  if actions.isEmpty then "keep;  # implicit\n"
  else String.join (actions.map fun a => a.render ++ "\n")

def runMessage (o : Options) (env : Environment) (script : Script) (message : Message) : Session :=
  let message := match o.envelopeFrom with
    | some sender => message.addEnvelope "from" sender
    | none => message
  let message := o.envelopeTo.foldl (·.addEnvelope "to" ·) message
  let mail := message.toMail
  let execution := env.execute script mail
  match execution.result with
  | .error e => failed "running script" (e.message :: errorCauses e)
  | .ok flow =>
    match (deliver mail execution.actions).2 with
    | .error e => failed "applying actions" (mailCauses e)
    | .ok () =>
      if o.json then printed ((outcomeJson execution.actions flow).pretty ++ "\n")
      else printed (outcomeText execution.actions)

def readMessage (o : Options) (env : Environment) (script : Script) : Session :=
  match o.message with
  | none => failed "a message is required unless --check is given" []
  | some path =>
    .read (if path = "-" then .standardInput else .file path) fun
      | .error e => failed ("reading message " ++ path) [e.message]
      | .ok bytes =>
        match Message.ofBytes bytes with
        | .error e => failed ("parsing message " ++ path) (mailCauses e)
        | .ok message => runMessage o env script message

def readScript (o : Options) (env : Environment) : Session :=
  .read (.file o.script) fun r =>
    match decodeText r with
    | .error e => failed ("reading script " ++ o.script) [e.message]
    | .ok text =>
      match env.compile text with
      | .error e => failed ("compiling " ++ o.script) (errorCauses e)
      | .ok script =>
        if o.check then printed (o.script ++ ": ok\n") else readMessage o env script

def useSettings (o : Options) (s : Settings) : Session :=
  match Environment.ofSettings s with
  | .error e => failed "building registries" (settingsCauses e)
  | .ok env => readScript o env

def readSettings (o : Options) : Session :=
  match o.config with
  | some path =>
    .read (.file path) fun r =>
      match loadSettings r with
      | .error e => failed ("loading registry configuration " ++ path) (settingsCauses e)
      | .ok s => useSettings o s
  | none =>
    .read .defaultSettings fun
      | .error .notFound => useSettings o .standard
      | r =>
        match loadSettings r with
        | .error e => failed "loading default registry configuration" (settingsCauses e)
        | .ok s => useSettings o s

def programName : String := "sievers-interp"

def usage : String :=
  "Usage: " ++ programName ++ " [OPTIONS] <SCRIPT> [MESSAGE]\n"

def Session.start (args : List String) : Session :=
  match Invocation.ofArguments args with
  | .run o => readSettings o
  | .version => printed (programName ++ " 0.1.0\n")
  | .help => printed usage
  | .misuse => .done ⟨2, "", some usage⟩

def Session.runIn (d : Directory) (settingsPath : String) (input : List UInt8) :
    Session → Report
  | .done report => report
  | .read (.file path) next => runIn d settingsPath input (next (d.read path))
  | .read .defaultSettings next => runIn d settingsPath input (next (d.read settingsPath))
  | .read .standardInput next => runIn d settingsPath input (next (.ok input))

end MailSieve.CommandLine

import MailSieve.Action
import MailSieve.Error

/-!
# The state of a run

A `Context` holds what commands leave behind. Computations over it are of type
`Exec`: when one fails, what it did before is kept. They also record which host
tests were evaluated.
-/

namespace MailSieve

inductive Flow
  | next
  | stop
deriving DecidableEq

inductive Branch
  /-- The command was no part of a chain. -/
  | none
  /-- No branch of the chain has been taken yet. -/
  | pending
  | taken
deriving DecidableEq

structure Context where
  actions : List Action := []
  enabled : List String := []
  /-- What the current command tells the next one. -/
  branch : Branch := .none
  /-- What the current command was told. -/
  preceding : Branch := .none
deriving DecidableEq

namespace Context

/-- Appends an action. A rejection can neither join nor be joined. -/
def addAction (ctx : Context) (a : Action) : Except CommandFault Context :=
  if ctx.actions ≠ [] ∧ (a.isReject ∨ ctx.actions.any Action.isReject) then
    .error .rejectNotAlone
  else .ok { ctx with actions := ctx.actions ++ [a] }

def isFiled (ctx : Context) (destination : String) : Bool :=
  ctx.actions.contains (.fileInto destination)

def enable (ctx : Context) (capability : String) : Context :=
  { ctx with enabled := ctx.enabled.insert capability }

def enterCommand (ctx : Context) : Context :=
  { ctx with branch := .none, preceding := ctx.branch }

def enterBlock (ctx : Context) : Context :=
  { ctx with branch := .none, preceding := .none }

def leaveBlock (ctx before : Context) : Context :=
  { ctx with branch := before.branch, preceding := before.preceding }

end Context

structure Traced (α : Type) where
  reached : List Test
  result : Except Error α

namespace Traced

def ofExcept (r : Except Error α) : Traced α := ⟨[], r⟩

protected def bind (x : Traced α) (f : α → Traced β) : Traced β :=
  match x.result with
  | .ok a => ⟨x.reached ++ (f a).reached, (f a).result⟩
  | .error e => ⟨x.reached, .error e⟩

instance : Monad Traced where
  pure a := ofExcept (.ok a)
  bind := Traced.bind

def locate (x : Traced α) (p : Position) : Traced α :=
  { x with result := x.result.mapError (·.locate p) }

end Traced

/-- What a computation leaves: the context, the host tests evaluated, and a value
or an error. -/
structure Run (α : Type) where
  context : Context
  reached : List Test
  result : Except Error α

def Exec (α : Type) : Type := Context → Run α

namespace Exec

def ofExcept (r : Except Error α) : Exec α := fun ctx => ⟨ctx, [], r⟩

def ofTraced (x : Traced α) : Exec α := fun ctx => ⟨ctx, x.reached, x.result⟩

protected def bind (x : Exec α) (f : α → Exec β) : Exec β := fun ctx =>
  match x ctx with
  | ⟨ctx', reached, .ok a⟩ =>
    let r := f a ctx'
    { r with reached := reached ++ r.reached }
  | ⟨ctx', reached, .error e⟩ => ⟨ctx', reached, .error e⟩

instance : Monad Exec where
  pure a := ofExcept (.ok a)
  bind := Exec.bind

def get : Exec Context := fun ctx => ⟨ctx, [], .ok ctx⟩

def modify (f : Context → Context) : Exec Unit := fun ctx => ⟨f ctx, [], .ok ()⟩

def locate (x : Exec α) (p : Position) : Exec α := fun ctx =>
  let r := x ctx
  { r with result := r.result.mapError (·.locate p) }

/-- Runs a block: whatever happens, the chain of the enclosing sequence is as it
was. -/
def block (x : Exec α) : Exec α := fun ctx =>
  let r := x ctx.enterBlock
  { r with context := r.context.leaveBlock ctx }

def addAction (a : Action) : Exec Unit := fun ctx =>
  match ctx.addAction a with
  | .ok ctx' => ⟨ctx', [], .ok ()⟩
  | .error fault => ⟨ctx, [], .error (.command fault none)⟩

end Exec

end MailSieve

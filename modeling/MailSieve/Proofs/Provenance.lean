import MailSieve.Proofs.Acceptance
import MailSieve.Proofs.Growth
import MailSieve.Proofs.Preorder
import MailSieve.Proofs.StandardNames

/-!
# Where actions come from

A command adds one action at most, the one it stands for, and only if that can
join the actions collected before. So a run goes through the actions of its
script in source order, takes some and leaves the others, whatever branches it
takes and wherever it ends.
-/

namespace MailSieve

def CommandKind.action? (kind : CommandKind) (c : Command) : Option Action :=
  match kind, c.arguments with
  | .keep, [] => some .keep
  | .discard, [] => some .discard
  | .redirect, [.strings [address]] => some (.redirect address)
  | .fileInto, [.strings [mailbox]] => some (.fileInto mailbox)
  | .reject, [.strings [message]] => some (.reject message)
  | _, _ => none

def Environment.action? (env : Environment) (c : Command) : Option Action :=
  (env.commands.get? c.name).bind (·.action? c)

def Environment.actions (env : Environment) (script : Script) : List Action :=
  (Script.preorder script).filterMap env.action?

/-! ## Taking actions -/

/-- The action can be added to those collected before: a rejection stays alone, no
mailbox is filed into twice, and nothing is redirected to a blank address. -/
structure Action.Joins (before : List Action) (a : Action) : Prop where
  alone : before = [] ∨ a.isReject = false ∧ ∀ b ∈ before, b.isReject = false
  once : ∀ mailbox, a = .fileInto mailbox → a ∉ before
  addressed : ∀ address, a = .redirect address → (Text.trim address.toList).isEmpty = false

/-- `before` becomes `after` by taking some of the actions on offer, in order. -/
inductive Gathers : List Action → List Action → List Action → Prop
  | done {before} : Gathers [] before before
  | leave {a offered before after} (h : Gathers offered before after) : Gathers (a :: offered) before after
  | take {a offered before after} (hj : a.Joins before) (h : Gathers offered (before ++ [a]) after) :
      Gathers (a :: offered) before after

inductive Joined : List Action → Prop
  | nil : Joined []
  | snoc {actions a} (h : Joined actions) (hj : a.Joins actions) : Joined (actions ++ [a])

namespace Gathers

theorem none : ∀ (offered before : List Action), Gathers offered before before
  | [], _ => .done
  | _ :: offered, before => .leave (none offered before)

theorem append {offered offered' a b c : List Action} (h : Gathers offered a b) (h' : Gathers offered' b c) :
    Gathers (offered ++ offered') a c := by
  induction h with
  | done => exact h'
  | leave _ ih => exact .leave (ih h')
  | take hj _ ih => exact .take hj (ih h')

theorem sublist {offered before after : List Action} (h : Gathers offered before after) :
    ∃ added, after = before ++ added ∧ added.Sublist offered := by
  induction h with
  | done => exact ⟨[], (List.append_nil _).symm, .slnil⟩
  | leave _ ih =>
    obtain ⟨added, rfl, hsub⟩ := ih
    exact ⟨added, rfl, hsub.cons _⟩
  | @take a _ _ _ _ _ ih =>
    obtain ⟨added, rfl, hsub⟩ := ih
    exact ⟨a :: added, by rw [List.append_assoc, List.singleton_append], hsub.cons_cons _⟩

theorem joined {offered before after : List Action} (h : Gathers offered before after)
    (hb : Joined before) : Joined after := by
  induction h with
  | done => exact hb
  | leave _ ih => exact ih hb
  | take hj _ ih => exact ih (hb.snoc hj)

end Gathers

theorem Action.destination?_eq_some {a : Action} {mailbox : String} :
    a.destination? = some mailbox ↔ a = .fileInto mailbox := by
  cases a <;> simp [destination?]

theorem Joined.nodup_destinations {actions : List Action} (h : Joined actions) :
    (actions.filterMap Action.destination?).Nodup := by
  induction h with
  | nil => exact .nil
  | @snoc actions a _ hj ih =>
    rw [List.filterMap_append, List.nodup_append]
    refine ⟨ih, ?_, ?_⟩
    · show a.destination?.toList.Nodup
      cases a.destination? <;> simp
    · intro mailbox hm mailbox' hm' heq
      obtain ⟨b, hb, hd⟩ := List.mem_filterMap.1 hm
      obtain ⟨a', ha', hd'⟩ := List.mem_filterMap.1 hm'
      rw [List.mem_singleton.1 ha', Action.destination?_eq_some] at hd'
      rw [Action.destination?_eq_some, heq, ← hd'] at hd
      exact hj.once mailbox' hd' (hd ▸ hb)

/-! ## Computations -/

namespace Exec

def Silent (x : Exec α) : Prop := ∀ ctx : Context, (x ctx).context.actions = ctx.actions

/-- The computation takes some of the actions on offer, whether it succeeds or fails. -/
def Collects (x : Exec α) (offered : List Action) : Prop :=
  ∀ ctx : Context, Gathers offered ctx.actions (x ctx).context.actions

theorem Silent.collects {x : Exec α} (h : x.Silent) (offered : List Action) : x.Collects offered := by
  intro ctx
  rw [h ctx]
  exact .none offered _

theorem Silent.pure (a : α) : Silent (Pure.pure a) := fun _ => rfl

theorem Silent.ofExcept (r : Except Error α) : (Exec.ofExcept r).Silent := fun _ => rfl

theorem Silent.bind {x : Exec α} {f : α → Exec β} (hx : x.Silent) (hf : ∀ a, (f a).Silent) :
    (x >>= f).Silent := by
  intro ctx
  rw [bind_apply]
  split
  · exact (hf _ _).trans (hx ctx)
  · exact hx ctx

theorem Collects.bind {x : Exec α} {f : α → Exec β} {offered offered' : List Action}
    (hx : x.Collects offered) (hf : ∀ a, (f a).Collects offered') : (x >>= f).Collects (offered ++ offered') := by
  intro ctx
  rw [bind_apply]
  split
  · exact (hx ctx).append (hf _ _)
  · simpa using (hx ctx).append (.none offered' _)

theorem Collects.bind_silent {x : Exec α} {f : α → Exec β} {offered : List Action} (hx : x.Collects offered)
    (hf : ∀ a, (f a).Silent) : (x >>= f).Collects offered := by
  have h := hx.bind fun a => (hf a).collects []
  rwa [List.append_nil] at h

theorem Silent.bind_collects {x : Exec α} {f : α → Exec β} {offered : List Action} (hx : x.Silent)
    (hf : ∀ a, (f a).Collects offered) : (x >>= f).Collects offered :=
  (hx.collects []).bind hf

theorem Collects.ofExcept_bind {r : Except Error α} {f : α → Exec β} {offered : List Action}
    (hf : ∀ a, r = .ok a → (f a).Collects offered) : (Exec.ofExcept r >>= f).Collects offered := by
  cases r with
  | error e => exact (Silent.ofExcept (.error e)).collects offered
  | ok a => exact hf a rfl

theorem Collects.get_bind {f : Context → Exec β} {offered : List Action} (hf : ∀ ctx, (f ctx).Collects offered) :
    (Exec.get >>= f).Collects offered := fun ctx => hf ctx ctx

theorem Collects.block {x : Exec α} {offered : List Action} (hx : x.Collects offered) :
    (Exec.block x).Collects offered := fun ctx => hx ctx.enterBlock

theorem gathers_addAction {ctx : Context} {a : Action} (honce : ∀ mailbox, a = .fileInto mailbox → a ∉ ctx.actions)
    (haddress : ∀ address, a = .redirect address → (Text.trim address.toList).isEmpty = false) :
    Gathers [a] ctx.actions (Exec.addAction a ctx).context.actions := by
  unfold Exec.addAction
  split
  · next ctx' h =>
    obtain ⟨rfl, hjoin⟩ := Context.addAction_eq_ok h
    exact .take ⟨hjoin, honce, haddress⟩ .done
  · exact .none _ _

end Exec

/-! ## Commands -/

theorem Command.operand_eq_ok {c : Command} {what s : String} :
    c.operand what = .ok s ↔ c.arguments = [.strings [s]] := by
  unfold operand
  split <;> simp_all

theorem Command.arguments_of_checkBare {c : Command} (h : c.checkBare = .ok ()) : c.arguments = [] := by
  obtain ⟨-, -, h⟩ := bind_eq_ok.1 h
  by_cases hb : c.isBare = true
  · simp only [isBare, Bool.and_eq_true, List.isEmpty_iff] at hb
    exact hb.1
  · simp [hb, throw_ne_ok] at h

theorem Command.redirectAddress_eq_ok {c : Command} {s : String} (h : c.redirectAddress = .ok s) :
    c.operand "address" = .ok s ∧ (Text.trim s.toList).isEmpty = false := by
  obtain ⟨address, ha, h⟩ := bind_eq_ok.1 h
  by_cases hblank : (Text.trim address.toList).isEmpty = true
  · rw [if_pos hblank] at h
    exact absurd h throw_ne_ok
  · rw [if_neg hblank] at h
    cases pure_eq_ok.1 h
    exact ⟨operand_of_action ha, by simpa using hblank⟩

namespace Environment

open Exec

theorem enableAll_silent (env : Environment) : ∀ names, (env.enableAll names).Silent
  | [] => .pure ()
  | name :: names => by
    unfold enableAll
    split
    · exact .bind (fun _ => rfl) fun _ => env.enableAll_silent names
    · exact .ofExcept _

theorem fileInto_collects (mailbox : String) : (fileInto mailbox).Collects [.fileInto mailbox] := by
  intro ctx
  simp only [fileInto, Exec.get_bind]
  by_cases hfiled : ctx.isFiled mailbox = true
  · rw [if_pos hfiled]
    exact .none _ _
  · rw [if_neg hfiled]
    refine gathers_addAction (fun mailbox' h hmem => ?_) fun _ h => nomatch h
    exact hfiled (List.contains_iff_mem.2 hmem)

theorem addAction_collects (a : Action) (hfile : ∀ mailbox, a ≠ .fileInto mailbox)
    (haddress : ∀ address, a = .redirect address → (Text.trim address.toList).isEmpty = false) :
    (Exec.addAction a).Collects [a] :=
  fun _ => gathers_addAction (fun mailbox h => absurd h (hfile mailbox)) haddress

/-- A command without a block takes its own action at most. -/
theorem runSimple_collects (env : Environment) {kind : CommandKind} {c : Command}
    (hshape : kind.check c = .ok ()) : (env.runSimple kind c).Collects (kind.action? c).toList := by
  cases kind with
  | keep =>
    have hc := Command.arguments_of_checkBare hshape
    simp only [CommandKind.action?, hc]
    exact (addAction_collects .keep (by simp) (by simp)).bind_silent fun _ => .pure _
  | discard =>
    have hc := Command.arguments_of_checkBare hshape
    simp only [CommandKind.action?, hc]
    exact (addAction_collects .discard (by simp) (by simp)).bind_silent fun _ => .pure _
  | redirect =>
    obtain ⟨address, h⟩ := verdict_eq_ok.1 hshape
    obtain ⟨hoperand, hblank⟩ := Command.redirectAddress_eq_ok h
    have haddress : ∀ address', Action.redirect address = .redirect address' →
        (Text.trim address'.toList).isEmpty = false := by
      rintro _ ⟨⟩
      exact hblank
    simp only [CommandKind.action?, Command.operand_eq_ok.1 hoperand, runSimple, hoperand, liftShape,
      Exec.ofExcept_ok_bind]
    exact (addAction_collects (.redirect address) (by simp) haddress).bind_silent fun _ => .pure _
  | fileInto =>
    obtain ⟨mailbox, h⟩ := verdict_eq_ok.1 hshape
    have hoperand := Command.operand_of_action h
    simp only [CommandKind.action?, Command.operand_eq_ok.1 hoperand, runSimple, hoperand, liftShape,
      Exec.ofExcept_ok_bind]
    exact (fileInto_collects mailbox).bind_silent fun _ => .pure _
  | reject =>
    obtain ⟨message, h⟩ := verdict_eq_ok.1 hshape
    have hoperand := Command.operand_of_action h
    simp only [CommandKind.action?, Command.operand_eq_ok.1 hoperand, runSimple, hoperand, liftShape,
      Exec.ofExcept_ok_bind]
    exact (addAction_collects (.reject message) (by simp) (by simp)).bind_silent fun _ => .pure _
  | require =>
    refine Silent.collects ?_ _
    exact .bind (.ofExcept _) fun names => .bind (env.enableAll_silent names) fun _ => .pure _
  | stop | ifThen | elseIf | otherwise => exact (Silent.pure _).collects _

theorem choose_silent (env : Environment) (mail : Mail) (kind : CommandKind) (c : Command) :
    (env.choose mail kind c).Silent := by
  have htest : (env.testOf mail c).Silent :=
    .bind (.ofExcept _) fun _ => .bind (fun _ => rfl) fun _ => fun _ => rfl
  refine .bind (fun _ => rfl) fun ctx => ?_
  split
  · exact .bind htest fun _ => .pure _
  · exact .bind htest fun _ => .pure _
  · exact .pure _
  · exact .ofExcept _
  · exact .pure _
  · exact .pure _
  · exact .ofExcept _
  · exact .pure _

theorem perform_collects {env : Environment} {mail : Mail} {kind : CommandKind} {c : Command}
    {offered : List Action} (hshape : kind.check c = .ok ())
    (hblock : (env.runBlock? mail c.block).Collects offered) :
    (env.perform mail kind c).Collects ((kind.action? c).toList ++ offered) := by
  cases kind with
  | ifThen | elseIf | otherwise =>
    refine (env.choose_silent mail _ c).bind_collects fun decision => ?_
    cases decision with
    | skip branch => exact Silent.collects (fun _ => rfl) _
    | run =>
      refine hblock.block.bind_silent fun flow => ?_
      split
      · exact fun _ => rfl
      · exact .pure _
  | _ =>
    -- a block that stands behind a simple command is never run
    intro ctx
    exact (runSimple_collects env hshape ctx).append (.none offered _)

/-! ## Scripts -/

theorem action?_of_lookup {env : Environment} {c : Command} {kind : CommandKind}
    (h : env.commands.lookup c.name = .ok kind) : env.action? c = kind.action? c := by
  rw [action?, Registry.lookup_eq_ok.1 h]
  rfl

mutual
theorem runCommand_collects (env : Environment) (mail : Mail) : ∀ c : Command,
    (env.runCommand mail c).Collects (c.preorder.filterMap env.action?)
  | ⟨name, arguments, tests, block, position⟩ => by
    rw [runCommand_eq, Command.preorder_eq, List.filterMap_cons]
    intro ctx
    rw [locate_context, Exec.modify_bind]
    refine Collects.ofExcept_bind (fun kind hlook => ?_) ctx.enterCommand
    refine Collects.ofExcept_bind fun ⟨⟩ hshape => ?_
    refine Collects.get_bind fun ctx' => Collects.ofExcept_bind fun _ _ => ?_
    have hperform := perform_collects (liftShape_eq_ok.1 hshape) (runBlock?_collects env mail block)
    rw [action?_of_lookup hlook]
    cases haction : kind.action? ⟨name, arguments, tests, block, position⟩ with
    | none => rwa [haction] at hperform
    | some a => rwa [haction] at hperform

theorem runBlock?_collects (env : Environment) (mail : Mail) : ∀ block : Option (List Command),
    (env.runBlock? mail block).Collects ((Script.blockPreorder block).filterMap env.action?)
  | none => (Silent.pure _).collects _
  | some commands => runCommands_collects env mail commands

theorem runCommands_collects (env : Environment) (mail : Mail) : ∀ cs : List Command,
    (env.runCommands mail cs).Collects (env.actions cs)
  | [] => (Silent.pure _).collects _
  | c :: cs => by
    rw [runCommands_cons, actions, Script.preorder, List.filterMap_append]
    refine (runCommand_collects env mail c).bind fun flow => ?_
    cases flow with
    | stop => exact (Silent.pure _).collects _
    | next => exact runCommands_collects env mail cs
end

theorem execute_gathers (env : Environment) (script : Script) (mail : Mail) :
    Gathers (env.actions script) [] (env.execute script mail).actions := by
  unfold execute
  split
  · exact .none _ _
  · exact env.runCommands_collects mail script {}

/-- Whether a script succeeds or fails, the actions it leaves are some of those its
commands stand for, in source order, and none files into a mailbox twice. This holds
whatever the names of the script stand for. -/
theorem execute_actions_inSourceOrder (env : Environment) (script : Script) (mail : Mail) :
    (env.execute script mail).actions.Sublist (env.actions script) ∧
      ((env.execute script mail).actions.filterMap Action.destination?).Nodup := by
  have hgathers := env.execute_gathers script mail
  constructor
  · obtain ⟨added, heq, hsub⟩ := hgathers.sublist
    rw [heq]
    exact hsub
  · exact (hgathers.joined .nil).nodup_destinations

end Environment

end MailSieve

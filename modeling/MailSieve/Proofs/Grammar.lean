import Mathlib
import MailSieve.Tree
import MailSieve.Token

/-!
# The grammar

The productions as relations between the tokens ahead, the nodes they derive and
the tokens left behind. No two trees are derived from the same tokens: what comes
next is always told by one token, once it is known what can follow.
-/

namespace MailSieve

/-! ## Productions -/

inductive DerivesString : List PlacedToken → Node → List PlacedToken → Prop
  | quoted {literal p ts} : DerivesString (⟨.quoted literal, p⟩ :: ts) (.string literal) ts
  | multiline {literal p ts} : DerivesString (⟨.multiline literal, p⟩ :: ts) (.string literal) ts

/-- strings = string *("," string) -/
inductive DerivesStrings : List PlacedToken → List Node → List PlacedToken → Prop
  | one {ts n us} (h : DerivesString ts n us) : DerivesStrings ts [n] us
  | more {ts n p us ns vs} (h : DerivesString ts n (⟨.punct .comma, p⟩ :: us))
      (hs : DerivesStrings us ns vs) : DerivesStrings ts (n :: ns) vs

/-- argument = string / number / tag / "[" strings "]" -/
inductive DerivesArgument : List PlacedToken → Node → List PlacedToken → Prop
  | string {ts n us} (h : DerivesString ts n us) : DerivesArgument ts (.argument [n]) us
  | number {literal p ts} : DerivesArgument (⟨.number literal, p⟩ :: ts) (.argument [.number literal]) ts
  | tag {name p ts} : DerivesArgument (⟨.tag name, p⟩ :: ts) (.argument [.tag name]) ts
  | stringList {p ts ns q us} (hs : DerivesStrings ts ns (⟨.punct .closeBracket, q⟩ :: us)) :
      DerivesArgument (⟨.punct .openBracket, p⟩ :: ts) (.argument [.stringList ns]) us

/-- plain = *argument -/
inductive DerivesPlain : List PlacedToken → List Node → List PlacedToken → Prop
  | nil {ts} : DerivesPlain ts [] ts
  | cons {ts n us ns vs} (h : DerivesArgument ts n us) (hs : DerivesPlain us ns vs) :
      DerivesPlain ts (n :: ns) vs

mutual
/-- arguments = plain last -/
inductive DerivesArguments : List PlacedToken → List Node → List PlacedToken → Prop
  | arguments {ts ns us ms vs} (h : DerivesPlain ts ns us) (hl : DerivesLast us ms vs) :
      DerivesArguments ts (ns ++ ms) vs
/-- last = [test / "(" tests ")"] -/
inductive DerivesLast : List PlacedToken → List Node → List PlacedToken → Prop
  | none {ts} : DerivesLast ts [] ts
  | test {ts n us} (h : DerivesTest ts n us) : DerivesLast ts [n] us
  | testList {p ts ns q us} (hs : DerivesTests ts ns (⟨.punct .closeParen, q⟩ :: us)) :
      DerivesLast (⟨.punct .openParen, p⟩ :: ts) [.testList ns] us
/-- test = identifier arguments -/
inductive DerivesTest : List PlacedToken → Node → List PlacedToken → Prop
  | test {name p ts ns us} (h : DerivesArguments ts ns us) :
      DerivesTest (⟨.identifier name, p⟩ :: ts) (.test name p [.arguments ns]) us
/-- tests = test *("," test) -/
inductive DerivesTests : List PlacedToken → List Node → List PlacedToken → Prop
  | one {ts n us} (h : DerivesTest ts n us) : DerivesTests ts [n] us
  | more {ts n p us ns vs} (h : DerivesTest ts n (⟨.punct .comma, p⟩ :: us)) (hs : DerivesTests us ns vs) :
      DerivesTests ts (n :: ns) vs
end

mutual
/-- commands = *command -/
inductive DerivesCommands : List PlacedToken → List Node → List PlacedToken → Prop
  | nil {ts} : DerivesCommands ts [] ts
  | cons {ts n us ns vs} (h : DerivesCommand ts n us) (hs : DerivesCommands us ns vs) :
      DerivesCommands ts (n :: ns) vs
/-- command = identifier arguments (";" / "{" commands "}") -/
inductive DerivesCommand : List PlacedToken → Node → List PlacedToken → Prop
  | simple {name p ts ns q us} (h : DerivesArguments ts ns (⟨.punct .semicolon, q⟩ :: us)) :
      DerivesCommand (⟨.identifier name, p⟩ :: ts) (.command name p [.arguments ns]) us
  | block {name p ts ns q us cs r vs} (h : DerivesArguments ts ns (⟨.punct .openBrace, q⟩ :: us))
      (hs : DerivesCommands us cs (⟨.punct .closeBrace, r⟩ :: vs)) :
      DerivesCommand (⟨.identifier name, p⟩ :: ts) (.command name p [.arguments ns, .block [.commands cs]]) vs
end

/-- start = commands, with no token left -/
inductive Derives : List PlacedToken → Node → Prop
  | start {ts cs} (h : DerivesCommands ts cs []) : Derives ts (.start [.commands cs])

/-! ## Nesting -/

mutual
/-- How many levels of blocks, tests and test lists a node opens. The tests of a list
are on the level of the list. -/
def Node.nesting : Node → Nat
  | .block children | .test _ _ children => nestingAll children + 1
  | .testList tests => max 1 (nestingAll tests)
  | .start children | .commands children | .command _ _ children | .arguments children
  | .argument children | .stringList children => nestingAll children
  | .string _ | .number _ | .tag _ => 0
def Node.nestingAll : List Node → Nat
  | [] => 0
  | n :: ns => max n.nesting (nestingAll ns)
end

/-! ## Strings and plain arguments -/

theorem DerivesString.unique {ts us us' : List PlacedToken} {n n' : Node} (h : DerivesString ts n us)
    (h' : DerivesString ts n' us') : n = n' ∧ us = us' := by
  cases h with
  | quoted => cases h'; exact ⟨rfl, rfl⟩
  | multiline => cases h'; exact ⟨rfl, rfl⟩

theorem DerivesStrings.unique {ts us us' vs vs' : List PlacedToken} {ns ns' : List Node} {q q' : Position}
    (h : DerivesStrings ts ns us) (hus : us = ⟨.punct .closeBracket, q⟩ :: vs)
    (h' : DerivesStrings ts ns' us') (hus' : us' = ⟨.punct .closeBracket, q'⟩ :: vs') :
    ns = ns' ∧ us = us' := by
  induction h generalizing ns' with
  | one h =>
    subst hus
    cases h' with
    | one h' =>
      obtain ⟨rfl, hus⟩ := h.unique h'
      exact ⟨rfl, hus⟩
    | more h' hs' => cases (h.unique h').2
  | more h hs ih =>
    cases h' with
    | one h' =>
      subst hus'
      cases (h.unique h').2
    | more h' hs' =>
      obtain ⟨rfl, hus⟩ := h.unique h'
      cases hus
      obtain ⟨rfl, hus⟩ := ih hus hs'
      exact ⟨rfl, hus⟩

theorem DerivesArgument.unique {ts us us' : List PlacedToken} {n n' : Node} (h : DerivesArgument ts n us)
    (h' : DerivesArgument ts n' us') : n = n' ∧ us = us' := by
  cases h with
  | string h =>
    cases h' with
    | string h' =>
      obtain ⟨rfl, hus⟩ := h.unique h'
      exact ⟨rfl, hus⟩
    | number | tag | stringList => cases h
  | number =>
    cases h' with
    | string h' => cases h'
    | number => exact ⟨rfl, rfl⟩
  | tag =>
    cases h' with
    | string h' => cases h'
    | tag => exact ⟨rfl, rfl⟩
  | stringList hs =>
    cases h' with
    | string h' => cases h'
    | stringList hs' =>
      obtain ⟨rfl, hus⟩ := hs.unique rfl hs' rfl
      cases hus
      exact ⟨rfl, rfl⟩

def NoArgument (ts : List PlacedToken) : Prop := ∀ n us, ¬ DerivesArgument ts n us

theorem DerivesPlain.unique {ts us us' : List PlacedToken} {ns ns' : List Node} (h : DerivesPlain ts ns us)
    (hus : NoArgument us) (h' : DerivesPlain ts ns' us') (hus' : NoArgument us') : ns = ns' ∧ us = us' := by
  induction h generalizing ns' with
  | nil =>
    cases h' with
    | nil => exact ⟨rfl, rfl⟩
    | cons ha => exact absurd ha (hus _ _)
  | cons ha hs ih =>
    cases h' with
    | nil => exact absurd ha (hus' _ _)
    | cons ha' hs' =>
      obtain ⟨rfl, rfl⟩ := ha.unique ha'
      obtain ⟨rfl, rfl⟩ := ih hus hs'
      exact ⟨rfl, rfl⟩

/-! ## Tests -/

inductive EndsArguments : List PlacedToken → Prop
  | semicolon {p ts} : EndsArguments (⟨.punct .semicolon, p⟩ :: ts)
  | openBrace {p ts} : EndsArguments (⟨.punct .openBrace, p⟩ :: ts)
  | comma {p ts} : EndsArguments (⟨.punct .comma, p⟩ :: ts)
  | closeParen {p ts} : EndsArguments (⟨.punct .closeParen, p⟩ :: ts)

theorem noArgument_identifier {name : String} {p : Position} {ts : List PlacedToken} :
    NoArgument (⟨.identifier name, p⟩ :: ts) := by
  intro n us h
  cases h with
  | string h => cases h

theorem DerivesLast.noArgument {ts us : List PlacedToken} {ms : List Node} (h : DerivesLast ts ms us)
    (hus : EndsArguments us) : NoArgument ts := by
  intro n vs ha
  cases h with
  | none =>
    cases hus <;> cases ha with
    | string h => cases h
  | test h =>
    cases h
    exact noArgument_identifier n vs ha
  | testList =>
    cases ha with
    | string h => cases h

theorem DerivesTest.not_endsArguments {ts us : List PlacedToken} {n : Node} (h : DerivesTest ts n us) :
    ¬ EndsArguments ts := by
  cases h
  exact nofun

mutual
theorem DerivesArguments.unique {ts us us' : List PlacedToken} {ns ns' : List Node}
    (h : DerivesArguments ts ns us) (hus : EndsArguments us) (h' : DerivesArguments ts ns' us')
    (hus' : EndsArguments us') : ns = ns' ∧ us = us' := by
  match h, h' with
  | .arguments hp hl, .arguments hp' hl' =>
    -- neither sequence of plain arguments can go on where it ends
    obtain ⟨rfl, rfl⟩ := hp.unique (hl.noArgument hus) hp' (hl'.noArgument hus')
    obtain ⟨rfl, rfl⟩ := hl.unique hus hl' hus'
    exact ⟨rfl, rfl⟩
termination_by structural h

theorem DerivesLast.unique {ts us us' : List PlacedToken} {ms ms' : List Node}
    (h : DerivesLast ts ms us) (hus : EndsArguments us) (h' : DerivesLast ts ms' us')
    (hus' : EndsArguments us') : ms = ms' ∧ us = us' := by
  match h, h' with
  | .none, .none => exact ⟨rfl, rfl⟩
  | .none, .test h' => exact absurd hus h'.not_endsArguments
  | .none, .testList _ => cases hus
  | .test h, .none => exact absurd hus' h.not_endsArguments
  | .test h, .test h' =>
    obtain ⟨rfl, rfl⟩ := h.unique hus h' hus'
    exact ⟨rfl, rfl⟩
  | .testList _, .none => cases hus'
  | .testList hs, .testList hs' =>
    obtain ⟨rfl, hus⟩ := hs.unique rfl hs' rfl
    cases hus
    exact ⟨rfl, rfl⟩
termination_by structural h

theorem DerivesTest.unique {ts us us' : List PlacedToken} {n n' : Node}
    (h : DerivesTest ts n us) (hus : EndsArguments us) (h' : DerivesTest ts n' us')
    (hus' : EndsArguments us') : n = n' ∧ us = us' := by
  match h, h' with
  | .test h, .test h' =>
    obtain ⟨rfl, rfl⟩ := h.unique hus h' hus'
    exact ⟨rfl, rfl⟩
termination_by structural h

theorem DerivesTests.unique {ts us us' vs vs' : List PlacedToken} {ns ns' : List Node} {q q' : Position}
    (h : DerivesTests ts ns us) (hus : us = ⟨.punct .closeParen, q⟩ :: vs)
    (h' : DerivesTests ts ns' us') (hus' : us' = ⟨.punct .closeParen, q'⟩ :: vs') :
    ns = ns' ∧ us = us' := by
  match h, h' with
  | .one h, .one h' =>
    obtain ⟨rfl, hu⟩ := h.unique (hus ▸ .closeParen) h' (hus' ▸ .closeParen)
    exact ⟨rfl, hu⟩
  | .one h, .more h' _ =>
    have hu := (h.unique (hus ▸ .closeParen) h' .comma).2
    cases hus.symm.trans hu
  | .more h _, .one h' =>
    have hu := (h.unique .comma h' (hus' ▸ .closeParen)).2
    cases hu.trans hus'
  | .more h hs, .more h' hs' =>
    obtain ⟨rfl, hu⟩ := h.unique .comma h' .comma
    cases hu
    obtain ⟨rfl, hu⟩ := hs.unique hus hs' hus'
    exact ⟨rfl, hu⟩
termination_by structural h
end

/-! ## Commands -/

inductive EndsCommands : List PlacedToken → Prop
  | nil : EndsCommands []
  | closeBrace {p ts} : EndsCommands (⟨.punct .closeBrace, p⟩ :: ts)

theorem DerivesCommand.not_endsCommands {ts us : List PlacedToken} {n : Node} (h : DerivesCommand ts n us) :
    ¬ EndsCommands ts := by
  cases h <;> exact nofun

mutual
theorem DerivesCommands.unique {ts us us' : List PlacedToken} {ns ns' : List Node}
    (h : DerivesCommands ts ns us) (hus : EndsCommands us) (h' : DerivesCommands ts ns' us')
    (hus' : EndsCommands us') : ns = ns' ∧ us = us' := by
  match h, h' with
  | .nil, .nil => exact ⟨rfl, rfl⟩
  | .nil, .cons h' _ => exact absurd hus h'.not_endsCommands
  | .cons h _, .nil => exact absurd hus' h.not_endsCommands
  | .cons h hs, .cons h' hs' =>
    obtain ⟨rfl, rfl⟩ := h.unique h'
    obtain ⟨rfl, rfl⟩ := hs.unique hus hs' hus'
    exact ⟨rfl, rfl⟩
termination_by structural h

theorem DerivesCommand.unique {ts us us' : List PlacedToken} {n n' : Node}
    (h : DerivesCommand ts n us) (h' : DerivesCommand ts n' us') : n = n' ∧ us = us' := by
  match h, h' with
  | .simple h, .simple h' =>
    obtain ⟨rfl, hu⟩ := h.unique .semicolon h' .semicolon
    cases hu
    exact ⟨rfl, rfl⟩
  | .simple h, .block h' _ => cases (h.unique .semicolon h' .openBrace).2
  | .block h _, .simple h' => cases (h.unique .openBrace h' .semicolon).2
  | .block h hs, .block h' hs' =>
    obtain ⟨rfl, hu⟩ := h.unique .openBrace h' .openBrace
    cases hu
    obtain ⟨rfl, hu⟩ := hs.unique .closeBrace hs' .closeBrace
    cases hu
    exact ⟨rfl, rfl⟩
termination_by structural h
end

/-- Tokens derive at most one tree. -/
theorem Derives.unique {ts : List PlacedToken} {t t' : Node} (h : Derives ts t) (h' : Derives ts t') :
    t = t' := by
  cases h with
  | start h =>
    cases h' with
    | start h' =>
      obtain ⟨rfl, -⟩ := h.unique .nil h' .nil
      rfl

end MailSieve


import MailSieve.Proofs.Collectors

/-!
# Well-shaped trees

The type of trees is loose. Which trees can be read is said here node by node: by the kinds of a
node's children and, at the leaves, by the literals. What they are read as is said by a reading
that looks at no shape: each node takes from its children, in their order, what it can use.
-/

namespace MailSieve

/-! ## Shapes and readings -/

namespace Node
open Reading

def Legible : Node → Prop
  | .string literal => ∃ s, Literal.string literal = .ok s
  | .number literal => ∃ value, Literal.number literal = .ok value
  | _ => True

inductive WellShaped : Node → Prop
  | intro {n : Node} (kinds : n.kind.Admits (n.children.map kind)) (legible : n.Legible)
      (children : ∀ c ∈ n.children, WellShaped c) : WellShaped n

theorem wellShaped_iff {n : Node} :
    n.WellShaped ↔ n.kind.Admits (n.children.map kind) ∧ n.Legible ∧ ∀ c ∈ n.children, c.WellShaped := by
  constructor
  · intro h
    cases h with
    | intro kinds legible children => exact ⟨kinds, legible, children⟩
  · intro ⟨kinds, legible, children⟩
    exact .intro kinds legible children

mutual
def reading : Node → Reading
  | .start children => .commands ((readings children).filterMap commands?).flatten
  | .commands children => .commands ((readings children).filterMap command?)
  | .command name position children =>
    let arguments := ((readings children).findSome? arguments?).getD ([], none)
    .command ⟨name, arguments.1, arguments.2, (readings children).findSome? block?, position⟩
  | .block children => .block ((readings children).filterMap commands?).flatten
  | .arguments children =>
    .arguments ((readings children).filterMap positional?) ((readings children).findSome? tests?)
  | .argument children => .argument (joinedArgument (readings children))
  | .test name position children =>
    let arguments := ((readings children).findSome? arguments?).getD ([], none)
    .test ⟨name, arguments.1, arguments.2, position⟩
  | .testList children => .testList ((readings children).filterMap test?)
  | .stringList children => .strings (joinedStrings (readings children))
  | .string literal => .strings (Literal.string literal).toOption.toList
  | .number literal => .number ((Literal.number literal).toOption.getD 0)
  | .tag name => .tag (Text.lowercase name)
def readings : List Node → List Reading
  | [] => []
  | n :: ns => reading n :: readings ns
end

end Node

/-! ## Whole trees -/

namespace NodeKind

/-- The kind of what is read: a list of strings is read as one string is. -/
def collapsed : NodeKind → NodeKind
  | .stringList => .string
  | k => k

theorem collapsed_string {k : NodeKind} :
    k.collapsed = .string ∨ k.collapsed = .stringList ↔ k = .string ∨ k = .stringList := by
  cases k <;> simp [collapsed]

theorem collapsed_eq_iff {k k' : NodeKind} (h : k' ≠ .string) (h' : k' ≠ .stringList) :
    k.collapsed = k' ↔ k = k' := by
  cases k <;> simp [collapsed, h.symm, h'.symm]

theorem count_collapsed {k : NodeKind} {ks : List NodeKind} (h : k ≠ .string) (h' : k ≠ .stringList) :
    (ks.map collapsed).count k = ks.count k := by
  rw [List.count, List.countP_map]
  apply List.countP_congr
  intro k' _
  simp [collapsed_eq_iff h h']

theorem admits_collapsed {k : NodeKind} {ks : List NodeKind} : k.Admits (ks.map collapsed) ↔ k.Admits ks := by
  cases k <;>
    simp [Admits, count_collapsed, List.countP_map, Function.comp_def, collapsed_eq_iff, collapsed_string,
      List.map_eq_singleton_iff]

theorem start_not_mem_of_admits {k : NodeKind} {ks : List NodeKind} (h : k.Admits ks) : .start ∉ ks := by
  cases k <;> simp only [Admits] at h <;> grind

end NodeKind

namespace Node
open Reading

def Readable (n : Node) : Prop :=
  n.kind ≠ .start ∧ n.WellShaped

theorem kind_reading {n : Node} (h : n.kind ≠ .start) : n.reading.kind = n.kind.collapsed := by
  cases n with
  | start _ => exact absurd rfl h
  | _ => rfl

theorem kind_reading_eq_commands {n : Node} (h : n.kind ≠ .start) :
    n.reading.kind = .commands ↔ n.kind = .commands := by
  rw [kind_reading h]
  exact NodeKind.collapsed_eq_iff nofun nofun

theorem kinds_readings {ns : List Node} (h : ∀ n ∈ ns, n.kind ≠ .start) :
    (readings ns).map Reading.kind = (ns.map kind).map NodeKind.collapsed := by
  induction ns with
  | nil => rfl
  | cons n ns ih =>
    rw [List.forall_mem_cons] at h
    rw [readings, List.map_cons, List.map_cons, List.map_cons, kind_reading h.1, ih h.2]

theorem kind_ne_start_of_admits {n : Node} (h : n.kind.Admits (n.children.map kind)) :
    ∀ c ∈ n.children, c.kind ≠ .start := by
  intro c hc hkind
  exact NodeKind.start_not_mem_of_admits h (hkind ▸ List.mem_map_of_mem hc)

end Node

namespace Reading

/-- A node asks of its children's kinds what its shape asks of them, once its children can be read. -/
theorem allRead_ofNodes {n : Node} {r : Reading} {value : List Reading → Reading} (hn : n.kind ≠ .start)
    (legible : n.Legible)
    (hchildren : ∀ fs,
      ofNodes n.children = fs.map .ok ↔ (∀ c ∈ n.children, c.Readable) ∧ fs = Node.readings n.children) :
    (AllRead (ofNodes n.children) fun fs => n.kind.Admits (fs.map kind) ∧ r = value fs) ↔
      n.Readable ∧ r = value (Node.readings n.children) := by
  constructor
  · intro ⟨fs, hfs, hkinds, hr⟩
    obtain ⟨hread, rfl⟩ := (hchildren fs).1 hfs
    rw [Node.kinds_readings fun c hc => (hread c hc).1, NodeKind.admits_collapsed] at hkinds
    exact ⟨⟨hn, .intro hkinds legible fun c hc => (hread c hc).2⟩, hr⟩
  · intro ⟨⟨_, hshape⟩, hr⟩
    obtain ⟨hkinds, -, hshapes⟩ := Node.wellShaped_iff.1 hshape
    have hstart := Node.kind_ne_start_of_admits hkinds
    refine ⟨_, (hchildren _).2 ⟨fun c hc => ⟨hstart c hc, hshapes c hc⟩, rfl⟩, ?_, hr⟩
    rw [Node.kinds_readings hstart]
    exact NodeKind.admits_collapsed.2 hkinds

theorem ofLiteral_iff {make : α → Reading} {x : Except LiteralFault α} {r value : Reading}
    (hvalue : ∀ a, x = .ok a → value = make a) : ofLiteral make x = .ok r ↔ (∃ a, x = .ok a) ∧ r = value := by
  cases x with
  | error fault => simp [ofLiteral]
  | ok a => simp [ofLiteral, hvalue a rfl, eq_comm]

theorem readable_leaf {n : Node} (hn : n.kind ≠ .start) (hchildren : n.children = []) (hkinds : n.kind.Admits []) :
    n.Readable ↔ n.Legible := by
  rw [Node.Readable, Node.wellShaped_iff, hchildren]
  simp [hn, hkinds]

mutual
theorem ofNode_eq_ok : ∀ (n : Node) (r : Reading), ofNode n = .ok r ↔ n.Readable ∧ r = n.reading
  | .start children, r => ⟨nofun, fun h => absurd rfl h.1.1⟩
  | .commands children, r =>
    (collect_iff isSome_command? _).trans
      (allRead_ofNodes (n := .commands children) nofun trivial (ofNodes_eq_ok children))
  | .command name p children, r =>
    ofCommand_iff.trans (allRead_ofNodes (n := .command name p children) nofun trivial (ofNodes_eq_ok children))
  | .block children, r =>
    ofBlock_iff.trans (allRead_ofNodes (n := .block children) nofun trivial (ofNodes_eq_ok children))
  | .arguments children, r =>
    ofArguments_iff.trans (allRead_ofNodes (n := .arguments children) nofun trivial (ofNodes_eq_ok children))
  | .argument children, r =>
    ofArgument_iff.trans (allRead_ofNodes (n := .argument children) nofun trivial (ofNodes_eq_ok children))
  | .test name p children, r =>
    ofTest_iff.trans (allRead_ofNodes (n := .test name p children) nofun trivial (ofNodes_eq_ok children))
  | .testList children, r =>
    (collect_iff isSome_test? _).trans
      (allRead_ofNodes (n := .testList children) nofun trivial (ofNodes_eq_ok children))
  | .stringList children, r =>
    (collect_iff isSome_strings? fun items => .strings items.flatten).trans
      (allRead_ofNodes (n := .stringList children) nofun trivial (ofNodes_eq_ok children))
  | .string literal, r => by
    rw [ofNode, readable_leaf (n := .string literal) nofun rfl rfl]
    apply ofLiteral_iff
    intro s hs
    rw [Node.reading, hs]
    rfl
  | .number literal, r => by
    rw [ofNode, readable_leaf (n := .number literal) nofun rfl rfl]
    apply ofLiteral_iff
    intro value hvalue
    rw [Node.reading, hvalue]
    rfl
  | .tag name, r => by
    rw [ofNode, pure_eq_ok, readable_leaf (n := .tag name) nofun rfl rfl, eq_comm]
    exact (and_iff_right trivial).symm
theorem ofNodes_eq_ok : ∀ (ns : List Node) (fs : List Reading),
    ofNodes ns = fs.map .ok ↔ (∀ n ∈ ns, n.Readable) ∧ fs = Node.readings ns
  | [], fs => by
    cases fs <;> simp [ofNodes, Node.readings]
  | n :: ns, [] => by
    simp [ofNodes, Node.readings]
  | n :: ns, f :: fs => by
    rw [ofNodes, List.map_cons, List.cons.injEq, ofNode_eq_ok n, ofNodes_eq_ok ns, List.forall_mem_cons,
      Node.readings, List.cons.injEq, and_and_and_comm]
end

end Reading

namespace Node

theorem wellShaped_start {children : List Node} :
    (start children).WellShaped ↔ ∃ child, children = [child] ∧ child.kind = .commands ∧ child.WellShaped := by
  rw [wellShaped_iff]
  constructor
  · intro ⟨hkinds, _, hchildren⟩
    obtain ⟨child, rfl, hchild⟩ := List.map_eq_singleton_iff.1 hkinds
    exact ⟨child, rfl, hchild, hchildren child List.mem_cons_self⟩
  · rintro ⟨child, rfl, hchild, hshape⟩
    exact ⟨congrArg (fun k => [k]) hchild, trivial, by simpa [children] using hshape⟩

theorem reading_start {child : Node} {script : Script} (h : child.kind = .commands) :
    (start [child]).reading = .commands script ↔ child.reading = .commands script := by
  obtain ⟨commands, hread⟩ := Reading.eq_commands_of_kind ((kind_reading_eq_commands (by simp [h])).2 h)
  rw [reading, readings, readings, hread]
  simp [Reading.commands?]

end Node

namespace Script

theorem ofTree_eq_ok_iff_wellShaped (tree : Node) (script : Script) :
    ofTree tree = .ok script ↔ tree.kind = .start ∧ tree.WellShaped ∧ tree.reading = .commands script := by
  constructor
  · intro h
    match tree, h with
    | .start [child], h =>
      obtain ⟨f, hf, h⟩ := bind_eq_ok.1 h
      obtain ⟨⟨hstart, hshape⟩, rfl⟩ := (Reading.ofNode_eq_ok child f).1 hf
      split at h
      · next commands hread =>
        cases pure_eq_ok.1 h
        have hchild := (Node.kind_reading_eq_commands hstart).1 (congrArg Reading.kind hread)
        exact ⟨rfl, Node.wellShaped_start.2 ⟨child, rfl, hchild, hshape⟩, (Node.reading_start hchild).2 hread⟩
      · exact absurd h throw_ne_ok
  · intro ⟨hstart, hshape, hread⟩
    cases tree with
    | start children =>
      obtain ⟨child, rfl, hchild, hshape⟩ := Node.wellShaped_start.1 hshape
      have hread := (Node.reading_start hchild).1 hread
      have hok := (Reading.ofNode_eq_ok child _).2 ⟨⟨by simp [hchild], hshape⟩, rfl⟩
      rw [ofTree, hok, hread]
      rfl
    | _ => cases hstart

example :
    ofTree (.start [.commands [.command "keep" ⟨1, 1⟩ [.block [.commands []],
      .arguments [.argument [.stringList [.stringList [.string "\"a\""], .string "\"b\""], .string "\"c\""]]]]]) =
    .ok [⟨"keep", [.strings ["a", "b", "c"]], none, some [], ⟨1, 1⟩⟩] := by
  rfl

end Script

end MailSieve

import StructuralTypes.Proofs.Operations
import StructuralTypes.Proofs.Texts

/-! The listing of a program, line by line. Where the blocks below the roots form a forest, one path
of blocks leads to each statement. So the listing, which counts the blocks on its way, comes to the
statements in reading order, and sets each in by the blocks that it stands in. -/

namespace StructuralTypes

namespace Layout

variable {layout : Layout} {roots : List BodyRef} {body outer inner : BodyRef}
  {blocks : List StatementRef} {ref block : StatementRef}

/-! ## What is below the roots -/

/-- The bodies that can be reached in an orderly layout are a forest with the given roots: what is
no root is the body of one block. Blocks that cannot be reached may have any bodies. -/
structure Treelike (layout : Layout) (roots : List BodyRef) : Prop where
  orderly : layout.Orderly
  stored : ∀ body, layout.Reachable roots body → body.index < layout.bodies.size
  sole : ∀ first second inner, layout.Under roots first → layout.Under roots second →
    layout.Opens first inner → layout.Opens second inner → first = second
  rooted : ∀ ref root, layout.Under roots ref → root ∈ roots → ¬layout.Opens ref root

theorem Forest.treelike (forest : layout.Forest roots) : layout.Treelike roots where
  orderly := forest.orderly
  stored body reached := by
    cases reached with
    | root isRoot => exact (forest.rooted body isRoot).1
    | inner _ _ _ found block =>
        obtain ⟨-, -, -, inside⟩ := forest.descends _ body ⟨_, found, block⟩
        exact inside
  sole first second inner _ _ := forest.sole first second inner
  rooted ref root _ isRoot := (forest.rooted root isRoot).2 ref

theorem Reachable.into (reached : layout.Reachable roots outer) (lists : layout.Lists outer ref)
    (opened : layout.Opens ref inner) : layout.Reachable roots inner := by
  obtain ⟨content, stored, member⟩ := lists
  obtain ⟨placed, found, block⟩ := opened
  exact .inner reached stored member found block

/-! ## Paths of blocks -/

/-- The blocks lead from a root to `body`, the innermost first. -/
inductive Path (layout : Layout) (roots : List BodyRef) : BodyRef → List StatementRef → Prop
  | root {body : BodyRef} (isRoot : body ∈ roots) : Path layout roots body []
  | inner {outer inner : BodyRef} {blocks : List StatementRef} {ref : StatementRef}
      (path : Path layout roots outer blocks) (lists : layout.Lists outer ref)
      (opened : layout.Opens ref inner) : Path layout roots inner (ref :: blocks)

theorem Path.reachable (path : layout.Path roots body blocks) : layout.Reachable roots body := by
  induction path with
  | root isRoot => exact .root isRoot
  | inner _ lists opened induction => exact induction.into lists opened

theorem Reachable.exists_path (reached : layout.Reachable roots body) :
    ∃ blocks, layout.Path roots body blocks := by
  induction reached with
  | root isRoot => exact ⟨[], .root isRoot⟩
  | inner _ stored member found block induction =>
      obtain ⟨blocks, path⟩ := induction
      exact ⟨_, path.inner ⟨_, stored, member⟩ ⟨_, found, block⟩⟩

theorem Path.extend (path : layout.Path roots outer blocks)
    (reached : layout.Reachable [outer] body) :
    ∃ more, layout.Path roots body (more ++ blocks) := by
  induction reached with
  | root member =>
      cases List.mem_singleton.mp member
      exact ⟨[], path⟩
  | inner _ stored member found block induction =>
      obtain ⟨more, longer⟩ := induction
      exact ⟨_ :: more, longer.inner ⟨_, stored, member⟩ ⟨_, found, block⟩⟩

theorem Path.of_mem (path : layout.Path roots body blocks) (member : block ∈ blocks) :
    ∃ outer above inner, layout.Path roots outer above ∧ above.length < blocks.length ∧
      layout.Lists outer block ∧ layout.Opens block inner ∧ layout.Reachable [inner] body := by
  induction path with
  | root => cases member
  | inner path lists opened induction =>
      rcases List.mem_cons.mp member with rfl | further
      · exact ⟨_, _, _, path, Nat.lt_succ_self _, lists, opened, .root List.mem_cons_self⟩
      · obtain ⟨outer, above, first, shorter, less, listsFirst, opensFirst, reached⟩ :=
          induction further
        exact ⟨outer, above, first, shorter, Nat.lt_succ_of_lt less, listsFirst, opensFirst,
          reached.into lists opened⟩

namespace Treelike

variable (treelike : layout.Treelike roots)
include treelike

theorem path_unique {others : List StatementRef} (path : layout.Path roots body blocks)
    (other : layout.Path roots body others) : blocks = others := by
  induction path generalizing others with
  | root isRoot =>
      cases other with
      | root => rfl
      | inner otherPath otherLists otherOpened =>
          exact (treelike.rooted _ _ ⟨_, otherPath.reachable, otherLists⟩ isRoot otherOpened).elim
  | inner path lists opened induction =>
      cases other with
      | root isRoot =>
          exact (treelike.rooted _ _ ⟨_, path.reachable, lists⟩ isRoot opened).elim
      | inner otherPath otherLists otherOpened =>
          cases treelike.sole _ _ _ ⟨_, path.reachable, lists⟩ ⟨_, otherPath.reachable, otherLists⟩
            opened otherOpened
          cases treelike.orderly.lists_unique lists otherLists
          rw [induction otherPath]

theorem nodup_of_path (path : layout.Path roots body blocks) : blocks.Nodup := by
  induction path with
  | root => exact List.nodup_nil
  | @inner outer inner blocks ref path lists opened induction =>
      refine List.nodup_cons.mpr ⟨fun member => ?_, induction⟩
      obtain ⟨other, above, first, shorter, less, listsToo, -⟩ := path.of_mem member
      cases treelike.orderly.lists_unique lists listsToo
      cases treelike.path_unique path shorter
      exact Nat.lt_irrefl _ less

/-- The bodies on a path, which are distinct since their own paths have different lengths. -/
theorem exists_bodies (path : layout.Path roots body blocks) :
    ∃ bodies : List BodyRef, bodies.length = blocks.length + 1 ∧ bodies.Nodup ∧
      ∀ passed ∈ bodies, ∃ above, layout.Path roots passed above ∧
        above.length ≤ blocks.length := by
  induction path with
  | @root body isRoot =>
      refine ⟨[body], rfl, List.nodup_singleton body, fun passed member => ?_⟩
      cases List.mem_singleton.mp member
      exact ⟨[], .root isRoot, Nat.le_refl _⟩
  | @inner outer inner blocks ref path lists opened induction =>
      obtain ⟨bodies, length, distinct, passes⟩ := induction
      have longer := path.inner lists opened
      refine ⟨inner :: bodies, congrArg Nat.succ length, List.nodup_cons.mpr ⟨?_, distinct⟩, ?_⟩
      -- The path to a body passed earlier is shorter, and there is just one path to each.
      · intro member
        obtain ⟨above, shorter, less⟩ := passes inner member
        cases treelike.path_unique longer shorter
        exact Nat.not_succ_le_self _ less
      · intro passed member
        rcases List.mem_cons.mp member with rfl | further
        · exact ⟨_, longer, Nat.le_refl _⟩
        · obtain ⟨above, shorter, less⟩ := passes passed further
          exact ⟨above, shorter, Nat.le_succ_of_le less⟩

theorem length_lt_size (path : layout.Path roots body blocks) :
    blocks.length < layout.bodies.size := by
  obtain ⟨bodies, length, distinct, passes⟩ := treelike.exists_bodies path
  have known : bodies ⊆ layout.bodies.refs := fun passed member => by
    obtain ⟨above, shorter, -⟩ := passes passed member
    exact Arena.mem_refs_iff.mpr (treelike.stored passed shorter.reachable)
  have fewer := (distinct.subperm known).length_le
  simp only [length, Arena.refs, List.length_map, List.length_range] at fewer
  exact fewer

theorem exists_preorder : ∃ read, layout.preorder roots = .ok read := by
  -- A block on the way takes one from the bound, and a path has fewer blocks than there are bodies.
  refine exists_preorder_of_roots fun root isRoot =>
    treelike.orderly.exists_preorderWithin_of_enough
      (fun depth body (here : ∃ blocks, layout.Path roots body blocks ∧
        layout.bodies.size < blocks.length + depth) => ?_) ?_
      ⟨[], .root isRoot, by simp [blockDepth]⟩
  · obtain ⟨blocks, path, deep⟩ := here
    have short := treelike.length_lt_size path
    exact ⟨by omega, treelike.stored body path.reachable⟩
  · rintro depth outer inner ⟨blocks, path, deep⟩ ⟨ref, lists, opened⟩
    exact ⟨ref :: blocks, path.inner lists opened, by rw [List.length_cons]; omega⟩

theorem mem_path_iff (path : layout.Path roots body blocks) (lists : layout.Lists body ref) :
    block ∈ blocks ↔ layout.Under roots block ∧
      ∃ inner, layout.Opens block inner ∧ layout.Under [inner] ref := by
  constructor
  · intro member
    obtain ⟨outer, above, inner, shorter, -, listsBlock, opened, reached⟩ := path.of_mem member
    exact ⟨⟨outer, shorter.reachable, listsBlock⟩, inner, opened, body, reached, lists⟩
  · rintro ⟨⟨outer, reachedOuter, listsBlock⟩, inner, opened, other, reached, listsToo⟩
    obtain ⟨above, shorter⟩ := reachedOuter.exists_path
    obtain ⟨more, longer⟩ := (shorter.inner listsBlock opened).extend reached
    cases treelike.orderly.lists_unique lists listsToo
    rw [treelike.path_unique path longer]
    exact List.mem_append_right more List.mem_cons_self

theorem exists_paths : ∃ blocksOf : StatementRef → List StatementRef,
    ∀ body blocks ref, layout.Path roots body blocks → layout.Lists body ref →
      blocksOf ref = blocks := by
  have each : ∀ ref, ∃ found, ∀ body blocks, layout.Path roots body blocks →
      layout.Lists body ref → found = blocks := by
    intro ref
    by_cases under : layout.Under roots ref
    · obtain ⟨body, reached, lists⟩ := under
      obtain ⟨found, path⟩ := reached.exists_path
      refine ⟨found, fun other blocks otherPath otherLists => ?_⟩
      cases treelike.orderly.lists_unique lists otherLists
      exact treelike.path_unique path otherPath
    · exact ⟨[], fun body blocks path lists => (under ⟨body, path.reachable, lists⟩).elim⟩
  choose blocksOf isPath using each
  exact ⟨blocksOf, fun body blocks ref => isPath ref body blocks⟩

end Treelike

end Layout

/-! ## Lines -/

def textsOf {α : Type} (text : α → Except Fault String) (elements : List α) :
    Except Fault String :=
  return String.join (← elements.mapM text)

section

variable {α β : Type} {text : α → Except Fault String} {elements : List α}

theorem textsOf_cons (head : α) (rest : List α) :
    textsOf text (head :: rest) = do return (← text head) ++ (← textsOf text rest) := by
  simp [textsOf]

theorem textsOf_append (first second : List α) :
    textsOf text (first ++ second) =
      do return (← textsOf text first) ++ (← textsOf text second) := by
  simp [textsOf]

theorem textsOf_flatMap (elements : List β) (part : β → List α) :
    textsOf text (elements.flatMap part) =
      textsOf (fun element => textsOf text (part element)) elements := by
  induction elements with
  | nil => rfl
  | cons head rest induction =>
      rw [List.flatMap_cons, textsOf_append, textsOf_cons, induction]

theorem textsOf_congr {other : α → Except Fault String}
    (same : ∀ element ∈ elements, text element = other element) :
    textsOf text elements = textsOf other elements := by
  induction elements with
  | nil => rfl
  | cons head rest induction =>
      rw [textsOf_cons, textsOf_cons, same head List.mem_cons_self,
        induction fun element member => same element (List.mem_cons_of_mem _ member)]

theorem textsOf_isOk (each : ∀ element ∈ elements, ∃ written, text element = .ok written) :
    ∃ written, textsOf text elements = .ok written := by
  obtain ⟨texts, mapped, -⟩ := exists_mapM_eq_ok fun element member =>
    (each element member).imp fun _ written => ⟨written, trivial⟩
  exact Except.exists_bind mapped ⟨_, rfl⟩

end

theorem pushn_two_mul_length {α : Type} (elements : List α) :
    "".pushn ' ' (2 * elements.length) = String.join (elements.map fun _ => "  ") := by
  induction elements using List.reverseRecOn with
  | nil => rfl
  | append_singleton front last induction =>
      rw [List.length_append, List.map_append, String.join_append, ← induction]
      change (("".pushn ' ' (2 * front.length)).push ' ').push ' ' = _
      exact String.toList_inj.mp (by simp)

namespace Program

variable {program : Program} {roots : List BodyRef}

def lineWithin (program : Program) (blocks : List StatementRef) (ref : StatementRef) :
    Except Fault String :=
  return String.join (blocks.map fun _ => "  ") ++ (← program.statementText ref) ++ "\n"

theorem listingOf_length {ref : StatementRef} {placed : Placed} (blocks : List StatementRef)
    (inner : BodyRef → Except Fault String)
    (found : program.layout.statements.get? ref = some placed) :
    program.listingOf blocks.length inner ref = do
      let line ← program.lineWithin blocks ref
      match placed.statement.kind with
      | .block body => return line ++ (← inner body)
      | _ => return line := by
  have read : program.statement ref = .ok placed.statement :=
    Layout.statement_eq_ok_iff.mpr ⟨placed.body, found⟩
  simp only [listingOf, lineWithin, listingLine, pushn_two_mul_length, read]
  cases program.statementText ref <;> rfl

theorem listingWithin_eq {blocksOf : StatementRef → List StatementRef}
    (isPath : ∀ body blocks ref, program.layout.Path roots body blocks →
      program.layout.Lists body ref → blocksOf ref = blocks)
    {depth : Nat} {body : BodyRef} {blocks read : List StatementRef}
    (path : program.layout.Path roots body blocks)
    (listed : program.layout.preorderWithin depth body = .ok read) :
    program.listingWithin depth blocks.length body =
      textsOf (fun ref => program.lineWithin (blocksOf ref) ref) read := by
  -- Both recursions go down by the same blocks, and the path gets longer by each of them.
  induction depth generalizing body blocks read with
  | zero => simp [Layout.preorderWithin, Except.throw_eq_ok_iff] at listed
  | succ depth induction =>
      obtain ⟨less, content, isDepth, stored, rfl, each⟩ := Layout.eq_flatMap_segment listed
      cases isDepth
      have ordered : program.layout.order body = .ok content.order :=
        Layout.order_eq_ok_iff.mpr ⟨content, stored, rfl⟩
      rw [textsOf_flatMap, listingWithin, ordered]
      refine textsOf_congr fun ref member => ?_
      have lists : program.layout.Lists body ref := ⟨content, stored, member⟩
      have around : blocksOf ref = blocks := isPath body blocks ref path lists
      rcases Layout.eq_cons_of_withInner (each ref member) with
        ⟨placed, found, ⟨inner, rest, block, restListed, same⟩ | ⟨plain, same⟩⟩
      · rw [same, textsOf_cons, around, listingOf_length blocks _ found, block,
          ← induction (path.inner lists ⟨placed, found, block⟩) restListed]
        rfl
      · rw [same, textsOf_cons, around, listingOf_length blocks _ found]
        split
        · exact (plain _ ‹_›).elim
        · simp [textsOf]

theorem listing_eq {blocksOf : StatementRef → List StatementRef}
    (isPath : ∀ body blocks ref, program.layout.Path program.roots body blocks →
      program.layout.Lists body ref → blocksOf ref = blocks)
    {order : List StatementRef} (listed : program.preorder = .ok order) :
    program.listing = textsOf (fun ref => program.lineWithin (blocksOf ref) ref) order := by
  simp only [preorder, Layout.preorder, Except.bind_eq_ok_iff, Except.pure_eq_ok_iff] at listed
  obtain ⟨segments, mapped, rfl⟩ := listed
  rw [Layout.flatten_of_mapM mapped, textsOf_flatMap]
  refine textsOf_congr fun root isRoot => ?_
  obtain ⟨part, -, partListed⟩ := exists_of_mapM_eq_ok mapped isRoot
  rw [partListed]
  exact listingWithin_eq isPath (.root isRoot) partListed

theorem exists_lineWithin (inRange : program.InRange) (older : program.IteratesOlder)
    (acyclic : program.Acyclic) (blocks : List StatementRef) {ref : StatementRef}
    (has : program.Has ref) : ∃ line, program.lineWithin blocks ref = .ok line := by
  obtain ⟨text, written⟩ := exists_statementText inRange older acyclic has
  exact Except.exists_bind written ⟨_, rfl⟩

/-- The listing has one line for each statement, in the order in which the program is read and in
which every traversal walks it, and the line is set in by two spaces for each block around the
statement. If the texts of the statements can be written, so can the listing. -/
theorem listing_follows_preorder (treelike : program.layout.Treelike program.roots) :
    ∃ (order : List StatementRef) (blocksOf : StatementRef → List StatementRef),
      program.preorder = .ok order ∧
      (∀ ref ∈ order, (blocksOf ref).Nodup ∧
        ∀ block, block ∈ blocksOf ref ↔ block ∈ order ∧
          ∃ inner, program.layout.Opens block inner ∧ program.layout.Under [inner] ref) ∧
      program.listing = (do
        let lines ← order.mapM fun ref => do
          return String.join ((blocksOf ref).map fun _ => "  ") ++
            (← program.statementText ref) ++ "\n"
        return String.join lines) ∧
      (program.InRange → program.IteratesOlder → program.Acyclic →
        ∃ text, program.listing = .ok text) ∧
      ∀ (ε σ : Type) (traversal : Traversal ε σ) (own : σ),
        traversal.walkProgram ⟨program, own⟩ =
          order.forM traversal.walkStatement ⟨program, own⟩ := by
  obtain ⟨order, listed⟩ := treelike.exists_preorder
  obtain ⟨blocksOf, isPath⟩ := treelike.exists_paths
  have lines := listing_eq isPath listed
  refine ⟨order, blocksOf, listed, ?_, lines, ?_, ?_⟩
  · intro ref member
    obtain ⟨body, reached, lists⟩ := (Layout.mem_preorder_iff_under listed).mp member
    obtain ⟨blocks, path⟩ := reached.exists_path
    rw [isPath body blocks ref path lists]
    refine ⟨treelike.nodup_of_path path, fun block => ?_⟩
    rw [treelike.mem_path_iff path lists, Layout.mem_preorder_iff_under listed]
  · intro inRange older acyclic
    rw [lines]
    refine textsOf_isOk fun ref member => ?_
    obtain ⟨⟨placed, stored⟩, -⟩ := Layout.reachable_of_mem_preorder listed member
    exact exists_lineWithin inRange older acyclic _ (Arena.lt_size_of_get? stored)
  · intro ε σ traversal own
    exact bind_of_ok (Walk.ask_of_ok listed)

def nestedBlockCalls : List Call :=
  [.addModule, .addBlock ⟨1⟩, .addType .nominal, .declareType ⟨2⟩ "R" ⟨7⟩, .addBlock ⟨2⟩,
    .addType (.sequence ⟨7⟩), .declareVar ⟨3⟩ "s" ⟨8⟩, .declareVar ⟨1⟩ "n" ⟨1⟩]

/-- Once the sequence has its declaration, that stands before the inner block. -/
theorem listing_follows_preorder_of_nested_blocks :
    ∃ program : Program, program.layout.Treelike program.roots ∧ program.InRange ∧
      program.IteratesOlder ∧ program.Acyclic ∧
      program.listing =
        .ok "block\n  type R\n  type _seq_R\n  block\n    var s: _seq_R\nvar n: Int32\n" ∧
      ∃ blocksOf : StatementRef → List StatementRef,
        (do let lines ← [⟨0⟩, ⟨1⟩, ⟨5⟩, ⟨2⟩, ⟨3⟩, ⟨4⟩].mapM fun ref =>
              program.lineWithin (blocksOf ref) ref
            return String.join lines) = program.listing := by
  obtain ⟨source, isBuilt, final, isFinal, inRange, older, below, listed, text⟩ :
    ∃ source ∈ (layOut nestedBlockCalls).toOption,
      ∃ final ∈ finished? ((Pass.variableTypes .program).run ⟨source, .start {}⟩),
        final.program.InRange ∧ final.program.IteratesOlder ∧
        (∀ type node, final.program.types.get? type = some node →
          ∀ part ∈ node.form.children, part.index < type.index) ∧
        final.program.preorder = .ok [⟨0⟩, ⟨1⟩, ⟨5⟩, ⟨2⟩, ⟨3⟩, ⟨4⟩] ∧
        final.program.listing =
          .ok "block\n  type R\n  type _seq_R\n  block\n    var s: _seq_R\nvar n: Int32\n" := by
    decide +kernel
  have history : Relation.ReflTransGen Program.Operates .initial final.program :=
    (history_of_layOut (Except.toOption_eq_some_iff.mp isBuilt)).tail
      (.pass ⟨_, _, _, .inl ⟨(), finished?_eq_some_iff.mp isFinal⟩, rfl⟩)
  have treelike := Layout.Forest.treelike (forested_of_history history)
  have acyclic := acyclic_of_parts_below below
  obtain ⟨order, blocksOf, isOrder, -, lines, -, -⟩ := listing_follows_preorder treelike
  cases listed.symm.trans isOrder
  exact ⟨final.program, treelike, inRange, older, acyclic, text, blocksOf, lines.symm⟩

end Program

end StructuralTypes

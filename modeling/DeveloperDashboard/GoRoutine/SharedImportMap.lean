import Mathlib.Data.Fintype.List
import DeveloperDashboard.GoRoutine.SharedImport

namespace DeveloperDashboard.GoRoutine

open Library

/-!
# The import map

What every part of an import keeps.  `Extends` is its frame: it adds to the
map and allocates, and it writes to no node that existed before except the one
it was given.  A node that is entered in the map is complete once the part of
the import that entered it returns, and stays so.  The import therefore ends
by returning, with every entry complete, or by a failure of a referent that
the value leads to.
-/

variable {Addr : Type}

/-! The relation between referents and nodes. -/

def ReferentBody.Importable (version : Nat) : ReferentBody Addr → Prop
  | .object _ => 40 ≤ version
  | .glob _ handle => ∃ result, handle = .ok result
  | .captured result => ∃ captured, result = .ok captured
  | _ => True

def Perl.Importable (perl : Perl Addr) (source : Addr) : Prop :=
  (perl.heap source).body.Importable perl.version

variable {perl : Perl Addr} {source : Addr} {body : ReferentBody Addr}

theorem Perl.importable_iff (shape : (perl.heap source).body = body) :
    perl.Importable source ↔ body.Importable perl.version := by
  rw [← shape]
  rfl

inductive SlotOf (child : Scalar Addr → NodeId → Prop) :
    Option (Scalar Addr) → Option NodeId → Prop where
  | empty :
      SlotOf child none none
  | filled
      {value : Scalar Addr}
      {node : NodeId} :
      child value node →
      SlotOf child (some value) (some node)

/-- A part of a container and the node it became, under the same key. -/
def EntryOf {Key : Type} (child : Scalar Addr → NodeId → Prop)
    (entry : Key × Scalar Addr) (slot : Key × NodeId) : Prop :=
  entry.1 = slot.1 ∧ child entry.2 slot.2

/-- A node has the kind and, part by part, the contents of a referent. -/
inductive Mirrors (child : Scalar Addr → NodeId → Prop) :
    ReferentBody Addr → SharedBody → Prop where
  | scalar
      {value : Scalar Addr}
      {node : NodeId} :
      child value node →
      Mirrors child (.scalar value) (.scalarref (some node))
  | array
      {items : List (Option (Scalar Addr))}
      {nodes : SlotArray} :
      List.Forall₂ (SlotOf child) items
        (nodes.slots.take nodes.size) →
      Mirrors child (.array items) (.array nodes)
  | object
      {fields : List (Option (Scalar Addr))}
      {nodes : SlotArray} :
      List.Forall₂ (SlotOf child) fields
        (nodes.slots.take nodes.size) →
      Mirrors child (.object fields) (.object nodes)
  | hash
      {entries : List (List UInt8 × Scalar Addr)}
      {nodes : List (List UInt8 × NodeId)} :
      List.Forall₂ (EntryOf child) entries nodes →
      Mirrors child (.hash entries) (.hash nodes)
  | glob
      {slots : List (GlobSlot × Scalar Addr)}
      {nodes : List (GlobSlot × NodeId)}
      {handle : Option Nat} :
      List.Forall₂ (EntryOf child) slots nodes →
      Mirrors child (.glob slots (.ok handle)) (.glob nodes handle)
  | captured
      {captured : Captured} :
      Mirrors child (.captured (.ok captured)) (.captured captured)

private theorem forall₂_imp_of_mem {First Second : Type}
    {related wider : First → Second → Prop} {firsts : List First}
    {seconds : List Second} (all : List.Forall₂ related firsts seconds)
    (more :
      ∀ first ∈ firsts, ∀ second,
        related first second → wider first second) :
    List.Forall₂ wider firsts seconds := by
  induction all with
  | nil => exact .nil
  | cons isRelated _ ih =>
    refine .cons (more _ List.mem_cons_self _ isRelated) ?_
    exact ih fun first member =>
      more first (List.mem_cons_of_mem _ member)

/-- Contents whose parts are more related. -/
theorem Mirrors.imp {child wider : Scalar Addr → NodeId → Prop}
    {node : SharedBody} (mirrors : Mirrors child body node)
    (more :
      ∀ value ∈ body.scalars, ∀ node,
        child value node → wider value node) :
    Mirrors wider body node := by
  have entries {Key : Type}
      {list : List (Key × Scalar Addr)}
      {nodes : List (Key × NodeId)}
      (related : List.Forall₂ (EntryOf child) list nodes)
      (more :
        ∀ value ∈ list.map Prod.snd, ∀ node,
          child value node → wider value node) :
      List.Forall₂ (EntryOf wider) list nodes :=
    forall₂_imp_of_mem related fun entry member slot isEntry =>
      ⟨isEntry.1, more _ (List.mem_map_of_mem member) _ isEntry.2⟩
  have items
      {list : List (Option (Scalar Addr))}
      {nodes : List (Option NodeId)}
      (related : List.Forall₂ (SlotOf child) list nodes)
      (more :
        ∀ value ∈ list.filterMap id, ∀ node,
          child value node → wider value node) :
      List.Forall₂ (SlotOf wider) list nodes := by
    refine forall₂_imp_of_mem related fun item member slot isSlot => ?_
    cases isSlot with
    | empty => exact .empty
    | filled isChild =>
      exact .filled (more _ (by simpa using member) _ isChild)
  cases mirrors with
  | scalar isChild =>
    exact .scalar (more _ (by simp [ReferentBody.scalars]) _ isChild)
  | array related => exact .array (items related more)
  | object related => exact .object (items related more)
  | hash related => exact .hash (entries related more)
  | glob related => exact .glob (entries related more)
  | captured => exact .captured

variable {value : Scalar Addr}

theorem Mirrors.part {child : Scalar Addr → NodeId → Prop}
    {node : SharedBody} (mirrors : Mirrors child body node)
    (member : value ∈ body.scalars) :
    ∃ part, child value part := by
  have entries {Key : Type}
      {list : List (Key × Scalar Addr)}
      {nodes : List (Key × NodeId)}
      (related : List.Forall₂ (EntryOf child) list nodes)
      (member : value ∈ list.map Prod.snd) :
      ∃ part, child value part := by
    induction related with
    | nil => cases member
    | cons isEntry _ ih =>
      rcases List.mem_cons.mp member with rfl | later
      · exact ⟨_, isEntry.2⟩
      · exact ih later
  have items
      {list : List (Option (Scalar Addr))}
      {nodes : List (Option NodeId)}
      (related : List.Forall₂ (SlotOf child) list nodes)
      (member : some value ∈ list) :
      ∃ part, child value part := by
    induction related with
    | nil => cases member
    | cons isSlot _ ih =>
      rcases List.mem_cons.mp member with rfl | later
      · cases isSlot with
        | filled isChild => exact ⟨_, isChild⟩
      · exact ih later
  cases mirrors with
  | scalar isChild =>
    obtain rfl := List.mem_singleton.mp member
    exact ⟨_, isChild⟩
  | array related =>
    exact items related (by simpa [ReferentBody.scalars] using member)
  | object related =>
    exact items related (by simpa [ReferentBody.scalars] using member)
  | hash related => exact entries related member
  | glob related => exact entries related member
  | captured => cases member

variable {node : NodeId} {state : ImportState Addr}

namespace ImportState

/-- The map is one-to-one and its nodes are allocated. -/
structure WellFormed (state : ImportState Addr) : Prop where
  sources_nodup : (state.map.map Prod.fst).Nodup
  nodes_nodup : (state.map.map Prod.snd).Nodup
  allocated : ∀ {entry}, entry ∈ state.map → entry.2 < state.world.next

/-- The node that a scalar became: its referent's, or a node of its own. -/
def Child (state : ImportState Addr) (value : Scalar Addr)
    (node : NodeId) : Prop :=
  match value with
  | .reference source => (source, node) ∈ state.map
  | value =>
    (state.world.nodes node).body = sharedScalarBody value ∧
      node < state.world.next ∧
      ∀ entry ∈ state.map, entry.2 ≠ node

/-- A referent can be shared and its node has all its contents. -/
def Complete (perl : Perl Addr) (state : ImportState Addr)
    (entry : Addr × NodeId) : Prop :=
  perl.Importable entry.1 ∧
    Mirrors state.Child (perl.heap entry.1).body
      (state.world.nodes entry.2).body

/-- Every entry that is new in the second map is complete there. -/
def Completes (perl : Perl Addr) (before after : ImportState Addr) : Prop :=
  ∀ entry ∈ after.map, entry ∈ before.map ∨ after.Complete perl entry

/-- The frame of a part of the import that owns at most one node. -/
structure Extends
    (own : Option NodeId) (before after : ImportState Addr) : Prop where
  map_prefix : before.map <+: after.map
  added :
    ∀ {entry},
      entry ∈ after.map →
      entry ∈ before.map ∨
        before.world.next ≤ entry.2 ∨ own = some entry.2
  next_le : before.world.next ≤ after.world.next
  frame :
    ∀ {node},
      node < before.world.next →
      own ≠ some node →
      after.world.nodes node = before.world.nodes node
  lockDepth_eq : after.world.lockDepth = before.world.lockDepth

namespace Extends

variable {own : Option NodeId} {before middle after : ImportState Addr}

theorem refl (own : Option NodeId) (state : ImportState Addr) :
    Extends own state state where
  map_prefix := List.prefix_refl _
  added member := Or.inl member
  next_le := Nat.le_refl _
  frame _ _ := rfl
  lockDepth_eq := rfl

theorem trans (first : Extends own before middle)
    (second : Extends own middle after) :
    Extends own before after where
  map_prefix := first.map_prefix.trans second.map_prefix
  added := by
    intro entry member
    rcases second.added member with earlier | fresh | owned
    · exact first.added earlier
    · exact Or.inr (Or.inl (first.next_le.trans fresh))
    · exact Or.inr (Or.inr owned)
  next_le := first.next_le.trans second.next_le
  frame := by
    intro node existed notOwn
    rw [second.frame (existed.trans_le first.next_le) notOwn,
      first.frame existed notOwn]
  lockDepth_eq := second.lockDepth_eq.trans first.lockDepth_eq

theorem weaken (extension : Extends none before after)
    (own : Option NodeId) :
    Extends own before after where
  map_prefix := extension.map_prefix
  added := by
    intro entry member
    rcases extension.added member with earlier | fresh | owned
    · exact Or.inl earlier
    · exact Or.inr (Or.inl fresh)
    · cases owned
  next_le := extension.next_le
  frame existed _ := extension.frame existed (by simp)
  lockDepth_eq := extension.lockDepth_eq

/-- A part that owns a node the caller did not have owns nothing of his. -/
theorem forget (extension : Extends (some node) before after)
    (fresh : before.world.next ≤ node) :
    Extends none before after where
  map_prefix := extension.map_prefix
  added := by
    intro entry member
    rcases extension.added member with earlier | later | owned
    · exact Or.inl earlier
    · exact Or.inr (Or.inl later)
    · obtain rfl := Option.some.inj owned
      exact Or.inr (Or.inl fresh)
  next_le := extension.next_le
  frame := by
    intro other existed _
    refine extension.frame existed ?_
    intro same
    obtain rfl := Option.some.inj same
    exact absurd existed (Nat.not_lt.mpr fresh)
  lockDepth_eq := extension.lockDepth_eq

def Registered (own : Option NodeId) (state : ImportState Addr) : Prop :=
  ∀ node, own = some node → ∃ source, (source, node) ∈ state.map

theorem Registered.of_mem (member : (source, node) ∈ state.map) :
    Registered (some node) state := by
  intro other owned
  obtain rfl := Option.some.inj owned
  exact ⟨source, member⟩

theorem write (before : ImportState Addr) (node : NodeId)
    (contents : SharedNode) :
    Extends (some node) before
      { before with world := before.world.setNode node contents } where
  map_prefix := List.prefix_refl _
  added := Or.inl
  next_le := Nat.le_refl _
  frame := by
    intro other _ notOwn
    apply World.setNode_nodes_of_ne
    rintro rfl
    exact notOwn rfl
  lockDepth_eq := rfl

theorem child (extension : Extends own before after)
    (registered : Registered own before)
    (isChild : before.Child value node) :
    after.Child value node := by
  have plain
      (leaf :
        (before.world.nodes node).body = sharedScalarBody value ∧
          node < before.world.next ∧
          ∀ entry ∈ before.map, entry.2 ≠ node) :
      (after.world.nodes node).body = sharedScalarBody value ∧
        node < after.world.next ∧
        ∀ entry ∈ after.map, entry.2 ≠ node := by
    obtain ⟨body, existed, notContainer⟩ := leaf
    have notOwn : own ≠ some node := by
      intro owned
      obtain ⟨source, member⟩ := registered node owned
      exact notContainer _ member rfl
    refine ⟨?_, existed.trans_le extension.next_le, ?_⟩
    · rw [extension.frame existed notOwn]
      exact body
    · intro entry member
      rcases extension.added member with earlier | fresh | owned
      · exact notContainer entry earlier
      · exact (Nat.ne_of_lt (existed.trans_le fresh)).symm
      · rintro rfl
        exact notOwn owned
  cases value with
  | reference source => exact extension.map_prefix.subset isChild
  | undefValue => exact plain isChild
  | integer value => exact plain isChild
  | number value => exact plain isChild
  | string bytes utf8 => exact plain isChild

theorem complete (extension : Extends own before after)
    (registered : Registered own before) {entry : Addr × NodeId}
    (existed : entry.2 < before.world.next) (notOwn : own ≠ some entry.2)
    (isComplete : before.Complete perl entry) :
    after.Complete perl entry := by
  unfold Complete at isComplete ⊢
  rw [extension.frame existed notOwn]
  exact ⟨isComplete.1,
    isComplete.2.imp fun _ _ _ => extension.child registered⟩

end Extends

theorem Completes.trans {own : Option NodeId}
    {before middle after : ImportState Addr}
    (first : Completes perl before middle)
    (second : Completes perl middle after) (wellFormed : middle.WellFormed)
    (extension : Extends own middle after)
    (registered : Extends.Registered own middle)
    (notOwn :
      ∀ entry ∈ middle.map,
        entry ∈ before.map ∨ own ≠ some entry.2) :
    Completes perl before after := by
  intro entry member
  rcases second entry member with earlier | isComplete
  · rcases notOwn entry earlier with old | different
    · exact Or.inl old
    · rcases first entry earlier with old | wasComplete
      · exact Or.inl old
      · exact Or.inr (extension.complete registered
          (wellFormed.allocated earlier) different wasComplete)
  · exact Or.inr isComplete

end ImportState

/-! What each part of the import does. -/

/-- A scalar that leads to a referent that cannot be shared. -/
def Perl.Fails (perl : Perl Addr) (value : Scalar Addr) : Prop :=
  ∃ source, perl.Reaches value source ∧ ¬ perl.Importable source

theorem Perl.Fails.of_part {part : Scalar Addr}
    (member : part ∈ (perl.heap source).body.scalars)
    (fails : perl.Fails part) :
    perl.Fails (.reference source) := by
  obtain ⟨target, reaches, notImportable⟩ := fails
  exact ⟨target, reaches.of_part member, notImportable⟩

theorem Perl.Fails.direct (notImportable : ¬ perl.Importable source) :
    perl.Fails (.reference source) :=
  ⟨source, .direct source, notImportable⟩

structure Imported
    (perl : Perl Addr) (own : Option NodeId)
    (before after : ImportState Addr) : Prop where
  wellFormed : after.WellFormed
  extension : ImportState.Extends own before after
  completes : ImportState.Completes perl before after

variable {contents : SharedNode}

namespace Imported

variable
  {perl : Perl Addr}
  {own : Option NodeId}
  {before middle after : ImportState Addr}

theorem refl (own : Option NodeId) (wellFormed : before.WellFormed) :
    Imported perl own before before where
  wellFormed := wellFormed
  extension := .refl own before
  completes _ member := Or.inl member

theorem weaken (imported : Imported perl none before after)
    (own : Option NodeId) :
    Imported perl own before after where
  wellFormed := imported.wellFormed
  extension := imported.extension.weaken own
  completes := imported.completes

theorem forget (imported : Imported perl (some node) before after)
    (fresh : before.world.next ≤ node) :
    Imported perl none before after where
  wellFormed := imported.wellFormed
  extension := imported.extension.forget fresh
  completes := imported.completes

/-- One part after the other, when both own the same entry of the map. -/
theorem trans (first : Imported perl own before middle)
    (second : Imported perl own middle after)
    (registered : ImportState.Extends.Registered own before) :
    Imported perl own before after where
  wellFormed := second.wellFormed
  extension := first.extension.trans second.extension
  completes := by
    have stillRegistered : ImportState.Extends.Registered own middle := by
      intro node owned
      obtain ⟨source, member⟩ := registered node owned
      exact ⟨source, first.extension.map_prefix.subset member⟩
    refine first.completes.trans second.completes first.wellFormed
      second.extension stillRegistered ?_
    intro entry member
    by_cases owned : own = some entry.2
    · obtain ⟨source, earlier⟩ := registered entry.2 owned
      have same : entry = (source, entry.2) :=
        List.inj_on_of_nodup_map first.wellFormed.nodes_nodup member
          (first.extension.map_prefix.subset earlier) rfl
      rw [same]
      exact Or.inl earlier
    · exact Or.inr owned

theorem write (wellFormed : before.WellFormed) (node : NodeId)
    (contents : SharedNode) :
    Imported perl (some node) before
      { before with world := before.world.setNode node contents } where
  wellFormed := {
    sources_nodup := wellFormed.sources_nodup
    nodes_nodup := wellFormed.nodes_nodup
    allocated := wellFormed.allocated }
  extension := .write before node contents
  completes _ := Or.inl

theorem after_write
    (imported :
      Imported perl (some node)
        { before with world := before.world.setNode node contents }
        after) :
    Imported perl (some node) before after where
  wellFormed := imported.wellFormed
  extension :=
    (ImportState.Extends.write before node contents).trans
      imported.extension
  completes := imported.completes

theorem enter
    (imported :
      Imported perl (some node)
        ⟨before.world.setNode node contents, before.map ++ [(source, node)]⟩
        after)
    (isComplete : after.Complete perl (source, node)) :
    Imported perl (some node) before after where
  wellFormed := imported.wellFormed
  extension := {
    map_prefix :=
      (List.prefix_append _ _).trans imported.extension.map_prefix
    added := by
      intro entry member
      rcases imported.extension.added member with earlier | later
      · rcases List.mem_append.mp earlier with old | new
        · exact Or.inl old
        · obtain rfl := List.mem_singleton.mp new
          exact Or.inr (Or.inr rfl)
      · exact Or.inr later
    next_le := imported.extension.next_le
    frame := by
      intro other existed notOwn
      rw [imported.extension.frame existed notOwn]
      apply World.setNode_nodes_of_ne
      rintro rfl
      exact notOwn rfl
    lockDepth_eq := imported.extension.lockDepth_eq }
  completes := by
    intro entry member
    rcases imported.completes entry member with earlier | complete
    · rcases List.mem_append.mp earlier with old | new
      · exact Or.inl old
      · obtain rfl := List.mem_singleton.mp new
        exact Or.inr isComplete
    · exact Or.inr complete

end Imported

theorem ImportState.WellFormed.enter (wellFormed : state.WellFormed)
    (newSource : source ∉ state.map.map Prod.fst)
    (newNode : node ∉ state.map.map Prod.snd)
    (existed : node < state.world.next) (contents : SharedNode) :
    ImportState.WellFormed
      ⟨state.world.setNode node contents,
        state.map ++ [(source, node)]⟩ where
  sources_nodup := by
    rw [List.map_append]
    exact wellFormed.sources_nodup.append (by simp)
      (by simpa using newSource)
  nodes_nodup := by
    rw [List.map_append]
    exact wellFormed.nodes_nodup.append (by simp)
      (by simpa using newNode)
  allocated := by
    intro entry member
    rcases List.mem_append.mp member with old | new
    · exact wellFormed.allocated old
    · obtain rfl := List.mem_singleton.mp new
      exact existed

/-- The fuel covers every referent that is not in the map. -/
def Fueled [Fintype Addr] (fuel : Nat) (state : ImportState Addr) : Prop :=
  Fintype.card Addr ≤ state.map.length + fuel

theorem Fueled.extend [Fintype Addr] {fuel : Nat} {own : Option NodeId}
    {before after : ImportState Addr} (fueled : Fueled fuel before)
    (extension : ImportState.Extends own before after) :
    Fueled fuel after :=
  fueled.trans
    (Nat.add_le_add_right extension.map_prefix.length_le fuel)

/-- How a recursive call ends. -/
def ImportsChildren [Fintype Addr] (perl : Perl Addr) (fuel : Nat)
    (importChild : Scalar Addr → ImportM Addr NodeId) : Prop :=
  ∀ value state,
    ImportState.WellFormed state →
    Fueled fuel state →
    (importChild value state).Ends
      (fun node after =>
        Imported perl none state after ∧ after.Child value node)
      (fun _ _ => perl.Fails value)

section Loops

variable
  [Fintype Addr]
  {perl : Perl Addr}
  {fuel : Nat}
  {importChild : Scalar Addr → ImportM Addr NodeId}

section

variable (children : ImportsChildren perl fuel importChild)

include children

theorem importPart_ends {Value : Type}
    {change : NodeId → SharedBody → SharedBody} {rest : ImportM Addr Value}
    {returns : Value → ImportState Addr → Prop}
    {croaks : String → ImportState Addr → Prop}
    (wellFormed : state.WellFormed)
    (registered : ∃ source, (source, node) ∈ state.map)
    (fueled : Fueled fuel state)
    (onFail : perl.Fails value → ∀ error after, croaks error after)
    (onward :
      ∀ child written,
        Imported perl (some node) state written →
        written.Child value child →
        (written.world.nodes node).body =
          change child (state.world.nodes node).body →
        (rest written).Ends returns croaks) :
    ((importChild value >>= fun child =>
      changeBody node (change child) >>= fun _ => rest) state).Ends
        returns croaks := by
  obtain ⟨source, member⟩ := registered
  refine ((children value state wellFormed fueled).mono
    (fun _ _ => id) (fun error after fails =>
      onFail fails error after)).andThen ?_
  rintro child next ⟨imported, isChild⟩
  have existed := wellFormed.allocated member
  have nextMember := imported.extension.map_prefix.subset member
  have unchanged :
      next.world.nodes node = state.world.nodes node :=
    imported.extension.frame existed (by simp)
  have written :
      Imported perl (some node) next
        { next with
          world :=
            next.world.setBody node
              (change child (next.world.nodes node).body) } :=
    .write imported.wellFormed node _
  refine onward child _
    ((imported.weaken (some node)).trans written (.of_mem member))
    (written.extension.child (.of_mem nextMember) isChild) ?_
  rw [← unchanged]
  exact World.setBody_body_self _ _ _

/-- The loop over the entries of a hash or the slots of a glob. -/
theorem importEntries_ends {Key : Type}
    {add : Key → NodeId → SharedBody → SharedBody}
    {wrap : List (Key × NodeId) → SharedBody}
    (adds :
      ∀ nodes key child,
        add key child (wrap nodes) = wrap (nodes ++ [(key, child)]))
    (entries : List (Key × Scalar Addr)) {filled : List (Key × NodeId)}
    (wellFormed : state.WellFormed)
    (registered : ∃ source, (source, node) ∈ state.map)
    (fueled : Fueled fuel state)
    (body : (state.world.nodes node).body = wrap filled) :
    (importEntries importChild node add entries state).Ends
      (fun _ after =>
        Imported perl (some node) state after ∧
          ∃ nodes,
            (after.world.nodes node).body = wrap (filled ++ nodes) ∧
              List.Forall₂ (EntryOf after.Child) entries nodes)
      (fun _ _ => ∃ value ∈ entries.map Prod.snd, perl.Fails value) := by
  induction entries generalizing state filled with
  | nil =>
    exact ⟨.refl _ wellFormed, [], by simpa using body, .nil⟩
  | cons entry rest ih =>
    obtain ⟨key, value⟩ := entry
    obtain ⟨source, member⟩ := registered
    unfold importEntries
    refine importPart_ends children wellFormed ⟨source, member⟩ fueled
      (fun fails _ _ => ⟨value, by simp, fails⟩) ?_
    intro child written imported isChild newBody
    have nextMember := imported.extension.map_prefix.subset member
    rw [body, adds] at newBody
    refine (ih imported.wellFormed
      ⟨source, nextMember⟩ (fueled.extend imported.extension)
      newBody).mono ?_ ?_
    · rintro _ after ⟨restImported, nodes, restBody, related⟩
      refine ⟨imported.trans restImported (.of_mem member),
        (key, child) :: nodes, by simpa using restBody, ?_⟩
      exact .cons
        ⟨rfl, restImported.extension.child (.of_mem nextMember)
          isChild⟩
        related
    · rintro _ _ ⟨failing, later, fails⟩
      exact ⟨failing, List.mem_cons_of_mem _ later, fails⟩

/-- The loop over the elements of an array or the fields of an object. -/
theorem importItems_ends {wrap : SlotArray → SharedBody}
    (sets :
      ∀ array index child,
        SharedBody.setItem index child (wrap array) =
          wrap (array.set index (some child)))
    (items : List (Option (Scalar Addr))) {array : SlotArray}
    {filled tail : List (Option NodeId)} (wellFormed : state.WellFormed)
    (registered : ∃ source, (source, node) ∈ state.map)
    (fueled : Fueled fuel state)
    (body : (state.world.nodes node).body = wrap array)
    (slots :
      array.slots =
        filled ++ (List.replicate items.length none ++ tail)) :
    (importItems importChild node filled.length items state).Ends
      (fun _ after =>
        Imported perl (some node) state after ∧
          ∃ nodes final,
            (after.world.nodes node).body = wrap final ∧
              final.size = array.size ∧
              final.slots = filled ++ (nodes ++ tail) ∧
              List.Forall₂ (SlotOf after.Child) items nodes)
      (fun _ _ => ∃ value ∈ items.filterMap id, perl.Fails value) := by
  induction items generalizing state array filled with
  | nil =>
    exact ⟨.refl _ wellFormed, [], array, body, rfl, slots, .nil⟩
  | cons item rest ih =>
    obtain ⟨source, member⟩ := registered
    have shifted (slot : Option NodeId) :
        filled ++ (slot :: (List.replicate rest.length none ++ tail)) =
          (filled ++ [slot]) ++
            (List.replicate rest.length none ++ tail) := by
      simp
    have next (slot : Option NodeId) :
        filled.length + 1 = (filled ++ [slot]).length := by
      simp
    cases item with
    | none =>
      unfold importItems
      rw [next none]
      refine (ih wellFormed ⟨source, member⟩ fueled
        body (slots.trans (shifted none))).mono ?_ ?_
      · rintro _ after
          ⟨imported, nodes, final, finalBody, size, contents, related⟩
        refine ⟨imported, none :: nodes, final, finalBody, size, ?_,
          .cons .empty related⟩
        simpa using contents
      · rintro _ _ ⟨failing, later, fails⟩
        exact ⟨failing, by simpa using later, fails⟩
    | some value =>
      unfold importItems
      refine importPart_ends children wellFormed ⟨source, member⟩
        fueled (fun fails _ _ => ⟨value, by simp, fails⟩) ?_
      intro child written imported isChild newBody
      have nextMember := imported.extension.map_prefix.subset member
      rw [body, sets] at newBody
      have newSlots :
          (array.set filled.length (some child)).slots =
            (filled ++ [some child]) ++
              (List.replicate rest.length none ++ tail) := by
        change array.slots.set filled.length (some child) = _
        rw [slots, List.set_append_right _ _ (Nat.le_refl _)]
        simp [List.replicate_succ]
      rw [next (some child)]
      refine (ih imported.wellFormed
        ⟨source, nextMember⟩ (fueled.extend imported.extension)
        newBody newSlots).mono ?_ ?_
      · rintro _ after ⟨restImported, nodes, final, finalBody, size,
          contents, related⟩
        refine ⟨imported.trans restImported (.of_mem member),
          some child :: nodes, final, finalBody, size, ?_, ?_⟩
        · simpa using contents
        · exact .cons
            (.filled (restImported.extension.child
              (.of_mem nextMember) isChild))
            related
      · rintro _ _ ⟨failing, later, fails⟩
        exact ⟨failing, by simpa using Or.inr later, fails⟩

end

end Loops

/-- The slots that an import lays out for an array. -/
theorem SlotArray.ofSize_slots (size : Nat) :
    ∃ tail, (SlotArray.ofSize size).slots =
      [] ++ (List.replicate size none ++ tail) := by
  refine ⟨List.replicate ((SlotArray.ofSize size).slots.length - size)
    none, ?_⟩
  have covers : size ≤ (SlotArray.ofSize size).slots.length :=
    SlotArray.le_length_reserved [] size
  have allEmpty :
      (SlotArray.ofSize size).slots =
        List.replicate (SlotArray.ofSize size).slots.length none := by
    rw [List.eq_replicate_iff]
    refine ⟨rfl, ?_⟩
    intro slot member
    unfold ofSize reserved at member
    split at member
    · exact List.eq_of_mem_replicate (by simpa using member)
    · cases member
  rw [List.nil_append, List.replicate_append_replicate,
    Nat.add_sub_cancel' covers]
  exact allEmpty

section Referent

variable
  [Fintype Addr]
  {perl : Perl Addr}
  {fuel : Nat}
  {importChild : Scalar Addr → ImportM Addr NodeId}
  {state : ImportState Addr}
  {node : NodeId}
  {source : Addr}

section

variable (children : ImportsChildren perl fuel importChild)

include children

/-- The elements of an array or the fields of an object are imported. -/
theorem importItems_completes {wrap : SlotArray → SharedBody}
    (sets :
      ∀ array index child,
        SharedBody.setItem index child (wrap array) =
          wrap (array.set index (some child)))
    (items : List (Option (Scalar Addr)))
    (entered :
      ImportState.WellFormed
        ⟨state.world.setNode node contents, state.map ++ [(source, node)]⟩)
    (fueled : Fueled (fuel + 1) state)
    (body : contents.body = wrap (.ofSize items.length))
    (importable : perl.Importable source)
    (mirrors :
      ∀ {child : Scalar Addr → NodeId → Prop} {nodes : SlotArray},
        List.Forall₂ (SlotOf child) items
          (nodes.slots.take nodes.size) →
        Mirrors child (perl.heap source).body (wrap nodes))
    (parts : (perl.heap source).body.scalars = items.filterMap id) :
    (importItems importChild node 0 items
      ⟨state.world.setNode node contents,
        state.map ++ [(source, node)]⟩).Ends
      (fun _ after =>
        Imported perl (some node) state after ∧
          (source, node) ∈ after.map)
      (fun _ _ => perl.Fails (.reference source)) := by
  obtain ⟨tail, slots⟩ := SlotArray.ofSize_slots items.length
  have enteredFuel :
      Fueled fuel
        (⟨state.world.setNode node contents,
          state.map ++ [(source, node)]⟩ : ImportState Addr) := by
    unfold Fueled at fueled ⊢
    simp only [List.length_append, List.length_singleton]
    omega
  refine (importItems_ends children sets items entered
    ⟨source, by simp⟩ enteredFuel
    (by rw [World.setNode_nodes_self]; exact body) slots).mono ?_ ?_
  · rintro _ after ⟨imported, nodes, final, finalBody, size, laidOut,
      related⟩
    have filledSlots :
        final.slots.take final.size = nodes := by
      have sameLength : nodes.length = final.size := by
        rw [size]
        exact related.length_eq.symm
      rw [laidOut, ← sameLength]
      simp
    have isComplete : after.Complete perl (source, node) := by
      refine ⟨importable, ?_⟩
      rw [finalBody]
      exact mirrors (by rw [filledSlots]; exact related)
    exact ⟨imported.enter isComplete,
      imported.extension.map_prefix.subset (by simp)⟩
  · rintro _ _ ⟨part, member, fails⟩
    exact fails.of_part (by rw [parts]; exact member)

/-- The entries of a hash or the slots of a glob are imported. -/
theorem importEntries_completes {Key : Type}
    {add : Key → NodeId → SharedBody → SharedBody}
    {wrap : List (Key × NodeId) → SharedBody}
    (adds :
      ∀ nodes key child,
        add key child (wrap nodes) = wrap (nodes ++ [(key, child)]))
    (entries : List (Key × Scalar Addr))
    (entered :
      ImportState.WellFormed
        ⟨state.world.setNode node contents, state.map ++ [(source, node)]⟩)
    (fueled : Fueled (fuel + 1) state) (body : contents.body = wrap [])
    (parts : (perl.heap source).body.scalars = entries.map Prod.snd) :
    (importEntries importChild node add entries
      ⟨state.world.setNode node contents,
        state.map ++ [(source, node)]⟩).Ends
      (fun _ after =>
        Imported perl (some node)
          ⟨state.world.setNode node contents,
            state.map ++ [(source, node)]⟩ after ∧
          ∃ nodes,
            (after.world.nodes node).body = wrap nodes ∧
              List.Forall₂ (EntryOf after.Child) entries nodes)
      (fun _ _ => perl.Fails (.reference source)) := by
  have enteredFuel :
      Fueled fuel
        (⟨state.world.setNode node contents,
          state.map ++ [(source, node)]⟩ : ImportState Addr) := by
    unfold Fueled at fueled ⊢
    simp only [List.length_append, List.length_singleton]
    omega
  refine (importEntries_ends children adds entries entered
    ⟨source, by simp⟩ enteredFuel
    (by rw [World.setNode_nodes_self]; exact body)).mono ?_ ?_
  · rintro _ after ⟨imported, nodes, finalBody, related⟩
    exact ⟨imported, nodes, finalBody, related⟩
  · rintro _ _ ⟨part, member, fails⟩
    exact fails.of_part (by rw [parts]; exact member)

theorem sharedImportReferent_ends
    (wellFormed : state.WellFormed)
    (newSource : source ∉ state.map.map Prod.fst)
    (newNode : node ∉ state.map.map Prod.snd)
    (existed : node < state.world.next) (fueled : Fueled (fuel + 1) state) :
    (sharedImportReferent perl importChild node source state).Ends
      (fun _ after =>
        Imported perl (some node) state after ∧
          (source, node) ∈ after.map)
      (fun _ _ => perl.Fails (.reference source)) := by
  have entered (contents : SharedNode) :=
    wellFormed.enter newSource newNode existed contents
  have finish
      {after : ImportState Addr}
      {contents : SharedNode}
      (imported :
        Imported perl (some node)
          ⟨state.world.setNode node contents,
            state.map ++ [(source, node)]⟩ after)
      (isComplete : after.Complete perl (source, node)) :
      Imported perl (some node) state after ∧
        (source, node) ∈ after.map :=
    ⟨imported.enter isComplete,
      imported.extension.map_prefix.subset (by simp)⟩
  unfold sharedImportReferent
  cases shape : (perl.heap source).body with
  | scalar value =>
    refine importPart_ends children (entered _) ⟨source, by simp⟩ ?_
      (fun fails _ _ => fails.of_part (by simp [shape,
        ReferentBody.scalars])) ?_
    · unfold Fueled at fueled ⊢
      simp only [List.length_append, List.length_singleton]
      omega
    · intro child written imported isChild newBody
      refine finish imported ⟨(Perl.importable_iff shape).mpr trivial, ?_⟩
      rw [newBody, shape]
      exact .scalar isChild
  | array items =>
    refine importItems_completes children (fun _ _ _ => rfl) items
      (entered _) fueled rfl ((Perl.importable_iff shape).mpr trivial)
      ?_ (by rw [shape]; rfl)
    intro child nodes related
    rw [shape]
    exact .array related
  | hash entries =>
    refine (importEntries_completes children (fun _ _ _ => rfl)
      entries (entered _) fueled rfl (by rw [shape]; rfl)).mono ?_
      (fun _ _ => id)
    rintro _ after ⟨imported, nodes, finalBody, related⟩
    refine finish imported ⟨(Perl.importable_iff shape).mpr trivial, ?_⟩
    rw [finalBody, shape]
    exact .hash related
  | object fields =>
    dsimp only
    split
    · next recent =>
      refine importItems_completes children (fun _ _ _ => rfl) fields
        (entered _) fueled rfl ((Perl.importable_iff shape).mpr recent)
        ?_ (by rw [shape]; rfl)
      intro child nodes related
      rw [shape]
      exact .object related
    · next tooOld =>
        apply Perl.Fails.direct
        rw [Perl.importable_iff shape]
        exact tooOld
  | glob slots handle =>
    have adds (nodes : List (GlobSlot × NodeId)) (slot : GlobSlot)
        (child : NodeId) :
        SharedBody.addGlobSlot slot child (.glob nodes none) =
          .glob (nodes ++ [(slot, child)]) none := rfl
    refine (importEntries_completes children adds slots (entered _)
      fueled rfl (by rw [shape]; rfl)).andThen ?_
    rintro _ after ⟨imported, nodes, finalBody, related⟩
    cases handle with
    | error error =>
      apply Perl.Fails.direct
      rw [Perl.importable_iff shape]
      rintro ⟨result, same⟩
      cases same
    | ok handle =>
      have member :
          (source, node) ∈ state.map ++ [(source, node)] := by
        simp
      have registered :
          ImportState.Extends.Registered (some node) after :=
        .of_mem (imported.extension.map_prefix.subset member)
      have written :
          Imported perl (some node) after
            { after with
              world :=
                after.world.setBody node (.glob nodes handle) } :=
        .write imported.wellFormed node _
      change
        Imported perl (some node) state
            { after with world := after.world.setBody node _ } ∧
          (source, node) ∈ after.map
      rw [finalBody]
      refine finish (imported.trans written (.of_mem member))
        ⟨(Perl.importable_iff shape).mpr ⟨handle, rfl⟩, ?_⟩
      rw [shape, World.setBody_body_self]
      exact .glob (related.imp fun _ _ entry =>
        ⟨entry.1, written.extension.child registered entry.2⟩)
  | captured result =>
    cases result with
    | error error =>
      apply Perl.Fails.direct
      rw [Perl.importable_iff shape]
      rintro ⟨captured, same⟩
      cases same
    | ok captured =>
      refine finish (.refl _ (entered _))
        ⟨(Perl.importable_iff shape).mpr ⟨captured, rfl⟩, ?_⟩
      rw [shape, World.setNode_nodes_self]
      exact .captured

end

end Referent

section Value

variable
  [DecidableEq Addr]
  [Fintype Addr]
  {perl : Perl Addr}
  {fuel : Nat}
  {importChild : Scalar Addr → ImportM Addr NodeId}
  {state : ImportState Addr}

omit [DecidableEq Addr] in
theorem Fueled.positive (fueled : Fueled fuel state)
    (wellFormed : state.WellFormed)
    (newSource : source ∉ state.map.map Prod.fst) :
    ∃ less, fuel = less + 1 := by
  have bounded :=
    (List.nodup_cons.mpr ⟨newSource, wellFormed.sources_nodup⟩
      ).length_le_card
  rw [List.length_cons, List.length_map] at bounded
  unfold Fueled at fueled
  exact Nat.exists_eq_succ_of_ne_zero (by omega)

omit [Fintype Addr] in
theorem sharedImportAt_of_found (perl : Perl Addr)
    (importChild : Scalar Addr → ImportM Addr NodeId) (node : NodeId)
    {existing : NodeId}
    (found : importMapFind state.map source = some existing) :
    sharedImportAt perl importChild node (.reference source) state =
      .returned existing state := by
  unfold sharedImportAt
  change Croak.andThen Croak.get _ state = _
  unfold Croak.andThen Croak.get
  dsimp only
  rw [found]
  rfl

omit [Fintype Addr] in
theorem sharedImportAt_of_not_found (perl : Perl Addr)
    (importChild : Scalar Addr → ImportM Addr NodeId) (node : NodeId)
    (found : importMapFind state.map source = none) :
    sharedImportAt perl importChild node (.reference source) state =
      (sharedImportReferent perl importChild node source >>=
        fun _ => pure node)
          { state with world := state.world.setNode node .clear } := by
  unfold sharedImportAt
  change Croak.andThen Croak.get _ state = _
  unfold Croak.andThen Croak.get
  dsimp only
  rw [found]
  rfl

theorem sharedImportAt_ends
    (children :
      ∀ less, fuel = less + 1 → ImportsChildren perl less importChild)
    (value : Scalar Addr) (wellFormed : state.WellFormed)
    (newNode : node ∉ state.map.map Prod.snd)
    (existed : node < state.world.next) (fueled : Fueled fuel state) :
    (sharedImportAt perl importChild node value state).Ends
      (fun result after =>
        Imported perl (some node) state after ∧
          after.Child value result)
      (fun _ _ => perl.Fails value) := by
  have plain (contents : SharedNode) :
      Imported perl (some node) state
          { state with world := state.world.setNode node contents } ∧
        ((state.world.setNode node contents).nodes node).body =
            contents.body ∧
          node < (state.world.setNode node contents).next ∧
          ∀ entry ∈ state.map, entry.2 ≠ node := by
    refine ⟨.write wellFormed node contents, ?_, existed, ?_⟩
    · rw [World.setNode_nodes_self]
    · rintro entry member rfl
      exact newNode (List.mem_map_of_mem member)
  cases value with
  | undefValue => exact plain _
  | integer value => exact plain _
  | number value => exact plain _
  | string bytes utf8 => exact plain _
  | reference source =>
    cases found : importMapFind state.map source with
    | some existing =>
      obtain ⟨before, later, split, _⟩ :=
        List.lookup_eq_some_iff.mp found
      rw [sharedImportAt_of_found perl importChild node found]
      refine ⟨.refl _ wellFormed, ?_⟩
      change (source, existing) ∈ state.map
      rw [split]
      simp
    | none =>
      have newSource : source ∉ state.map.map Prod.fst := by
        intro member
        obtain ⟨entry, inside, rfl⟩ := List.mem_map.mp member
        have different :=
          List.lookup_eq_none_iff.mp found entry inside
        simp at different
      obtain ⟨less, rfl⟩ := fueled.positive wellFormed newSource
      let cleared : ImportState Addr :=
        { state with world := state.world.setNode node .clear }
      have clearing : Imported perl (some node) state cleared :=
        .write wellFormed node .clear
      have referent :=
        sharedImportReferent_ends (children less rfl)
          clearing.wellFormed
          newSource newNode existed fueled
      rw [sharedImportAt_of_not_found perl importChild node found]
      refine referent.andThen ?_
      rintro _ after ⟨imported, member⟩
      exact ⟨imported.after_write, member⟩

theorem sharedImportLevel_ends
    (children :
      ∀ less, fuel = less + 1 → ImportsChildren perl less importChild)
    (value : Scalar Addr) (preferred : Option NodeId)
    (wellFormed : state.WellFormed)
    (free :
      ∀ node,
        preferred = some node →
        node ∉ state.map.map Prod.snd ∧ node < state.world.next)
    (fueled : Fueled fuel state) :
    (sharedImportLevel perl importChild value preferred state).Ends
      (fun result after =>
        Imported perl preferred state after ∧
          after.Child value result)
      (fun _ _ => perl.Fails value) := by
  cases preferred with
  | some node =>
    obtain ⟨newNode, existed⟩ := free node rfl
    exact sharedImportAt_ends children value wellFormed newNode
      existed fueled
  | none =>
    have newNode : state.world.next ∉ state.map.map Prod.snd := by
      intro member
      obtain ⟨entry, inside, same⟩ := List.mem_map.mp member
      exact absurd (wellFormed.allocated inside)
        (by rw [same]; exact Nat.lt_irrefl _)
    let allocated : ImportState Addr :=
      { state with
        world :=
          { state.world.setNode state.world.next .clear with
            next := state.world.next + 1 } }
    have allocatedFormed : allocated.WellFormed := {
      sources_nodup := wellFormed.sources_nodup
      nodes_nodup := wellFormed.nodes_nodup
      allocated := fun member =>
        Nat.lt_succ_of_lt (wellFormed.allocated member) }
    have extension :
        ImportState.Extends (some state.world.next) state
          allocated := {
      map_prefix := List.prefix_refl _
      added := Or.inl
      next_le := Nat.le_succ _
      frame := by
        intro other existed _
        exact World.setNode_nodes_of_ne _ (Nat.ne_of_lt existed) _
      lockDepth_eq := rfl }
    have fresh :
        state.world.next < allocated.world.next :=
      Nat.lt_succ_self _
    refine (sharedImportAt_ends children value allocatedFormed newNode
      fresh fueled).mono ?_ (fun _ _ => id)
    rintro result after ⟨imported, isChild⟩
    have whole : Imported perl (some state.world.next) state after := {
      wellFormed := imported.wellFormed
      extension := extension.trans imported.extension
      completes := imported.completes }
    exact ⟨whole.forget (Nat.le_refl _), isChild⟩

/-- `shared_import_value` imports what can be shared and fails otherwise. -/
theorem sharedImportValue_ends (fuel : Nat) (value : Scalar Addr)
    (preferred : Option NodeId) {state : ImportState Addr}
    (wellFormed : state.WellFormed)
    (free :
      ∀ node,
        preferred = some node →
        node ∉ state.map.map Prod.snd ∧ node < state.world.next)
    (fueled : Fueled fuel state) :
    (sharedImportValue perl fuel value preferred state).Ends
      (fun result after =>
        Imported perl preferred state after ∧
          after.Child value result)
      (fun _ _ => perl.Fails value) := by
  induction fuel generalizing value preferred state with
  | zero =>
    refine sharedImportLevel_ends ?_ value preferred wellFormed free
      fueled
    intro less impossible
    cases impossible
  | succ fuel ih =>
    refine sharedImportLevel_ends ?_ value preferred wellFormed free
      fueled
    intro less same child inner innerFormed innerFueled
    obtain rfl := Nat.succ.inj same
    exact ih child none innerFormed
      (by intro node impossible; cases impossible) innerFueled

omit [DecidableEq Addr] [Fintype Addr] in
theorem reached_of_completes {result : NodeId}
    (completes : ∀ entry ∈ state.map, state.Complete perl entry)
    (isChild : state.Child value result)
    (reaches : perl.Reaches value source) :
    ∃ node, (source, node) ∈ state.map := by
  induction reaches generalizing result with
  | direct target =>
    exact ⟨result, isChild⟩
  | step _ member ih =>
    obtain ⟨node, entered⟩ := ih isChild
    exact (completes _ entered).2.part member

omit [DecidableEq Addr] [Fintype Addr] in
theorem not_fails_of_imported {result : NodeId} {after : ImportState Addr}
    {world : World} {preferred : Option NodeId}
    (imported : Imported perl preferred ⟨world, []⟩ after)
    (isChild : after.Child value result) :
    ¬ perl.Fails value := by
  rintro ⟨source, reaches, notImportable⟩
  have completes : ∀ entry ∈ after.map, after.Complete perl entry :=
    fun entry member =>
      (imported.completes entry member).resolve_left List.not_mem_nil
  obtain ⟨node, entered⟩ :=
    reached_of_completes completes isChild reaches
  exact notImportable (completes _ entered).1

/-- `shared_import_into` ends well exactly for what can be shared. -/
theorem sharedImportInto_ends (perl : Perl Addr) {dest : NodeId}
    (value : Scalar Addr) {world : World} (allocated : dest < world.next) :
    (sharedImportInto perl dest value world).Ends
      (fun _ _ => ¬ perl.Fails value)
      (fun _ _ => perl.Fails value) := by
  have start : ImportState.WellFormed (⟨world, []⟩ : ImportState Addr) := {
    sources_nodup := List.nodup_nil
    nodes_nodup := List.nodup_nil
    allocated := fun member => by cases member }
  have ends :=
    @sharedImportValue_ends _ _ _ perl (Fintype.card Addr) value
      (some dest) _ start
      (by
        rintro node ⟨⟩
        exact ⟨List.not_mem_nil, allocated⟩)
      (by simp [Fueled])
  unfold sharedImportInto
  cases run :
      sharedImportValue perl (Fintype.card Addr) value (some dest)
        ⟨world, []⟩ with
  | returned node state =>
    rw [run] at ends
    exact not_fails_of_imported ends.1 ends.2
  | croaked error state =>
    rw [run] at ends
    exact ends
  | undefined =>
    rw [run] at ends
    exact ends.elim
  | outOfFuel =>
    rw [run] at ends
    exact ends.elim

end Value

end DeveloperDashboard.GoRoutine

import DeveloperDashboard.GoRoutine.SharedImportMap

namespace DeveloperDashboard.GoRoutine

open Library

/-!
# Importing preserves the shape

For a graph of scalars, arrays and hashes the import map is a bijection
between the containers and their nodes, so that sharing and cycles survive.
The leaves survive as well, except the integers that only fit an unsigned
slot, which a node stores as an IV.
-/

variable {Addr : Type}


/-- A scalar is the given one or a part of a container that one leads to. -/
def Perl.Holds (perl : Perl Addr) (value part : Scalar Addr) : Prop :=
  part = value ∨
    ∃ source,
      perl.Reaches value source ∧
        part ∈ (perl.heap source).body.scalars

def Perl.PlainGraph (perl : Perl Addr) (value : Scalar Addr) : Prop :=
  ∀ source,
    perl.Reaches value source →
    match (perl.heap source).body with
    | .scalar _ => True
    | .array _ => True
    | .hash _ => True
    | _ => False

/-- A node stands for a scalar, with its value or as its referent's image. -/
inductive Pictures
    (world : World) (image : Addr → NodeId) :
    Scalar Addr → NodeId → Prop where
  | reference (source : Addr) :
      Pictures world image (.reference source) (image source)
  | undefValue
      {node : NodeId} :
      (world.nodes node).body = .undefValue →
      Pictures world image .undefValue node
  | integer
      {value : PerlInteger}
      {node : NodeId}
      {iv : Int64} :
      (world.nodes node).body = .iv iv →
      iv.toInt = value.value →
      Pictures world image (.integer value) node
  | number
      {value : Double}
      {node : NodeId} :
      (world.nodes node).body = .nv value →
      Pictures world image (.number value) node
  | string
      {bytes : List UInt8}
      {utf8 : Bool}
      {node : NodeId} :
      (world.nodes node).body = .pv bytes utf8 →
      Pictures world image (.string bytes utf8) node

/--
The nodes are the source graph under a map that is one-to-one on the containers
the value leads to, with the value of every leaf.
-/
def PreservesShape (perl : Perl Addr) (value : Scalar Addr) (node : NodeId)
    (world : World) : Prop :=
  ∃ image : Addr → NodeId,
    (∀ first second, perl.Reaches value first →
      perl.Reaches value second →
      (image first = image second ↔ first = second)) ∧
    Pictures world image value node ∧
    ∀ source,
      perl.Reaches value source →
      Mirrors (Pictures world image) (perl.heap source).body
        (world.nodes (image source)).body

variable {node : NodeId}

theorem Pictures.integer_le {world : World} {image : Addr → NodeId}
    {value : PerlInteger}
    (pictures : Pictures world image (.integer value) node) :
    value.value ≤ ivMax := by
  cases pictures with
  | integer _ same =>
    rw [← same]
    have bound := Int64.toInt_lt ‹Int64›
    unfold ivMax
    omega

theorem PreservesShape.integer_le {perl : Perl Addr} {value : Scalar Addr}
    {world : World} (preserves : PreservesShape perl value node world)
    {integer : PerlInteger} (holds : perl.Holds value (.integer integer)) :
    integer.value ≤ ivMax := by
  obtain ⟨image, _, root, containers⟩ := preserves
  rcases holds with rfl | ⟨source, reaches, member⟩
  · exact root.integer_le
  · obtain ⟨part, pictured⟩ := (containers source reaches).part member
    exact pictured.integer_le

section Shape

variable
  [DecidableEq Addr]
  [Fintype Addr]
  {perl : Perl Addr}
  {value : Scalar Addr}
  {result : NodeId}
  {state : ImportState Addr}

/-- The node that the map of a finished import gives a referent. -/
def ImportState.image (state : ImportState Addr) (source : Addr) :
    NodeId :=
  (importMapFind state.map source).getD 0

omit [Fintype Addr] in
theorem ImportState.WellFormed.image_eq (wellFormed : state.WellFormed)
    {source : Addr} (member : (source, node) ∈ state.map) :
    state.image source = node := by
  unfold ImportState.image
  cases found : importMapFind state.map source with
  | none =>
    have different := List.lookup_eq_none_iff.mp found _ member
    simp at different
  | some other =>
    obtain ⟨before, later, split, _⟩ :=
      List.lookup_eq_some_iff.mp found
    have otherMember : (source, other) ∈ state.map := by
      rw [split]
      simp
    have same : (source, other) = (source, node) :=
      List.inj_on_of_nodup_map wellFormed.sources_nodup otherMember
        member rfl
    exact congrArg Prod.snd same

omit [Fintype Addr] in
theorem ImportState.Child.pictures (wellFormed : state.WellFormed)
    {part : Scalar Addr} (isChild : state.Child part node)
    (fits :
      ∀ integer, part = .integer integer → integer.value ≤ ivMax) :
    Pictures state.world state.image part node := by
  cases part with
  | undefValue => exact .undefValue isChild.1
  | integer value =>
    exact .integer isChild.1 (int64_ofInt_toInt value.lower (fits value rfl))
  | number value => exact .number isChild.1
  | string bytes utf8 => exact .string isChild.1
  | reference source =>
    rw [← wellFormed.image_eq isChild]
    exact .reference source

omit [Fintype Addr] in
/-- A finished import of a graph without such integers preserves its shape. -/
theorem preservesShape_of_imported (wellFormed : state.WellFormed)
    (completes : ∀ entry ∈ state.map, state.Complete perl entry)
    (isChild : state.Child value result)
    (fits :
      ∀ integer,
        perl.Holds value (.integer integer) →
        integer.value ≤ ivMax) :
    PreservesShape perl value result state.world := by
  refine ⟨state.image, ?_, ?_, ?_⟩
  · intro first second reachesFirst reachesSecond
    obtain ⟨firstNode, firstEntry⟩ :=
      reached_of_completes completes isChild reachesFirst
    obtain ⟨secondNode, secondEntry⟩ :=
      reached_of_completes completes isChild reachesSecond
    rw [wellFormed.image_eq firstEntry, wellFormed.image_eq secondEntry]
    constructor
    · intro same
      have sameEntry : (first, firstNode) = (second, secondNode) :=
        List.inj_on_of_nodup_map wellFormed.nodes_nodup firstEntry
          secondEntry same
      exact congrArg Prod.fst sameEntry
    · rintro rfl
      have sameEntry : (first, firstNode) = (first, secondNode) :=
        List.inj_on_of_nodup_map wellFormed.sources_nodup firstEntry
          secondEntry rfl
      exact congrArg Prod.snd sameEntry
  · refine isChild.pictures wellFormed ?_
    rintro integer rfl
    exact fits integer (Or.inl rfl)
  · intro source reaches
    obtain ⟨node, entered⟩ :=
      reached_of_completes completes isChild reaches
    rw [wellFormed.image_eq entered]
    refine (completes _ entered).2.imp ?_
    intro part member partNode partChild
    refine partChild.pictures wellFormed ?_
    rintro integer rfl
    exact fits integer (Or.inr ⟨source, reaches, member⟩)

omit [DecidableEq Addr] [Fintype Addr] in
/-- A graph of scalars, arrays and hashes can be shared. -/
theorem Perl.PlainGraph.not_fails (plain : perl.PlainGraph value) :
    ¬ perl.Fails value := by
  rintro ⟨source, reaches, notImportable⟩
  have kind := plain source reaches
  apply notImportable
  unfold Perl.Importable ReferentBody.Importable
  split
  · next same =>
      rw [same] at kind
      exact kind.elim
  · next same =>
      rw [same] at kind
      exact kind.elim
  · next same =>
      rw [same] at kind
      exact kind.elim
  · trivial

end Shape

/-- An array that holds itself and, twice, one hash. -/
def cyclicPerl : Perl Bool where
  version := 40
  heap
    | false => ⟨none, .array [some (.reference false),
        some (.reference true), none, some (.reference true)]⟩
    | true => ⟨none, .hash [([107], .integer (.small 5 (by decide)))]⟩

def PerlInteger.largest : PerlInteger where
  value := GoRoutine.uvMax
  lower := by decide
  upper := Int.le_refl _

end DeveloperDashboard.GoRoutine

import DeveloperDashboard.Housekeeping.Housekeeper

namespace DeveloperDashboard.Housekeeping

open Library Perl Skills

/-!
# Stale state roots

A real run that removes a state root takes with it whatever lies below, also
the runtime root of another state root that it has not come to yet.  Apart from
that, the roots that it removes are those that were stale at first.
-/

def without (files : Files) (roots : List Path) : Files :=
  fun path =>
    if roots.any fun root => root.isPrefixOf path then none else files path

variable {roots : List Path} {path : Path}

theorem without_of_forall {files : Files}
    (apart : ∀ root ∈ roots, ¬root <+: path) :
    without files roots path = files path := by
  refine if_neg fun below => ?_
  obtain ⟨root, member, isPrefix⟩ := List.any_eq_true.mp below
  exact apart root member (List.isPrefixOf_iff_prefix.mp isPrefix)

theorem without_of_mem {files : Files} {root : Path}
    (member : root ∈ roots) (below : root <+: path) :
    without files roots path = none := by
  refine if_pos ?_
  rw [List.any_eq_true]
  exact ⟨root, member, List.isPrefixOf_iff_prefix.mpr below⟩

theorem without_nil (files : Files) : without files [] = files :=
  rfl

theorem removeTree_without (files : Files) (roots : List Path) (dir : Path) :
    (without files roots).removeTree dir .complete =
      without files (dir :: roots) := by
  funext path
  unfold Files.removeTree without
  simp only [Removal.keeps, Bool.not_false, Bool.and_true, List.any_cons,
    Bool.or_eq_true]
  split <;> split <;> simp_all

variable {entry : Text} {other : Files} {dir : Path} {rest : List Text}

namespace Housekeeper

variable (keeper : Housekeeper) (files : Files)

/-- The state root of a name below the base. -/
def rootOf (entry : Text) : Path :=
  keeper.base ++ [entry]

/-- A name whose state root is removed when nothing else is. -/
def IsStaleName (entry : Text) : Prop :=
  isDir files (keeper.rootOf entry) = true ∧
    keeper.isActive (keeper.rootOf entry) = false ∧
    keeper.isStale files (keeper.rootOf entry) = true

instance (entry : Text) : Decidable (keeper.IsStaleName files entry) :=
  inferInstanceAs (Decidable (_ ∧ _ ∧ _))

/-- A state root that is kept for nothing but a runtime root that is there. -/
structure IsKeptFor (entry : Text) (runtimeRoot : Path) : Prop where
  isDir : isDir files (keeper.rootOf entry) = true
  inactive : keeper.isActive (keeper.rootOf entry) = false
  old : keeper.isOldEnough files (keeper.rootOf entry) = true
  noLoops : keeper.hasLiveCollectors files (keeper.rootOf entry) = false
  root : keeper.runtimeRootOf files (keeper.rootOf entry) = some runtimeRoot
  there : Housekeeper.isDir files runtimeRoot = true

/-- The state roots that are stale at first, in the order of the directory. -/
def staleRoots (entries : List Text) : List Path :=
  (entries.filter fun entry =>
    decide (keeper.IsStaleName files entry)).map keeper.rootOf

def countRoots (entries : List Text) : Nat :=
  entries.countP fun entry => isDir files (keeper.rootOf entry)

/-- No root that is kept loses its runtime root to one before it. -/
def RootsApart (entries : List Text) : Prop :=
  entries.Pairwise fun entry later =>
    keeper.IsStaleName files entry →
      ∀ runtimeRoot, keeper.IsKeptFor files later runtimeRoot →
        ¬keeper.rootOf entry <+: runtimeRoot

/-- No root that is kept has its runtime root below some others. -/
def KeptApart (entries : List Text) (roots : List Path) : Prop :=
  ∀ later ∈ entries, ∀ runtimeRoot,
    keeper.IsKeptFor files later runtimeRoot →
      ∀ root ∈ roots, ¬root <+: runtimeRoot

variable {keeper files}

/-- A dry run tells the roots that are stale at first. -/
theorem cleanupRoots_dry (entries : List Text) :
    keeper.cleanupRoots true files entries =
      .ok (keeper.countRoots files entries, keeper.staleRoots files entries,
        files) := by
  induction entries with
  | nil => rfl
  | cons entry rest ih =>
    unfold cleanupRoots
    change (if !isDir files (keeper.rootOf entry) then _
      else if keeper.isActive (keeper.rootOf entry) ||
        !keeper.isStale files (keeper.rootOf entry) then _ else _) = _
    unfold countRoots staleRoots at *
    rw [List.countP_cons, List.filter_cons]
    cases directory : isDir files (keeper.rootOf entry) with
    | false => simp [IsStaleName, directory, ih]
    | true =>
    cases active : keeper.isActive (keeper.rootOf entry) with
    | true =>
      simp [IsStaleName, directory, active, ih, Except.map]
    | false =>
    cases stale : keeper.isStale files (keeper.rootOf entry) with
    | false =>
      simp [IsStaleName, directory, active, stale, ih, Except.map]
    | true =>
      simp [IsStaleName, directory, active, stale, removeRoot,
        ih, Except.map]
      rfl

theorem not_prefix_of_ne {other : Text} (different : other ≠ entry)
    (below : keeper.rootOf entry <+: path) :
    ¬keeper.rootOf other <+: path := by
  intro belowToo
  have same : keeper.rootOf other = keeper.rootOf entry :=
    (List.prefix_of_prefix_length_le belowToo below
      (by simp [rootOf])).eq_of_length (by simp [rootOf])
  exact different (by simpa [rootOf] using same)

def AreRootsOf (keeper : Housekeeper)
    (roots : List Path) (entry : Text) : Prop :=
  ∀ root ∈ roots, ∃ other, other ≠ entry ∧ root = keeper.rootOf other

theorem without_below (others : keeper.AreRootsOf roots entry)
    (below : keeper.rootOf entry <+: path) :
    without files roots path = files path := by
  refine without_of_forall fun root member => ?_
  obtain ⟨other, different, rfl⟩ := others root member
  exact not_prefix_of_ne different below

theorem isDir_congr (same : other path = files path) :
    isDir other path = isDir files path := by
  unfold isDir
  rw [same]

theorem fileText_congr (same : other path = files path) :
    fileText other path = fileText files path := by
  unfold fileText
  rw [same]

theorem isOldEnough_congr (same : other path = files path) :
    keeper.isOldEnough other path = keeper.isOldEnough files path := by
  unfold isOldEnough
  rw [same]

theorem hasLiveCollectors_congr
    (same : ∀ path, dir <+: path → other path = files path) :
    keeper.hasLiveCollectors other dir =
      keeper.hasLiveCollectors files dir := by
  unfold hasLiveCollectors
  dsimp only
  rw [isDir_congr (same _ (List.prefix_append _ _))]
  have each : ∀ entry,
      keeper.isLivePidFile other (dir ++ ["collectors".toList]) entry =
        keeper.isLivePidFile files (dir ++ ["collectors".toList]) entry := by
    intro entry
    unfold isLivePidFile
    rw [fileText_congr (same _ (by
      rw [List.append_assoc]
      exact List.prefix_append _ _))]
  rw [funext each]

theorem runtimeRootOf_congr
    (same : ∀ path, dir <+: path → other path = files path) :
    keeper.runtimeRootOf other dir = keeper.runtimeRootOf files dir := by
  unfold runtimeRootOf
  rw [fileText_congr (same _ (List.prefix_append _ _))]

theorem isStale_without (others : keeper.AreRootsOf roots entry) :
    keeper.isStale (without files roots) (keeper.rootOf entry) =
      (keeper.isOldEnough files (keeper.rootOf entry) &&
        !keeper.hasLiveCollectors files (keeper.rootOf entry) &&
        !(keeper.runtimeRootOf files (keeper.rootOf entry)).any
          (isDir (without files roots))) := by
  have same : ∀ path, keeper.rootOf entry <+: path →
      without files roots path = files path :=
    fun path below => without_below others below
  unfold isStale
  rw [isOldEnough_congr (same _ (List.prefix_refl _)),
    hasLiveCollectors_congr same, runtimeRootOf_congr same]

theorem isDir_without_iff :
    isDir (without files roots) path = true ↔
      isDir files path = true ∧ ∀ root ∈ roots, ¬root <+: path := by
  constructor
  · intro there
    have apart : ∀ root ∈ roots, ¬root <+: path := by
      intro root member below
      unfold isDir at there
      rw [without_of_mem member below] at there
      cases there
    rw [isDir_congr (without_of_forall apart)] at there
    exact ⟨there, apart⟩
  · rintro ⟨there, apart⟩
    rw [isDir_congr (without_of_forall apart)]
    exact there

theorem IsStaleName.without (others : keeper.AreRootsOf roots entry)
    (stale : keeper.IsStaleName files entry) :
    keeper.isStale (without files roots) (keeper.rootOf entry) = true := by
  have first := stale.2.2
  rw [isStale_without others]
  unfold isStale at first
  simp only [Bool.and_eq_true, Bool.not_eq_true', Option.any_eq_false] at first ⊢
  refine ⟨first.1, fun path found => ?_⟩
  have missing := first.2 path found
  rw [Bool.eq_false_iff] at missing ⊢
  exact fun there => missing (isDir_without_iff.mp there).1

theorem isStale_without_of_kept (others : keeper.AreRootsOf roots entry)
    (directory : isDir files (keeper.rootOf entry) = true)
    (inactive : keeper.isActive (keeper.rootOf entry) = false)
    (kept : keeper.isStale files (keeper.rootOf entry) = false) :
    keeper.isStale (without files roots) (keeper.rootOf entry) = true ↔
      ∃ runtimeRoot, keeper.IsKeptFor files entry runtimeRoot ∧
        ∃ root ∈ roots, root <+: runtimeRoot := by
  rw [isStale_without others]
  unfold isStale at kept
  cases old : keeper.isOldEnough files (keeper.rootOf entry) with
  | false =>
    simp only [Bool.false_and, Bool.false_eq_true, false_iff]
    rintro ⟨path, keptFor, -⟩
    exact Bool.false_ne_true (old.symm.trans keptFor.old)
  | true =>
  cases loops : keeper.hasLiveCollectors files (keeper.rootOf entry) with
  | true =>
    simp only [Bool.not_true, Bool.and_false, Bool.false_and,
      Bool.false_eq_true, false_iff]
    rintro ⟨path, keptFor, -⟩
    exact Bool.false_ne_true (keptFor.noLoops.symm.trans loops)
  | false =>
  rw [old, loops] at kept
  cases found : keeper.runtimeRootOf files (keeper.rootOf entry) with
  | none => simp [found] at kept
  | some path =>
  have there : isDir files path = true := by simpa [found] using kept
  have keptFor : keeper.IsKeptFor files entry path :=
    ⟨directory, inactive, old, loops, found, there⟩
  simp only [Bool.not_false, Bool.and_true, Bool.true_and,
    Option.any_some, Bool.not_eq_true', Bool.eq_false_iff]
  rw [Ne, isDir_without_iff]
  constructor
  · intro lost
    by_contra apart
    exact lost ⟨there, fun root member below =>
      apart ⟨path, keptFor, root, member, below⟩⟩
  · rintro ⟨other, keptToo, root, member, below⟩ ⟨-, apart⟩
    obtain rfl : path = other := Option.some.inj (found.symm.trans keptToo.root)
    exact apart root member below

/-- What is left after a real run over some entries. -/
theorem cleanupRoots_files
    {entries : List Text} {roots removed : List Path} {count : Nat}
    {after : Files}
    (returned :
      keeper.cleanupRoots false (without files roots) entries =
        .ok (count, removed, after)) :
    after = without files (removed.reverse ++ roots) := by
  induction entries generalizing roots removed count after with
  | nil =>
    simp only [cleanupRoots, Except.ok.injEq, Prod.mk.injEq] at returned
    obtain ⟨-, rfl, rfl⟩ := returned
    rfl
  | cons entry rest ih =>
    unfold cleanupRoots at returned
    dsimp only at returned
    split at returned
    · exact ih returned
    · split at returned
      · cases later :
            keeper.cleanupRoots false (without files roots) rest with
        | error error => rw [later] at returned; cases returned
        | ok result =>
          rw [later] at returned
          obtain ⟨-, rest⟩ := Prod.mk.inj (Except.ok.inj returned)
          exact ih (by rw [later, ← rest])
      · simp only [removeRoot, Bool.false_eq_true, if_false] at returned
        split at returned
        · cases returned
        · next files' removal =>
          split at removal
          · obtain rfl := Except.ok.inj removal
            rw [removeTree_without] at returned
            cases later :
                keeper.cleanupRoots false
                  (without files ((keeper.base ++ [entry]) :: roots))
                  rest with
            | error error => rw [later] at returned; cases returned
            | ok result =>
              rw [later] at returned
              obtain ⟨-, tail⟩ := Prod.mk.inj (Except.ok.inj returned)
              obtain ⟨rfl, rfl⟩ := Prod.mk.inj tail
              rw [ih later, List.reverse_cons, List.append_assoc]
              rfl
          · cases removal

def toldRoots (result : Except HousekeeperError (Nat × List Path × Files)) :
    Option (Nat × List Path) :=
  result.toOption.map fun told => (told.1, told.2.1)

theorem toldRoots_map_succ
    (result : Except HousekeeperError (Nat × List Path × Files))
    (count : Nat) (removed : List Path) :
    toldRoots (result.map fun after => (after.1 + 1, after.2)) =
        some (count + 1, removed) ↔
      toldRoots result = some (count, removed) := by
  cases result with
  | error error => simp [toldRoots, Except.map, Except.toOption]
  | ok told => simp [toldRoots, Except.map, Except.toOption]

theorem toldRoots_map_cons
    (result : Except HousekeeperError (Nat × List Path × Files))
    (count : Nat) (dir : Path) (removed : List Path) :
    toldRoots (result.map fun after =>
          (after.1 + 1, dir :: after.2.1, after.2.2)) =
        some (count + 1, dir :: removed) ↔
      toldRoots result = some (count, removed) := by
  cases result with
  | error error => simp [toldRoots, Except.map, Except.toOption]
  | ok told => simp [toldRoots, Except.map, Except.toOption]

theorem toldRoots_map_cons_ne
    (result : Except HousekeeperError (Nat × List Path × Files))
    {count : Nat} {removed : List Path} (missing : dir ∉ removed) :
    toldRoots (result.map fun after =>
          (after.1 + 1, dir :: after.2.1, after.2.2)) ≠
        some (count, removed) := by
  cases result with
  | error error => simp [toldRoots, Except.map, Except.toOption]
  | ok told =>
    simp only [toldRoots, Except.map, Except.toOption, Option.map_some, ne_eq,
      Option.some.injEq, Prod.mk.injEq, not_and]
    rintro - rfl
    exact missing List.mem_cons_self

theorem not_mem_staleRoots (missing : entry ∉ rest) :
    keeper.rootOf entry ∉ keeper.staleRoots files rest := by
  intro member
  obtain ⟨other, isIn, same⟩ := List.mem_map.mp member
  obtain rfl : other = entry := by simpa [rootOf] using same
  exact missing (List.mem_filter.mp isIn).1

theorem staleRoots_cons_of_stale (stale : keeper.IsStaleName files entry) :
    keeper.staleRoots files (entry :: rest) =
      keeper.rootOf entry :: keeper.staleRoots files rest := by
  simp [staleRoots, stale]

theorem staleRoots_cons_of_not (fresh : ¬keeper.IsStaleName files entry) :
    keeper.staleRoots files (entry :: rest) =
      keeper.staleRoots files rest := by
  simp [staleRoots, fresh]

theorem AreRootsOf.cons {roots : List Path} {entry later : Text}
    (others : keeper.AreRootsOf roots later) (different : entry ≠ later) :
    keeper.AreRootsOf (keeper.rootOf entry :: roots) later :=
  List.forall_mem_cons.mpr ⟨⟨entry, different, rfl⟩, others⟩

theorem keptApart_cons {entries : List Text} {root : Path} :
    keeper.KeptApart files entries (root :: roots) ↔
      (∀ later ∈ entries, ∀ runtimeRoot,
          keeper.IsKeptFor files later runtimeRoot →
            ¬root <+: runtimeRoot) ∧
        keeper.KeptApart files entries roots := by
  unfold KeptApart
  simp only [List.forall_mem_cons, ← forall_and]

/--
A real run tells the roots that are stale at first just when it may remove
them, and takes the runtime root of no other with them.
-/
theorem toldRoots_iff {entries : List Text} {roots : List Path}
    (distinct : entries.Nodup)
    (others : ∀ entry ∈ entries, keeper.AreRootsOf roots entry) :
    toldRoots (keeper.cleanupRoots false (without files roots) entries) =
        some (keeper.countRoots files entries,
          keeper.staleRoots files entries) ↔
      (∀ dir ∈ keeper.staleRoots files entries, keeper.removable dir = true) ∧
        keeper.KeptApart files entries roots ∧
        keeper.RootsApart files entries := by
  induction entries generalizing roots with
  | nil => simp [toldRoots, cleanupRoots, Except.toOption, countRoots,
      staleRoots, KeptApart, RootsApart]
  | cons entry rest ih =>
    obtain ⟨missing, distinct⟩ := List.nodup_cons.mp distinct
    obtain ⟨here, later⟩ := List.forall_mem_cons.mp others
    have tail := ih distinct later
    have same :
        without files roots (keeper.rootOf entry) =
          files (keeper.rootOf entry) :=
      without_below here (List.prefix_refl _)
    have kept : keeper.KeptApart files (entry :: rest) roots ↔
        (∀ runtimeRoot, keeper.IsKeptFor files entry runtimeRoot →
          ∀ root ∈ roots, ¬root <+: runtimeRoot) ∧
          keeper.KeptApart files rest roots :=
      List.forall_mem_cons
    have apart : keeper.RootsApart files (entry :: rest) ↔ _ :=
      List.pairwise_cons
    have root : keeper.base ++ [entry] = keeper.rootOf entry := rfl
    unfold cleanupRoots
    simp only [root]
    rw [isDir_congr same]
    unfold countRoots at *
    rw [List.countP_cons]
    cases directory : isDir files (keeper.rootOf entry) with
    | false =>
      have fresh : ¬keeper.IsStaleName files entry :=
        fun stale => Bool.false_ne_true (directory.symm.trans stale.1)
      have notKept : ∀ path, ¬keeper.IsKeptFor files entry path :=
        fun path keptFor =>
          Bool.false_ne_true (directory.symm.trans keptFor.isDir)
      rw [staleRoots_cons_of_not fresh, kept, apart]
      simpa [fresh, notKept, KeptApart, RootsApart] using tail
    | true =>
    cases active : keeper.isActive (keeper.rootOf entry) with
    | true =>
      have fresh : ¬keeper.IsStaleName files entry :=
        fun stale => Bool.false_ne_true (stale.2.1.symm.trans active)
      have notKept : ∀ path, ¬keeper.IsKeptFor files entry path :=
        fun path keptFor =>
          Bool.false_ne_true (keptFor.inactive.symm.trans active)
      rw [staleRoots_cons_of_not fresh, kept, apart]
      simp only [Bool.not_true, Bool.false_eq_true, if_false,
        Bool.true_or, if_true]
      rw [toldRoots_map_succ, tail]
      simp [fresh, notKept, KeptApart, RootsApart]
    | false =>
    cases stale : keeper.isStale files (keeper.rootOf entry) with
    | true =>
      have isStale : keeper.IsStaleName files entry :=
        ⟨directory, active, stale⟩
      have notKept : ∀ path, ¬keeper.IsKeptFor files entry path := by
        intro path keptFor
        simp [Housekeeper.isStale, keptFor.old, keptFor.noLoops,
          keptFor.root, keptFor.there] at stale
      rw [isStale.without here, staleRoots_cons_of_stale isStale, kept,
        apart, List.forall_mem_cons]
      simp only [Bool.not_true, Bool.false_eq_true, if_false,
        Bool.or_self, removeRoot]
      cases removable : keeper.removable (keeper.rootOf entry) with
      | false =>
        simp [toldRoots, Except.toOption]
      | true =>
        simp only [if_true, removeTree_without]
        have others : ∀ other ∈ rest,
            keeper.AreRootsOf (keeper.rootOf entry :: roots) other :=
          fun other member =>
            (later other member).cons fun same =>
              missing (same ▸ member)
        have next := ih distinct others
        rw [keptApart_cons] at next
        refine (toldRoots_map_cons _ _ _ _).trans (next.trans ?_)
        simp only [notKept, isStale, true_and, false_implies,
          implies_true, forall_const, RootsApart]
        constructor
        · rintro ⟨all, ⟨first, kept⟩, apart⟩
          exact ⟨all, kept, first, apart⟩
        · rintro ⟨all, kept, first, apart⟩
          exact ⟨all, ⟨first, kept⟩, apart⟩
    | false =>
      have fresh : ¬keeper.IsStaleName files entry :=
        fun isStale => Bool.false_ne_true (stale.symm.trans isStale.2.2)
      rw [staleRoots_cons_of_not fresh, kept, apart]
      have flips := isStale_without_of_kept here directory active stale
      simp only [Bool.not_true, Bool.false_eq_true, if_false,
        Bool.false_or, if_true]
      by_cases lost :
          keeper.isStale (without files roots) (keeper.rootOf entry) = true
      · have notTold : keeper.rootOf entry ∉
            keeper.staleRoots files rest :=
          not_mem_staleRoots missing
        obtain ⟨path, keptFor, root, member, below⟩ := flips.mp lost
        refine iff_of_false ?_ fun holds =>
          holds.2.1.1 path keptFor root member below
        simp only [lost, Bool.not_true, Bool.false_eq_true, if_false,
          removeRoot]
        cases keeper.removable (keeper.rootOf entry) with
        | false => simp [toldRoots, Except.toOption]
        | true => exact toldRoots_map_cons_ne _ notTold
      · have apartHere : ∀ path, keeper.IsKeptFor files entry path →
            ∀ root ∈ roots, ¬root <+: path :=
          fun path keptFor root member below =>
            lost (flips.mpr ⟨path, keptFor, root, member, below⟩)
        rw [Bool.not_eq_true] at lost
        simp only [lost, Bool.not_false, if_true]
        rw [toldRoots_map_succ, tail, and_iff_right apartHere]
        simp [fresh, RootsApart]

end Housekeeper

end DeveloperDashboard.Housekeeping

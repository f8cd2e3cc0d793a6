import DeveloperDashboard.Docker.MarkerEdits
import Mathlib.Data.List.ReduceOption

namespace DeveloperDashboard.Docker

open Library Perl Skills

/-!
# Services that are toggled

After a toggle every reader sees a service as it was toggled just when the name
of the service, as readers find their way by it, leads to the folder that the
toggle has resolved.  Names without backslashes and without `..` always do.
-/

namespace DockerCompose

variable (compose : DockerCompose) (tree : Tree) (service : Text)

/-- The compose files of a service that is so enabled and so developed. -/
def filesWhen (disabled development : Bool) : List Path :=
  if disabled then [] else compose.serviceFiles tree development service

/-- Every reader sees a service as disabled, or as enabled. -/
structure SeesDisabled (disabled : Bool) : Prop where
  folder : compose.serviceFolderIsDisabled tree service = disabled
  listed :
    ∀ filter listed, compose.listServices tree filter = .ok listed →
      ∀ item ∈ listed, item.service = service →
        item.disabled = disabled ∧ item.enabled = !disabled
  files :
    compose.discoverServiceFiles tree service =
      compose.filesWhen tree service disabled
        (compose.serviceFolderIsDevelopment tree service)

structure SeesDevelopment (development : Bool) : Prop where
  folder : compose.serviceFolderIsDevelopment tree service = development
  files :
    compose.discoverServiceFiles tree service =
      compose.filesWhen tree service
        (compose.serviceFolderIsDisabled tree service) development

/-- A toggle that writes changes only the marker, in a folder of its own. -/
def WritesOnly (marker : Marker) (left : Tree) : Prop :=
  ∀ path, left.entries.lookup path ≠ tree.entries.lookup path →
    ∃ dir,
      containedServicePath (compose.serviceToggleRoot tree) service =
          some dir ∧
        (path = dir ++ [marker.fileName] ∨
          path <+: dir ∧ tree.entries.lookup path = none ∧
            left.isFolder path = true)

/-- A toggle that unlinks takes only markers away, below docker roots. -/
def UnlinksOnly (marker : Marker) (left : Tree) : Prop :=
  ∀ path, left.entries.lookup path ≠ tree.entries.lookup path →
    left.entries.lookup path = none ∧
      ∃ root ∈ compose.dockerRoots tree, ∃ dir,
        containedServicePath root service = some dir ∧
          path = dir ++ [marker.fileName]

/--
After each toggle that returns every reader sees the service as it was toggled,
and no toggle touches anything but its marker.
-/
structure TogglesHold : Prop where
  disables :
    ∀ report after,
      compose.disableService tree service = .ok (report, after) →
        compose.SeesDisabled after service true
  enables :
    ∀ report after,
      compose.enableService tree service = .ok (report, after) →
        compose.SeesDisabled after service false
  develops :
    ∀ report after,
      compose.enableServiceDevelopment tree service = .ok (report, after) →
        compose.SeesDevelopment after service true
  undevelops :
    ∀ report after,
      compose.disableServiceDevelopment tree service = .ok (report, after) →
        compose.SeesDevelopment after service false
  disablesOnly :
    compose.WritesOnly tree service .disabled
      (compose.disableService tree service).left
  enablesOnly :
    compose.UnlinksOnly tree service .disabled
      (compose.enableService tree service).left
  developsOnly :
    compose.WritesOnly tree service .develop
      (compose.enableServiceDevelopment tree service).left
  undevelopsOnly :
    compose.UnlinksOnly tree service .develop
      (compose.disableServiceDevelopment tree service).left

/-- The name of a service leads readers where the toggles go. -/
structure SpelledAlike (marker : Marker) : Prop where
  written :
    ∀ dir made,
      containedServicePath (compose.serviceToggleRoot tree) service =
          some dir →
        isPathText dir = true →
          tree.makePath dir.inits = .ok made →
            made.isFolder (dir ++ [marker.fileName]) = false →
              (∃ root ∈ compose.dockerRoots made,
                  serviceFolder made root service = some dir) ∨
                compose.serviceFolderIsMarked made marker service = true
  /-- Each folder with the marker that is found by the name is one that the
  toggle resolves. -/
  unlinked :
    ∀ names,
      containedNames service = some names →
        (∀ root ∈ compose.serviceLookupRoots tree service,
            tree.isFolder (markerBelow marker names root) = false) →
          ∀ root ∈ compose.dockerRoots tree, ∀ dir,
            serviceFolder tree root service = some dir →
              tree.isFile (dir ++ [marker.fileName]) = true →
                ∃ other ∈ compose.serviceLookupRoots tree service,
                  dir = other ++ names

variable {compose tree service}

theorem mem_serviceLookupRoots_of_folder
    {root dir : Path} (named : isTrue service = true)
    (isRoot : root ∈ compose.dockerRoots tree)
    (found : serviceFolder tree root service = some dir)
    (isFolder : tree.isFolder dir = true) :
    root ∈ compose.serviceLookupRoots tree service := by
  unfold serviceLookupRoots
  simp only [named, Bool.not_true, Bool.false_eq_true, if_false]
  split
  · exact isRoot
  · refine List.mem_filter.mpr ⟨isRoot, ?_⟩
    unfold hasServiceFolder
    rw [found]
    exact isFolder

theorem mem_dockerRoots_of_lookup {root : Path}
    (member : root ∈ compose.serviceLookupRoots tree service) :
    root ∈ compose.dockerRoots tree := by
  unfold serviceLookupRoots at member
  split at member
  · cases member
  · split at member
    · exact member
    · exact (List.mem_filter.mp member).1

theorem serviceFolderIsMarked_iff {marker : Marker} :
    compose.serviceFolderIsMarked tree marker service = true ↔
      isTrue service = true ∧
        ∃ root ∈ compose.dockerRoots tree, ∃ dir,
          serviceFolder tree root service = some dir ∧
            tree.isFile (dir ++ [marker.fileName]) = true := by
  unfold serviceFolderIsMarked hasServiceFile
  simp only [Bool.and_eq_true, List.any_eq_true, Option.any_eq_true]
  refine and_congr_right fun named => ?_
  constructor
  · rintro ⟨root, member, dir, found, isFile⟩
    exact ⟨root, mem_dockerRoots_of_lookup member, dir, found, isFile⟩
  · rintro ⟨root, isRoot, dir, found, isFile⟩
    exact ⟨root, mem_serviceLookupRoots_of_folder named isRoot found
      (isFolder_of_isFile isFile), dir, found, isFile⟩

theorem exists_of_mem_mapM
    {Item Value Error : Type} {step : Item → Except Error Value}
    {items : List Item} {values : List Value}
    (returned : items.mapM step = .ok values)
    {value : Value} (member : value ∈ values) :
    ∃ item ∈ items, step item = .ok value := by
  induction items generalizing values with
  | nil =>
    obtain rfl : [] = values := Except.ok.inj returned
    cases member
  | cons item rest ih =>
    rw [List.mapM_cons] at returned
    cases first : step item with
    | error error => rw [first] at returned; cases returned
    | ok head =>
      cases later : rest.mapM step with
      | error error => rw [first, later] at returned; cases returned
      | ok others =>
        rw [first, later] at returned
        obtain rfl : head :: others = values := Except.ok.inj returned
        rcases List.mem_cons.mp member with rfl | isLater
        · exact ⟨item, List.mem_cons_self, first⟩
        · obtain ⟨other, isIn, steps⟩ := ih later isLater
          exact ⟨other, List.mem_cons_of_mem _ isIn, steps⟩

theorem disabled_of_listServices
    {filter : Option Text} {listed : List ListedService}
    (returned : compose.listServices tree filter = .ok listed)
    {item : ListedService} (member : item ∈ listed) :
    item.disabled = compose.serviceFolderIsDisabled tree item.service ∧
      item.enabled = !item.disabled := by
  unfold listServices at returned
  dsimp only at returned
  split at returned
  · next known =>
      clear known
      cases whole : (compose.discoverServiceNames tree).mapM
          (compose.listService tree
            ((filter.filter fun text => decide (text ≠ [])).getD
              "all".toList)) with
      | error error => rw [whole] at returned; cases returned
      | ok items =>
        rw [whole] at returned
        obtain rfl := Except.ok.inj returned
        have isIn := List.reduceOption_mem_iff.mp member
        obtain ⟨name, -, lists⟩ := exists_of_mem_mapM whole isIn
        unfold listService at lists
        dsimp only at lists
        split at lists
        · cases lists
        · split at lists
          · cases lists
          · obtain rfl := Option.some.inj (Except.ok.inj lists)
            exact ⟨rfl, rfl⟩
  · cases returned

theorem seesDisabled_iff {disabled : Bool} (named : isTrue service = true) :
    compose.SeesDisabled tree service disabled ↔
      compose.serviceFolderIsDisabled tree service = disabled := by
  refine ⟨SeesDisabled.folder, fun folder => ⟨folder, ?_, ?_⟩⟩
  · rintro filter listed returned item member rfl
    obtain ⟨same, enabled⟩ := disabled_of_listServices returned member
    rw [folder] at same
    exact ⟨same, enabled.trans (congrArg _ same)⟩
  · unfold discoverServiceFiles filesWhen
    rw [named, folder]
    rfl

theorem seesDevelopment_iff {development : Bool}
    (named : isTrue service = true) :
    compose.SeesDevelopment tree service development ↔
      compose.serviceFolderIsDevelopment tree service = development := by
  refine ⟨SeesDevelopment.folder, fun folder => ⟨folder, ?_⟩⟩
  unfold discoverServiceFiles filesWhen
  rw [named, folder]
  rfl

theorem Wrote.marked_iff
    {after made : Tree} {marker : Marker} {content : Text} {dir : Path}
    (wrote : Wrote compose tree after marker content service dir made) :
    compose.serviceFolderIsMarked after marker service = true ↔
      (∃ root ∈ compose.dockerRoots made,
          serviceFolder made root service = some dir) ∨
        compose.serviceFolderIsMarked made marker service = true := by
  have same := wrote.sameFolders
  rw [serviceFolderIsMarked_iff, serviceFolderIsMarked_iff, same.dockerRoots,
    and_iff_right wrote.named, and_iff_right wrote.named, ← exists_or]
  refine exists_congr fun root => ?_
  rw [← and_or_left]
  refine and_congr_right fun _ => ?_
  simp only [same.serviceFolder, wrote.isFile_iff]
  constructor
  · rintro ⟨folder, found, isMarker | isFile⟩
    · rw [List.append_cancel_right isMarker] at found
      exact Or.inl found
    · exact Or.inr ⟨folder, found, isFile⟩
  · rintro (found | ⟨folder, found, isFile⟩)
    · exact ⟨dir, found, Or.inl rfl⟩
    · exact ⟨folder, found, Or.inr isFile⟩

def WritesAreSeen (compose : DockerCompose) (tree : Tree) (service : Text)
    (marker : Marker) (content : Text) : Prop :=
  ∀ dir made after,
    Wrote compose tree after marker content service dir made →
      compose.serviceFolderIsMarked after marker service = true

theorem writesAreSeen_iff
    {marker : Marker} (content : Text) (named : isTrue service = true) :
    WritesAreSeen compose tree service marker content ↔
      ∀ dir made,
        containedServicePath (compose.serviceToggleRoot tree) service =
            some dir →
          isPathText dir = true →
            tree.makePath dir.inits = .ok made →
              made.isFolder (dir ++ [marker.fileName]) = false →
                (∃ root ∈ compose.dockerRoots made,
                    serviceFolder made root service = some dir) ∨
                  compose.serviceFolderIsMarked made marker service =
                    true := by
  constructor
  · intro seen dir made contained plain makes noFolder
    have isFolder : made.isFolder dir = true := by
      rw [isFolder_iff, FileTree.lookup_makePath makes,
        if_pos ((List.mem_inits dir dir).mpr List.prefix_rfl)]
    have writes : ∃ after,
        made.writeFile (dir ++ [marker.fileName]) content = some after :=
      FileTree.writeFile_isSome_iff.mpr
        ⟨fun _ => by rwa [List.dropLast_concat], noFolder⟩
    obtain ⟨after, writes⟩ := writes
    have wrote : Wrote compose tree after marker content service dir made :=
      ⟨named, contained, plain, makes, writes⟩
    exact wrote.marked_iff.mp (seen _ _ _ wrote)
  · intro spelled dir made after wrote
    exact wrote.marked_iff.mpr
      (spelled dir made wrote.contained wrote.plain wrote.makes
        wrote.noFolder)

structure Unlinked
    (compose : DockerCompose) (tree after : Tree) (marker : Marker)
    (service : Text) (names : List Text) : Prop where
  named : isTrue service = true
  contained : containedNames service = some names
  removes :
    removeMarkers marker names tree
        (compose.serviceLookupRoots tree service) =
      .ok after

theorem removeServiceLayerMarkers_eq {marker : Marker} {names : List Text}
    (named : isTrue service = true)
    (contained : containedNames service = some names) :
    compose.removeServiceLayerMarkers tree marker service =
      removeMarkers marker names tree
        (compose.serviceLookupRoots tree service) := by
  unfold removeServiceLayerMarkers
  rw [named, contained]
  cases compose.serviceLookupRoots tree service <;> rfl

theorem unlinkMarkers_ok_iff
    {usage action : Text} {state : Text × Bool} {marker : Marker}
    {after : Tree} :
    (∃ report, compose.unlinkMarkers tree usage action state marker service =
          .ok (report, after)) ↔
      ∃ names, Unlinked compose tree after marker service names := by
  unfold unlinkMarkers serviceMarkerPath containedServicePath
  cases named : isTrue service with
  | false =>
    refine iff_of_false ?_ ?_
    · rintro ⟨report, returned⟩
      cases returned
    · rintro ⟨names, unlinked⟩
      exact Bool.false_ne_true (named.symm.trans unlinked.named)
  | true =>
  cases contained : containedNames service with
  | none =>
    refine iff_of_false ?_ ?_
    · rintro ⟨report, returned⟩
      cases returned
    · rintro ⟨names, unlinked⟩
      rw [unlinked.contained] at contained
      cases contained
  | some names =>
  simp only [Option.map_some, Bool.not_true, Bool.false_eq_true, if_false,
    removeServiceLayerMarkers_eq named contained]
  constructor
  · rintro ⟨report, returned⟩
    cases removes : removeMarkers marker names tree
        (compose.serviceLookupRoots tree service) with
    | error error => rw [removes] at returned; cases returned
    | ok left =>
      rw [removes] at returned
      obtain ⟨-, rfl⟩ := Prod.mk.inj (Except.ok.inj returned)
      exact ⟨names, named, contained, removes⟩
  · rintro ⟨other, unlinked⟩
    obtain rfl : names = other :=
      Option.some.inj (contained.symm.trans unlinked.contained)
    rw [unlinked.removes]
    exact ⟨_, rfl⟩

namespace Unlinked

variable {after : Tree} {marker : Marker} {names : List Text}
  (unlinked : Unlinked compose tree after marker service names)
include unlinked

theorem sameFolders : SameFolders after tree := by
  refine SameFolders.of_markers marker fun path different => ?_
  have here := lookup_removeMarkers unlinked.removes path
  by_cases isMarker : path ∈ (compose.serviceLookupRoots tree service).map
      (markerBelow marker names)
  · rw [if_pos isMarker] at here
    obtain ⟨root, member, rfl⟩ := List.mem_map.mp isMarker
    refine ⟨⟨root ++ names, rfl⟩, ?_,
      exists_removeMarkers_iff.mp ⟨after, unlinked.removes⟩ root member⟩
    rw [Bool.eq_false_iff, Ne, isFolder_iff, here]
    simp
  · rw [if_neg isMarker] at here
    exact absurd here different

theorem isFile_iff (path : Path) :
    after.isFile path = true ↔
      path ∉ (compose.serviceLookupRoots tree service).map
          (markerBelow marker names) ∧
        tree.isFile path = true := by
  have here := lookup_removeMarkers unlinked.removes path
  by_cases isMarker : path ∈ (compose.serviceLookupRoots tree service).map
      (markerBelow marker names)
  · rw [if_pos isMarker] at here
    rw [Docker.isFile_iff, here]
    simp [isMarker]
  · rw [if_neg isMarker] at here
    rw [FileTree.isFile_congr here]
    simp [isMarker]

/--
A toggle that unlinks is seen just when each folder with the marker that the
name leads to is one that the toggle resolves.
-/
theorem marked_eq_false_iff :
    compose.serviceFolderIsMarked after marker service = false ↔
      ∀ root ∈ compose.dockerRoots tree, ∀ dir,
        serviceFolder tree root service = some dir →
          tree.isFile (dir ++ [marker.fileName]) = true →
            ∃ other ∈ compose.serviceLookupRoots tree service,
              dir = other ++ names := by
  have same := unlinked.sameFolders
  rw [Bool.eq_false_iff, Ne, serviceFolderIsMarked_iff, same.dockerRoots]
  simp only [unlinked.named, true_and, same.serviceFolder,
    unlinked.isFile_iff]
  push Not
  refine forall₂_congr fun root _ => forall₂_congr fun dir _ => ?_
  have resolved :
      dir ++ [marker.fileName] ∈
          (compose.serviceLookupRoots tree service).map
            (markerBelow marker names) ↔
        ∃ other ∈ compose.serviceLookupRoots tree service,
          dir = other ++ names := by
    simp only [List.mem_map, markerBelow, List.append_left_inj]
    exact exists_congr fun other => and_congr_right fun _ => eq_comm
  rw [← resolved]
  constructor
  · intro seen isFile
    by_contra missing
    exact seen missing isFile
  · intro seen missing isFile
    exact missing (seen isFile)

end Unlinked

def UnlinksAreSeen (compose : DockerCompose) (tree : Tree) (service : Text)
    (marker : Marker) : Prop :=
  ∀ names after,
    Unlinked compose tree after marker service names →
      compose.serviceFolderIsMarked after marker service = false

theorem unlinksAreSeen_iff {marker : Marker} (named : isTrue service = true) :
    UnlinksAreSeen compose tree service marker ↔
      ∀ names,
        containedNames service = some names →
          (∀ root ∈ compose.serviceLookupRoots tree service,
              tree.isFolder (markerBelow marker names root) = false) →
            ∀ root ∈ compose.dockerRoots tree, ∀ dir,
              serviceFolder tree root service = some dir →
                tree.isFile (dir ++ [marker.fileName]) = true →
                  ∃ other ∈ compose.serviceLookupRoots tree service,
                    dir = other ++ names := by
  constructor
  · intro seen names contained noFolders
    obtain ⟨after, removes⟩ := exists_removeMarkers_iff.mpr noFolders
    have unlinked : Unlinked compose tree after marker service names :=
      ⟨named, contained, removes⟩
    exact unlinked.marked_eq_false_iff.mp (seen names after unlinked)
  · intro spelled names after unlinked
    exact unlinked.marked_eq_false_iff.mpr
      (spelled names unlinked.contained
        (exists_removeMarkers_iff.mp ⟨after, unlinked.removes⟩))

theorem unlinkMarkers_unlinksOnly
    {usage action : Text} {state : Text × Bool} {marker : Marker} :
    compose.UnlinksOnly tree service marker
      (compose.unlinkMarkers tree usage action state marker service).left := by
  intro path changes
  unfold unlinkMarkers serviceMarkerPath containedServicePath at changes ⊢
  cases named : isTrue service with
  | false =>
    simp only [named, Bool.not_false, if_true] at changes
    exact absurd rfl changes
  | true =>
  cases contained : containedNames service with
  | none =>
    simp only [named, contained] at changes
    exact absurd rfl changes
  | some names =>
  simp only [named, contained, Option.map_some, Bool.not_true,
    Bool.false_eq_true, if_false,
    removeServiceLayerMarkers_eq named contained] at changes ⊢
  have below {left : Tree}
      (leaves :
        removeMarkers marker names tree
              (compose.serviceLookupRoots tree service) = .ok left ∨
          ∃ error,
            removeMarkers marker names tree
                (compose.serviceLookupRoots tree service) =
              .error (error, left))
      (different : left.entries.lookup path ≠ tree.entries.lookup path) :
      left.entries.lookup path = none ∧
        ∃ root ∈ compose.dockerRoots tree, ∃ dir,
          some (root ++ names) = some dir ∧
            path = dir ++ [marker.fileName] := by
    obtain ⟨isMarker, gone⟩ := removeMarkers_changes leaves different
    obtain ⟨root, member, rfl⟩ := List.mem_map.mp isMarker
    exact ⟨gone, root, mem_dockerRoots_of_lookup member, root ++ names, rfl,
      rfl⟩
  cases removes : removeMarkers marker names tree
      (compose.serviceLookupRoots tree service) with
  | ok left =>
    rw [removes] at changes
    exact below (Or.inl removes) changes
  | error error =>
    rw [removes] at changes
    exact below (Or.inr ⟨error.1, removes⟩) changes

/--
Every reader sees a service as it was toggled just when the name of the service
leads readers where the toggles go.
-/
theorem togglesHold_iff :
    compose.TogglesHold tree service ↔
      (isTrue service = true →
        ∀ marker, compose.SpelledAlike tree service marker) := by
  constructor
  · rintro holds named (_ | _)
    · refine ⟨(writesAreSeen_iff "---\ndisabled: 1\n".toList named).mp ?_,
        (unlinksAreSeen_iff named).mp ?_⟩
      · intro dir made after wrote
        obtain ⟨report, returned⟩ := writeMarker_ok_iff.mpr ⟨dir, made, wrote⟩
        exact (holds.disables report after returned).folder
      · intro names after unlinked
        obtain ⟨report, returned⟩ :=
          unlinkMarkers_ok_iff.mpr ⟨names, unlinked⟩
        exact (holds.enables report after returned).folder
    · refine ⟨(writesAreSeen_iff "---\ndevelopment: 1\n".toList named).mp
          ?_,
        (unlinksAreSeen_iff named).mp ?_⟩
      · intro dir made after wrote
        obtain ⟨report, returned⟩ := writeMarker_ok_iff.mpr ⟨dir, made, wrote⟩
        exact (holds.develops report after returned).folder
      · intro names after unlinked
        obtain ⟨report, returned⟩ :=
          unlinkMarkers_ok_iff.mpr ⟨names, unlinked⟩
        exact (holds.undevelops report after returned).folder
  · intro spelled
    refine
      { disables := fun report after returned => ?_
        enables := fun report after returned => ?_
        develops := fun report after returned => ?_
        undevelops := fun report after returned => ?_
        disablesOnly := fun _ changes => writeMarker_changes changes
        enablesOnly := unlinkMarkers_unlinksOnly
        developsOnly := fun _ changes => writeMarker_changes changes
        undevelopsOnly := unlinkMarkers_unlinksOnly }
    · obtain ⟨dir, made, wrote⟩ := writeMarker_ok_iff.mp ⟨report, returned⟩
      have named := wrote.named
      exact (seesDisabled_iff named).mpr
        ((writesAreSeen_iff _ named).mpr (spelled named .disabled).written
          dir made after wrote)
    · obtain ⟨names, unlinked⟩ := unlinkMarkers_ok_iff.mp ⟨report, returned⟩
      have named := unlinked.named
      exact (seesDisabled_iff named).mpr
        ((unlinksAreSeen_iff named).mpr (spelled named .disabled).unlinked
          names after unlinked)
    · obtain ⟨dir, made, wrote⟩ := writeMarker_ok_iff.mp ⟨report, returned⟩
      have named := wrote.named
      exact (seesDevelopment_iff named).mpr
        ((writesAreSeen_iff _ named).mpr (spelled named .develop).written
          dir made after wrote)
    · obtain ⟨names, unlinked⟩ := unlinkMarkers_ok_iff.mp ⟨report, returned⟩
      have named := unlinked.named
      exact (seesDevelopment_iff named).mpr
        ((unlinksAreSeen_iff named).mpr (spelled named .develop).unlinked
          names after unlinked)

/-- An object with nothing but a home directory. -/
def homeCompose : DockerCompose where
  home := ["home".toList]
  envLayers := []
  scannedDirs := []
  services := []

/-- A file system with nothing but a home directory. -/
def homeTree : Tree where
  entries := [([], .folder), (["home".toList], .folder)]
  closed := by decide

/-- A service whose name has a backslash is disabled, and nobody sees it. -/
theorem backslash_is_not_seen :
    ¬homeCompose.TogglesHold homeTree "green\\blue".toList := by
  intro holds
  cases returned :
      homeCompose.disableService homeTree "green\\blue".toList with
  | error error =>
    have disables :
        (homeCompose.disableService homeTree "green\\blue".toList).isOk =
          true := by decide +kernel
    rw [returned] at disables
    cases disables
  | ok result =>
    have unseen :
        homeCompose.serviceFolderIsDisabled
            (homeCompose.disableService homeTree "green\\blue".toList).left
            "green\\blue".toList =
          false := by decide +kernel
    rw [returned] at unseen
    have seen := (holds.disables result.1 result.2 returned).folder
    exact Bool.false_ne_true (unseen.symm.trans seen)

end DockerCompose

/-!
# Plain names of services

Without backslashes readers and toggles split the name of a service alike, so
what is unlinked is seen to be gone.  Without `..` the name leads to the folder
that is made for it, so what is written is seen, too.
-/

namespace DockerCompose

variable {compose : DockerCompose} {tree : Tree} {service : Text}

theorem splitOnP_congr {one other : Char → Bool} {text : Text}
    (agree : ∀ char ∈ text, one char = other char) :
    text.splitOnP one = text.splitOnP other := by
  induction text with
  | nil => rw [List.splitOnP_nil, List.splitOnP_nil]
  | cons char rest ih =>
    obtain ⟨here, later⟩ := List.forall_mem_cons.mp agree
    rw [List.splitOnP_cons_eq_if_splitOnPPrepend,
      List.splitOnP_cons_eq_if_splitOnPPrepend,
      List.splitOnPPrepend_eq_modifyHead,
      List.splitOnPPrepend_eq_modifyHead, here, ih later]

theorem containedNames_eq (noBackslash : '\\' ∉ service) :
    containedNames service =
      resolveNames [] (pathNames (· = '/') service) := by
  unfold containedNames pathNames
  rw [splitOnP_congr fun char member => ?_]
  have other : char ≠ '\\' := fun same => noBackslash (same ▸ member)
  simp [other]

theorem walk_eq_of_resolveNames
    {root found : Path} {before names resolved : List Text}
    (walks : tree.walk parentName (root ++ before) names = some found)
    (resolves : resolveNames before names = some resolved) :
    found = root ++ resolved := by
  induction names generalizing before with
  | nil =>
    rw [resolveNames] at resolves
    split at resolves
    · cases resolves
    · obtain rfl := Option.some.inj resolves
      exact (Option.some.inj walks).symm
  | cons name rest ih =>
    rw [FileTree.walk] at walks
    rw [resolveNames] at resolves
    split at walks
    · split at walks
      · next up =>
          rw [if_pos up] at resolves
          split at resolves
          · cases resolves
          · next nonempty =>
              rw [List.dropLast_append_of_ne_nil nonempty] at walks
              exact ih walks resolves
      · next down =>
          rw [if_neg down] at resolves
          rw [List.append_assoc] at walks
          exact ih walks resolves
    · cases walks

theorem resolveNames_of_plain
    {before names resolved : List Text} (plain : parentName ∉ names)
    (resolves : resolveNames before names = some resolved) :
    resolved = before ++ names := by
  induction names generalizing before with
  | nil =>
    rw [resolveNames] at resolves
    split at resolves
    · cases resolves
    · rw [List.append_nil]
      exact (Option.some.inj resolves).symm
  | cons name rest ih =>
    obtain ⟨other, later⟩ := not_or.mp (mt List.mem_cons.mpr plain)
    rw [resolveNames, if_neg (Ne.symm other)] at resolves
    rw [ih later resolves, List.append_assoc]
    rfl

theorem walk_of_plain
    {root : Path} {names : List Text} (plain : parentName ∉ names)
    (isFolder : tree.isFolder (root ++ names) = true) :
    tree.walk parentName root names = some (root ++ names) := by
  induction names generalizing root with
  | nil => rw [FileTree.walk, List.append_nil]
  | cons name rest ih =>
    obtain ⟨other, later⟩ := not_or.mp (mt List.mem_cons.mpr plain)
    have same : root ++ name :: rest = root ++ [name] ++ rest := by simp
    rw [FileTree.walk, if_pos (FileTree.isFolder_of_append isFolder),
      if_neg (Ne.symm other),
      ih later (same ▸ isFolder), same]

theorem homeRuntimeRoot_mem :
    compose.homeRuntimeRoot tree ∈ compose.runtimeLayers tree := by
  unfold runtimeLayers
  rw [List.mem_eraseDups]
  simp

theorem serviceToggleRoot_mem :
    compose.serviceToggleRoot tree ∈ compose.dockerRoots tree := by
  unfold dockerRoots
  rw [List.mem_eraseDups]
  exact List.mem_flatMap.mpr
    ⟨_, homeRuntimeRoot_mem, List.mem_cons_self⟩

/-- Making a folder of the home layer does not choose another one. -/
theorem serviceToggleRoot_makePath {made : Tree} {names : List Text}
    (makes :
      tree.makePath (compose.serviceToggleRoot tree ++ names).inits =
        .ok made) :
    compose.serviceToggleRoot made = compose.serviceToggleRoot tree := by
  have folders (path : Path) :
      made.isFolder path = true ↔
        path <+: compose.serviceToggleRoot tree ++ names ∨
          tree.isFolder path = true := by
    rw [isFolder_iff, isFolder_iff, FileTree.lookup_makePath makes,
      ← List.mem_inits]
    split
    · next below => simp only [below, true_or]
    · next apart => simp only [apart, false_or]
  have below (parent : Path) (name other : Text)
      (rest : List Text) (different : name ≠ other) :
      ¬parent ++ [name] <+: parent ++ [other] ++ rest := by
    intro isPrefix
    rw [List.append_assoc, List.prefix_append_right_inj] at isPrefix
    exact different (List.cons_prefix_cons.mp isPrefix).1
  unfold serviceToggleRoot homeRuntimeRoot layerDirFor at folders ⊢
  congr 1
  cases primary : tree.isFolder (primaryLayer compose.home) with
  | true =>
    have kept := (folders (primaryLayer compose.home)).mpr
      (Or.inr primary)
    simp [kept]
  | false =>
  cases alias_ : tree.isFolder (aliasLayer compose.home) with
  | true =>
    simp only [primary, alias_, Bool.not_false, Bool.true_and, if_true]
      at folders
    have kept := (folders (aliasLayer compose.home)).mpr (Or.inr alias_)
    have absent : made.isFolder (primaryLayer compose.home) = false := by
      rw [Bool.eq_false_iff, Ne, folders, primary, not_or]
      refine ⟨?_, Bool.false_ne_true⟩
      unfold primaryLayer aliasLayer dockerRoot
      rw [List.append_assoc]
      exact below _ _ _ _ (by decide)
    simp [kept, absent]
  | false =>
    simp only [primary, alias_, Bool.not_false, Bool.true_and,
      Bool.false_eq_true, if_false] at folders
    have made_ : made.isFolder (primaryLayer compose.home) = true := by
      refine (folders _).mpr (Or.inl ?_)
      unfold dockerRoot
      rw [List.append_assoc]
      exact List.prefix_append _ _
    simp [made_]

theorem unlinksAreSeen_of_noBackslash
    {marker : Marker} (noBackslash : '\\' ∉ service) :
    UnlinksAreSeen compose tree service marker := by
  intro names after unlinked
  refine unlinked.marked_eq_false_iff.mpr fun root isRoot dir found isFile => ?_
  have resolves := unlinked.contained
  rw [containedNames_eq noBackslash] at resolves
  have walks := found
  unfold serviceFolder at walks
  split at walks
  · cases walks
  · rw [← List.append_nil root] at walks
    exact ⟨root, mem_serviceLookupRoots_of_folder unlinked.named isRoot found
      (isFolder_of_isFile isFile), walk_eq_of_resolveNames walks resolves⟩

theorem writesAreSeen_of_plain {marker : Marker} {content : Text}
    (noBackslash : '\\' ∉ service) (noNul : '\x00' ∉ service)
    (plain : parentName ∉ pathNames (· = '/') service) :
    WritesAreSeen compose tree service marker content := by
  intro dir made after wrote
  refine wrote.marked_iff.mpr (Or.inl ?_)
  obtain ⟨names, resolves, rfl⟩ := Option.map_eq_some_iff.mp wrote.contained
  rw [containedNames_eq noBackslash] at resolves
  have same := resolveNames_of_plain plain resolves
  rw [List.nil_append] at same
  have isFolder :
      made.isFolder (compose.serviceToggleRoot tree ++ names) = true := by
    rw [isFolder_iff, FileTree.lookup_makePath wrote.makes,
      if_pos ((List.mem_inits _ _).mpr List.prefix_rfl)]
  have isRoot : compose.serviceToggleRoot tree ∈ compose.dockerRoots made := by
    rw [← serviceToggleRoot_makePath wrote.makes]
    exact serviceToggleRoot_mem
  refine ⟨_, isRoot, ?_⟩
  unfold serviceFolder
  rw [if_neg noNul, ← same]
  rw [same] at isFolder ⊢
  exact walk_of_plain plain isFolder

/-- Each toggle of a service with a plain name is seen afterwards. -/
theorem plain_toggles_are_seen
    (noBackslash : '\\' ∉ service) (noNul : '\x00' ∉ service)
    (plain : parentName ∉ pathNames (· = '/') service)
    {marker : Marker} {usage content action : Text} {state : Text × Bool}
    {report : ToggleReport} {after : Tree} :
    (compose.writeMarker tree usage content action state marker service =
          .ok (report, after) →
        compose.serviceFolderIsMarked after marker service = true) ∧
      (compose.unlinkMarkers tree usage action state marker service =
          .ok (report, after) →
        compose.serviceFolderIsMarked after marker service = false) := by
  constructor
  · intro returned
    obtain ⟨dir, made, wrote⟩ := writeMarker_ok_iff.mp ⟨report, returned⟩
    exact writesAreSeen_of_plain noBackslash noNul plain _ _ _ wrote
  · intro returned
    obtain ⟨names, unlinked⟩ := unlinkMarkers_ok_iff.mp ⟨report, returned⟩
    exact unlinksAreSeen_of_noBackslash noBackslash _ _ unlinked

theorem plain_toggles_are_seen_green :
    ∃ report after,
      homeCompose.disableService homeTree "green".toList =
          .ok (report, after) ∧
        homeCompose.serviceFolderIsDisabled after "green".toList = true := by
  refine ⟨_, _, rfl, ?_⟩
  exact (plain_toggles_are_seen (by decide) (by decide) (by decide)).1
    (rfl : homeCompose.disableService homeTree "green".toList = _)

end DockerCompose

end DeveloperDashboard.Docker

/-
  CompilerRemarks.Proofs.Database.Candidates

  Where the databases lie that are tried for a source file. For a source that
  never climbs, every directory that is searched is in normal form
  (`isNormal_of_mem_directories`).

  Without a directory of the settings and without a `.clangd` the search is
  meant to stay inside the workspace. Build directories lie right below the
  root, and the way up from a source strictly below the root goes to the root
  step by step (`isChain_upward`). The way up from the root itself has no end there
  (`exists_above_of_same`), and that is the only way out
  (`candidates_inside_iff`).
-/
import CompilerRemarks.Proofs.Database.Selection
import CompilerRemarks.Proofs.Path.Normal

namespace CompilerRemarks

/-! ## Names in a file tree -/

/-- Every name in a tree stands for itself in a path: directories list no `.`
    and no `..`, and no name has a slash in it. -/
def Entry.WellNamed (e : Entry) : Prop :=
  ∀ (place : Place) (entries : List (List Char × Entry)),
    e.at? place = some (.directory entries) → ∀ x ∈ entries, Path.IsPlain x.1

/-- A file tree with a working directory whose names stand for themselves. -/
structure Files.WellNamed (files : Files) : Prop where
  root : files.root.WellNamed
  here : ∀ n ∈ files.here, Path.IsPlain n

theorem Entry.wellNamed_directory {entries : List (List Char × Entry)}
    (h : ∀ x ∈ entries, Path.IsPlain x.1 ∧ x.2.WellNamed) :
    (Entry.directory entries).WellNamed := by
  intro place found hfound x hx
  cases place with
  | nil =>
    cases hfound
    exact (h x hx).1
  | cons n place =>
    obtain ⟨child, hchild, hat⟩ := Option.bind_eq_some_iff.mp hfound
    obtain ⟨before, after, hsplit, -⟩ := List.lookup_eq_some_iff.mp hchild
    have hmem : (n, child) ∈ entries := by
      rw [hsplit]
      exact List.mem_append_right before List.mem_cons_self
    exact (h _ hmem).2 place found hat x hx

namespace Files

variable {files : Files}

theorem exists_at?_of_find {p : Path} {e : Entry} (h : files.find p = .ok e) :
    ∃ place, files.at? place = some e := by
  unfold find at h
  cases hplace : files.locate p with
  | error err =>
    rw [hplace] at h
    cases h
  | ok place =>
    rw [hplace] at h
    simp only [bind, Except.bind] at h
    split at h
    · rename_i found hat
      cases h
      exact ⟨place, hat⟩
    · cases h

theorem WellNamed.isPlain_of_mem_subdirectories (h : files.WellNamed) {p : Path} {n : List Char}
    (hn : n ∈ files.subdirectories p) : Path.IsPlain n := by
  rw [subdirectories] at hn
  split at hn
  · rename_i entries hfind
    obtain ⟨place, hat⟩ := exists_at?_of_find hfind
    obtain ⟨x, hx, rfl⟩ := List.mem_map.mp hn
    exact h.root place entries hat x (List.mem_of_mem_filter hx)
  · exact absurd hn List.not_mem_nil

theorem WellNamed.isRooted_here (h : files.WellNamed) :
    Path.IsRooted (.root :: files.here.map .name) :=
  ⟨files.here, h.here, rfl⟩

theorem WellNamed.isNormal_workingDirectory (h : files.WellNamed) :
    files.workingDirectory.IsNormal :=
  h.isRooted_here.isNormal_ofComponents

theorem WellNamed.isSpelled_workingDirectory (h : files.WellNamed) :
    files.workingDirectory.IsSpelled :=
  h.isRooted_here.isSpelled_ofComponents

end Files

namespace Resolver

open CompilerRemarks.Path

/-! ## Leaving out repetitions -/

theorem mem_of_mem_dedupe {ps : List Path} {p : Path} (h : p ∈ dedupe ps) : p ∈ ps := by
  induction ps with
  | nil => exact h
  | cons q ps ih =>
    rcases List.mem_cons.mp h with rfl | h
    · exact List.mem_cons_self
    · exact List.mem_cons_of_mem q (ih (List.mem_of_mem_filter h))

/-- What is left out is the same as something that stays. -/
theorem exists_mem_dedupe {ps : List Path} {p : Path} (h : p ∈ ps) :
    ∃ q ∈ dedupe ps, q.components = p.components := by
  induction ps with
  | nil => exact absurd h List.not_mem_nil
  | cons first ps ih =>
    rw [dedupe]
    rcases List.mem_cons.mp h with rfl | h
    · exact ⟨p, List.mem_cons_self, rfl⟩
    · obtain ⟨q, hq, heq⟩ := ih h
      by_cases hsame : q.same first = true
      · refine ⟨first, List.mem_cons_self, ?_⟩
        rw [← heq, (same_iff q first).mp hsame]
      · have hkept : (!q.same first) = true := by
          rw [Bool.not_eq_true] at hsame
          rw [hsame]
          rfl
        exact ⟨q, List.mem_cons_of_mem first (List.mem_filter.mpr ⟨hq, hkept⟩), heq⟩

/-! ## Directories that are searched -/

variable {settings : Settings} {files : Files} {source root d : Path}

/-- The directories to search, in order and with repetitions. -/
def origins (settings : Settings) (files : Files) (source root : Path) : List Path :=
  (settings.databaseDirectory.map (·.normalize root)).toList ++ pointerDirectories files root ++
    [root] ++ buildDirectories settings files root ++ upwardDirectories source root

theorem directories_eq : directories settings files source root =
    dedupe (origins settings files source root) :=
  rfl

theorem mem_origins_iff : d ∈ origins settings files source root ↔
    (∃ p, settings.databaseDirectory = some p ∧ d = p.normalize root) ∨
      d ∈ pointerDirectories files root ∨ d = root ∨ d ∈ buildDirectories settings files root ∨
      d ∈ upwardDirectories source root := by
  have hsetting : d ∈ (settings.databaseDirectory.map (·.normalize root)).toList ↔
      ∃ p, settings.databaseDirectory = some p ∧ d = p.normalize root := by
    rw [Option.mem_toList, Option.map_eq_some_iff]
    simp only [eq_comm]
  rw [origins, List.mem_append, List.mem_append, List.mem_append, List.mem_append,
    List.mem_singleton, hsetting, or_assoc, or_assoc, or_assoc]

theorem isNormal_of_mem_pointerDirectories (hroot : root.IsNormal)
    (h : d ∈ pointerDirectories files root) : d.IsNormal := by
  unfold pointerDirectories at h
  split at h
  · exact absurd h List.not_mem_nil
  · obtain ⟨p, -, rfl⟩ := List.mem_map.mp h
    exact isNormal_normalize hroot _

theorem components_of_mem_buildDirectories (hfiles : files.WellNamed) (hroot : root.IsNormal)
    (h : d ∈ buildDirectories settings files root) :
    ∃ n, d.components = root.components ++ [.name n] := by
  rw [buildDirectories, List.mem_mergeSort] at h
  obtain ⟨n, hn, rfl⟩ := List.mem_map.mp h
  have hplain := hfiles.isPlain_of_mem_subdirectories (List.mem_of_mem_filter hn)
  refine ⟨n, ?_⟩
  rw [components_join_of_descends hroot.components_ne_nil hplain.descends, hplain.components]

/-- The path is one component below the directory. -/
def LiesIn (p directory : Path) : Prop :=
  ∃ c, p.components = directory.components ++ [c]

/-- The way up from below the root goes one component at a time and comes to
    the root. -/
theorem isChain_upward {steps : List Component} (habsolute : source.isAbsolute = true)
    (hroot : root.components ≠ []) (hsource : source.components = root.components ++ steps)
    (hsteps : steps ≠ []) :
    (source :: (source.ancestors.takeWhile (!·.same root) ++ [root])).IsChain LiesIn := by
  induction steps using List.reverseRecOn generalizing source with
  | nil => exact absurd rfl hsteps
  | append_singleton steps c ih =>
    rw [← List.append_assoc] at hsource
    obtain ⟨hnil, -⟩ | ⟨above, habove, hcomponents, hancestors⟩ :=
      ancestors_of_concat habsolute hsource
    · exact absurd (List.append_eq_nil_iff.mp hnil).1 hroot
    · rw [hancestors, List.takeWhile_cons]
      split
      · rename_i hne
        rw [List.cons_append]
        refine List.isChain_cons_cons.mpr ⟨⟨c, by rw [hsource, hcomponents]⟩, ?_⟩
        refine ih habove hcomponents ?_
        -- the walk goes on only because this is not the root yet
        rintro rfl
        rw [List.append_nil, ← same_iff] at hcomponents
        rw [hcomponents] at hne
        cases hne
      · rename_i hsame
        rw [Bool.not_eq_true, Bool.not_eq_false', same_iff] at hsame
        refine List.isChain_cons_cons.mpr ⟨⟨c, ?_⟩, List.IsChain.singleton root⟩
        rw [hsource, ← hcomponents, hsame]

theorem prefix_of_isChain {ds : List Path} (h : (source :: (ds ++ [root])).IsChain LiesIn) :
    ∀ d ∈ source :: ds, root.components <+: d.components := by
  induction ds generalizing source with
  | nil =>
    obtain ⟨⟨c, hc⟩, -⟩ := List.isChain_cons_cons.mp h
    exact List.forall_mem_singleton.mpr (hc ▸ List.prefix_append _ [c])
  | cons next ds ih =>
    rw [List.cons_append] at h
    obtain ⟨⟨c, hc⟩, hrest⟩ := List.isChain_cons_cons.mp h
    refine List.forall_mem_cons.mpr ⟨?_, ih hrest⟩
    rw [hc]
    exact (ih hrest next List.mem_cons_self).trans (List.prefix_append _ [c])

/-- The way up from below the root ends at the root. -/
theorem prefix_of_mem_upward {steps : List Component} (habsolute : source.isAbsolute = true)
    (hroot : root.components ≠ []) (hsource : source.components = root.components ++ steps)
    (hsteps : steps ≠ []) (h : d ∈ source.ancestors.takeWhile (!·.same root)) :
    root.components <+: d.components :=
  prefix_of_isChain (isChain_upward habsolute hroot hsource hsteps) d (List.mem_cons_of_mem _ h)

/-- The way up from the root itself goes on above it. -/
theorem exists_above_of_same (hroot : root.IsNormal) (hsame : source.same root = true)
    (hne : root.components ≠ [.root]) :
    ∃ d ∈ upwardDirectories source root, ¬ root.components <+: d.components := by
  rw [same_iff] at hsame
  have habsolute : source.isAbsolute = true := by
    rw [isAbsolute_congr hsame]
    exact hroot.isAbsolute
  obtain ⟨names, hnames⟩ := hroot
  rcases List.eq_nil_or_concat names with rfl | ⟨above, last, rfl⟩
  · exact absurd hnames hne
  · rw [List.concat_eq_append, List.map_append, ← List.cons_append] at hnames
    obtain ⟨hnil, -⟩ | ⟨d, -, hcomponents, hancestors⟩ :=
      ancestors_of_concat habsolute (hsame.trans hnames)
    · cases hnil
    · have hshorter : ¬ root.components <+: d.components := by
        intro hprefix
        have hlength := hprefix.length_le
        rw [hcomponents, hnames, List.length_append, List.length_map, List.length_singleton]
          at hlength
        omega
      have hother : (!d.same root) = true := by
        rw [Bool.not_eq_true', ← Bool.not_eq_true, same_iff]
        intro heq
        exact hshorter (heq ▸ List.prefix_refl _)
      have hstarts : source.startsWith root = true := by
        rw [startsWith, hsame]
        exact List.isPrefixOf_iff_prefix.mpr (List.prefix_refl _)
      refine ⟨d, ?_, hshorter⟩
      rw [upwardDirectories, if_pos hstarts, hancestors, List.takeWhile_cons, if_pos hother]
      exact List.mem_cons_self

theorem isAbsolute_of_startsWith (hroot : root.isAbsolute = true)
    (h : source.startsWith root = true) : source.isAbsolute = true := by
  obtain ⟨rest, hrest⟩ := List.isPrefixOf_iff_prefix.mp h
  exact isAbsolute_of_append hroot hrest.symm

theorem prefix_of_mem_upwardDirectories (hroot : root.isAbsolute = true)
    (h : d ∈ upwardDirectories source root) :
    source.isAbsolute = true ∧ d.isAbsolute = true ∧ d.components <+: source.components := by
  rw [upwardDirectories] at h
  split at h
  · rename_i hstarts
    have hsource := isAbsolute_of_startsWith hroot hstarts
    exact ⟨hsource, prefix_of_mem_ancestors hsource (List.takeWhile_subset _ h)⟩
  · exact absurd h List.not_mem_nil

/-- The directories that are searched are in normal form. -/
theorem isNormal_of_mem_directories (hfiles : files.WellNamed) (hroot : root.IsNormal)
    (hsource : .parent ∉ source.components) (h : d ∈ directories settings files source root) :
    d.IsNormal := by
  rw [directories_eq] at h
  rcases mem_origins_iff.mp (mem_of_mem_dedupe h) with
    ⟨p, -, rfl⟩ | hpointer | rfl | hbuild | hupward
  · exact isNormal_normalize hroot p
  · exact isNormal_of_mem_pointerDirectories hroot hpointer
  · exact hroot
  · obtain ⟨n, hn⟩ := components_of_mem_buildDirectories hfiles hroot hbuild
    obtain ⟨names, hnames⟩ := hroot
    exact ⟨names ++ [n], by rw [hn, hnames, List.map_append]; rfl⟩
  · obtain ⟨habsolute, hd, hprefix⟩ := prefix_of_mem_upwardDirectories hroot.isAbsolute hupward
    exact (isNormal_of_not_mem habsolute hsource).of_initial (components_ne_nil hd) hprefix

/-! ## Candidates -/

theorem components_databaseName :
    databaseName.components = [.name "compile_commands.json".toList] := by
  decide +kernel

theorem descends_databaseName : databaseName.Descends :=
  ⟨["compile_commands.json".toList], List.cons_ne_nil _ _, components_databaseName⟩

/-- A candidate lies in the directory that is searched for it. -/
theorem parent?_candidate (hd : d.isAbsolute = true) :
    ∃ q, (d.join databaseName).parent? = some q ∧ q.components = d.components := by
  have hne := components_ne_nil hd
  have hjoin := components_join_of_descends hne descends_databaseName
  have habsolute := isAbsolute_of_append hd hjoin
  rw [components_databaseName] at hjoin
  obtain ⟨q, hparent, -, hq⟩ := parent?_of_concat habsolute hne hjoin
  exact ⟨q, hparent, hq⟩

theorem pointerDirectories_of_unread
    (h : ∀ text, files.readText (root.join pointerName) ≠ .ok text) :
    pointerDirectories files root = [] := by
  unfold pointerDirectories
  split
  · rfl
  · rename_i text htext
    exact absurd htext (h text)

/-- Left to the workspace, the search goes to directories that start with its
    root, unless it starts at the root. -/
theorem prefix_of_mem_directories (hfiles : files.WellNamed) (hroot : root.IsNormal)
    (hsetting : settings.databaseDirectory = none)
    (hpointer : ∀ text, files.readText (root.join pointerName) ≠ .ok text)
    (hsource : source.same root = true → root.components = [.root])
    (h : d ∈ directories settings files source root) : root.components <+: d.components := by
  rw [directories_eq] at h
  rcases mem_origins_iff.mp (mem_of_mem_dedupe h) with
    ⟨p, hp, -⟩ | hpointers | rfl | hbuild | hupward
  · rw [hsetting] at hp
    cases hp
  · rw [pointerDirectories_of_unread hpointer] at hpointers
    exact absurd hpointers List.not_mem_nil
  · exact List.prefix_refl _
  · obtain ⟨n, hn⟩ := components_of_mem_buildDirectories hfiles hroot hbuild
    exact hn ▸ List.prefix_append _ _
  · obtain ⟨habsolute, hd, -⟩ := prefix_of_mem_upwardDirectories hroot.isAbsolute hupward
    rw [upwardDirectories] at hupward
    split at hupward
    · rename_i hstarts
      obtain ⟨steps, hsteps⟩ := List.isPrefixOf_iff_prefix.mp hstarts
      by_cases hnil : steps = []
      · -- the source is the root, and then there is nothing above it
        rw [hnil, List.append_nil] at hsteps
        rw [hsource ((same_iff source root).mpr hsteps.symm), components_of_isAbsolute hd]
        exact List.prefix_append [Component.root] _
      · exact prefix_of_mem_upward habsolute hroot.components_ne_nil hsteps.symm hnil hupward
    · exact absurd hupward List.not_mem_nil

/-- Left to the workspace, the search stays inside it, component by component,
    unless the source file is the root of the workspace and something lies above
    it. A source that never climbs leads to directories in normal form, so these
    lie where they are spelled. -/
theorem candidates_inside_iff (hfiles : files.WellNamed) (hroot : root.IsNormal)
    (hsetting : settings.databaseDirectory = none)
    (hpointer : ∀ text, files.readText (root.join pointerName) ≠ .ok text) (source : Path) :
    ((∀ p ∈ candidates settings files source root,
        ∃ d, p.parent? = some d ∧ d.startsWith root = true) ↔
      (source.same root = true → root.components = [.root])) ∧
    (.parent ∉ source.components → ∀ p ∈ candidates settings files source root,
      ∃ d, p.parent? = some d ∧ d.IsNormal) := by
  refine ⟨⟨?_, ?_⟩, ?_⟩
  · intro hinside hsame
    by_contra hne
    obtain ⟨above, habove, hout⟩ := exists_above_of_same hroot hsame hne
    have horigin : above ∈ origins settings files source root :=
      mem_origins_iff.mpr (.inr (.inr (.inr (.inr habove))))
    -- the directory above is searched, perhaps under an earlier spelling
    obtain ⟨d, hd, hspelled⟩ := exists_mem_dedupe horigin
    have habsolute : d.isAbsolute = true := by
      rw [isAbsolute_congr hspelled]
      exact (prefix_of_mem_upwardDirectories hroot.isAbsolute habove).2.1
    obtain ⟨q, hq, hcomponents⟩ := parent?_candidate habsolute
    obtain ⟨q', hq', hstarts⟩ := hinside _ (List.mem_map_of_mem hd)
    cases hq.symm.trans hq'
    rw [startsWith, hcomponents, hspelled] at hstarts
    exact hout (List.isPrefixOf_iff_prefix.mp hstarts)
  · intro hsource p hp
    obtain ⟨d, hd, rfl⟩ := List.mem_map.mp hp
    have hprefix := prefix_of_mem_directories hfiles hroot hsetting hpointer hsource hd
    have habsolute := isAbsolute_of_startsWith hroot.isAbsolute
      (List.isPrefixOf_iff_prefix.mpr hprefix)
    obtain ⟨q, hq, hcomponents⟩ := parent?_candidate habsolute
    refine ⟨q, hq, ?_⟩
    rw [startsWith, hcomponents]
    exact List.isPrefixOf_iff_prefix.mpr hprefix
  · intro hsource p hp
    obtain ⟨d, hd, rfl⟩ := List.mem_map.mp hp
    have hnormal := isNormal_of_mem_directories hfiles hroot hsource hd
    obtain ⟨q, hq, hcomponents⟩ := parent?_candidate hnormal.isAbsolute
    exact ⟨q, hq, hnormal.congr hcomponents⟩

/-- A workspace with an empty build directory and an empty library in it. -/
def bareWorkspace : Files :=
  { root := .directory [("w".toList,
      .directory [("build".toList, .directory []), ("lib".toList, .directory [])])]
    here := ["w".toList] }

theorem bareWorkspace_wellNamed : bareWorkspace.WellNamed where
  root := by
    have hempty : (Entry.directory []).WellNamed := Entry.wellNamed_directory nofun
    refine Entry.wellNamed_directory (List.forall_mem_singleton.mpr ⟨by decide, ?_⟩)
    refine Entry.wellNamed_directory (List.forall_mem_cons.mpr ⟨⟨by decide, hempty⟩, ?_⟩)
    exact List.forall_mem_singleton.mpr ⟨by decide, hempty⟩
  here := by decide

theorem bareWorkspace_isNormal : (⟨"/w"⟩ : Path).IsNormal :=
  ⟨["w".toList], by decide +kernel⟩

theorem bareWorkspace_pointer (text : List Char) :
    bareWorkspace.readText ((⟨"/w"⟩ : Path).join pointerName) ≠ .ok text := by
  intro h
  have herror : (bareWorkspace.readText ((⟨"/w"⟩ : Path).join pointerName)).toOption = none := by
    decide +kernel
  rw [h] at herror
  cases herror

theorem candidates_inside_library :
    let source : Path := ⟨"/w/lib/a.c"⟩
    candidates {} bareWorkspace source ⟨"/w"⟩ = [⟨"/w/compile_commands.json"⟩,
        ⟨"/w/build/compile_commands.json"⟩, ⟨"/w/lib/compile_commands.json"⟩] ∧
      ∀ p ∈ candidates {} bareWorkspace source ⟨"/w"⟩,
        ∃ d, p.parent? = some d ∧ d.startsWith ⟨"/w"⟩ = true := by
  intro source
  have hinside := @candidates_inside_iff {} bareWorkspace ⟨"/w"⟩ bareWorkspace_wellNamed
    bareWorkspace_isNormal rfl bareWorkspace_pointer source
  have hsource : source.same ⟨"/w"⟩ = false := by decide +kernel
  refine ⟨by decide +kernel, hinside.1.mpr fun hsame => ?_⟩
  rw [hsource] at hsame
  cases hsame

/-- From the root of a workspace the search goes on above it, up to the root of
    all files. -/
theorem candidates_above_workspace :
    bareWorkspace.WellNamed ∧ (⟨"/w"⟩ : Path).IsNormal ∧
      (∀ text, bareWorkspace.readText ((⟨"/w"⟩ : Path).join pointerName) ≠ .ok text) ∧
      (⟨"/compile_commands.json"⟩ : Path) ∈ candidates {} bareWorkspace ⟨"/w"⟩ ⟨"/w"⟩ ∧
      (⟨"/compile_commands.json"⟩ : Path).parent? = some ⟨"/"⟩ ∧
      (⟨"/"⟩ : Path).startsWith ⟨"/w"⟩ = false :=
  ⟨bareWorkspace_wellNamed, bareWorkspace_isNormal, bareWorkspace_pointer, by decide +kernel,
    by decide +kernel, by decide +kernel⟩

end Resolver

end CompilerRemarks

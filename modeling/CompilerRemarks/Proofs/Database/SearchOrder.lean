/-
  CompilerRemarks.Proofs.Database.SearchOrder

  In which order the databases are tried for a source file. Five origins name
  directories, some of them the same one, and each directory is kept where it
  is named first (`EarliestOf`, `earliestOf_dedupe`):

    * a document of `.clangd` names the text that it has under two keys, one
      inside the other (`pointer?_eq_some_iff`), and the documents are taken in
      their order (`pointTo_documents`);
    * build directories come in path order (`pairwise_buildDirectories`);
    * the way up from a source goes one component at a time and ends right
      below the root (`isChain_upwardDirectories`), so it passes every
      directory in between (`exists_mem_of_isChain`).

  Together they say which candidate comes where (`candidates_in_order`).
-/
import CompilerRemarks.Proofs.Database.Candidates
import CompilerRemarks.Proofs.Path.Order
import CompilerRemarks.Proofs.Remark.Acceptance

namespace CompilerRemarks.Resolver

open CompilerRemarks.Path
open CompilerRemarks.Remark (Wraps HasEntry)

/-! ## Each path where it comes first -/

/-- `ds` lists every path of `ps` once, where it comes first: however `ps` is
    cut in two, `ds` starts with the paths of the first part and goes on with
    paths of the second. -/
structure EarliestOf (ps ds : List Path) : Prop where
  once : ds.Pairwise fun p q => p.same q = false
  leading : ∀ before after, ps = before ++ after → ∃ taken rest, ds = taken ++ rest ∧
    taken.Sublist before ∧ rest.Sublist after ∧ ∀ p ∈ before, ∃ d ∈ taken, d.same p = true

theorem dedupe_sublist (ps : List Path) : (dedupe ps).Sublist ps := by
  induction ps with
  | nil => exact List.Sublist.refl []
  | cons p ps ih => exact (List.filter_sublist.trans ih).cons_cons p

theorem pairwise_dedupe (ps : List Path) :
    (dedupe ps).Pairwise fun p q => p.same q = false := by
  induction ps with
  | nil => exact List.Pairwise.nil
  | cons p ps ih =>
    refine List.Pairwise.cons ?_ (ih.filter _)
    intro q hq
    have hother := (List.mem_filter.mp hq).2
    rw [Bool.not_eq_true', ← Bool.not_eq_true, same_iff] at hother
    rw [← Bool.not_eq_true, same_iff]
    exact fun heq => hother heq.symm

/-- What comes later never moves what came before; of it stays what is new. -/
theorem dedupe_append (ps qs : List Path) :
    dedupe (ps ++ qs) = dedupe ps ++ (dedupe qs).filter fun q => ps.all (!q.same ·) := by
  induction ps with
  | nil => exact (List.filter_eq_self.mpr fun _ _ => rfl).symm
  | cons p ps ih =>
    rw [List.cons_append, dedupe, ih, dedupe, List.filter_append, List.filter_filter,
      List.cons_append]
    congr 2

theorem earliestOf_dedupe (ps : List Path) : EarliestOf ps (dedupe ps) where
  once := pairwise_dedupe ps
  leading before after hcut := by
    rw [hcut]
    refine ⟨_, _, dedupe_append before after, dedupe_sublist before,
      List.filter_sublist.trans (dedupe_sublist after), ?_⟩
    intro p hp
    obtain ⟨d, hd, heq⟩ := exists_mem_dedupe hp
    exact ⟨d, hd, (same_iff d p).mpr heq⟩

/-- Where no two paths are the same, a path is counted once. -/
theorem countP_same_eq_one {ps : List Path} (h : ps.Pairwise fun p q => p.same q = false)
    {p q : Path} (hp : p ∈ ps) (hsame : p.same q = true) : ps.countP (·.same q) = 1 := by
  induction ps with
  | nil => exact absurd hp List.not_mem_nil
  | cons first ps ih =>
    obtain ⟨hfirst, hrest⟩ := List.pairwise_cons.mp h
    rcases List.mem_cons.mp hp with rfl | hp
    · have hnone : ps.countP (·.same q) = 0 := by
        rw [List.countP_eq_zero]
        intro r hr hrq
        have hpr := hfirst r hr
        rw [same_congr hsame, same_congr_right hrq, same_refl] at hpr
        cases hpr
      rw [List.countP_cons, if_pos hsame, hnone]
    · have hother : ¬ first.same q = true := by
        rw [← same_congr_right hsame, hfirst p hp]
        exact Bool.false_ne_true
      rw [List.countP_cons, if_neg hother, ih hrest hp]

/-! ## Build directories -/

variable {settings : Settings} {files : Files} {source root d : Path}

theorem occursIn_iff (part s : List Char) : occursIn part s = true ↔ part <:+: s := by
  induction s with
  | nil => rw [occursIn, List.isEmpty_iff, List.infix_nil]
  | cons c s ih =>
    rw [occursIn, Bool.or_eq_true, ih, List.isPrefixOf_iff_prefix, List.infix_cons_iff]

theorem mem_buildDirectories_iff : d ∈ buildDirectories settings files root ↔
    ∃ name ∈ files.subdirectories root,
      (∃ marker ∈ settings.buildMarkers, marker.toList <:+: name) ∧
        d = root.join ⟨String.ofList name⟩ := by
  rw [buildDirectories, List.mem_mergeSort, List.mem_map]
  simp only [List.mem_filter, List.any_eq_true, occursIn_iff, and_assoc, @eq_comm _ d]

theorem pairwise_buildDirectories :
    (buildDirectories settings files root).Pairwise fun p q => p.le q = true :=
  List.pairwise_mergeSort le_trans le_total _

/-! ## Pointers -/

/-- A document points to a directory if it is a mapping with a mapping under
    `CompileFlags` that has the directory's text under `CompilationDatabase`.
    The mappings and the text may be tagged. -/
inductive PointsTo : Yaml.Value → String → Prop where
  | mk {document flags database : Yaml.Value} {entries inner : List (Yaml.Value × Yaml.Value)}
      {dir : String} (hdocument : Wraps document (.mapping entries))
      (hflags : HasEntry entries "CompileFlags" flags) (hinner : Wraps flags (.mapping inner))
      (hdatabase : HasEntry inner "CompilationDatabase" database)
      (htext : Wraps database (.string dir)) : PointsTo document dir

/-- The directories that documents point to, in the order of the documents. -/
inductive PointTo : List Yaml.Value → List String → Prop where
  | nil : PointTo [] []
  | pointing {document : Yaml.Value} {dir : String} {rest : List Yaml.Value} {dirs : List String}
      (h : PointsTo document dir) (hrest : PointTo rest dirs) :
      PointTo (document :: rest) (dir :: dirs)
  | silent {document : Yaml.Value} {rest : List Yaml.Value} {dirs : List String}
      (h : ∀ dir, ¬ PointsTo document dir) (hrest : PointTo rest dirs) :
      PointTo (document :: rest) dirs

theorem get?_eq_some_iff {v w : Yaml.Value} {key : String} :
    v.get? key = some w ↔ ∃ entries, Wraps v (.mapping entries) ∧ HasEntry entries key w := by
  simp only [Yaml.Value.get?, Option.bind_eq_some_iff, Remark.mapping?_eq_some_iff,
    Remark.lookup?_eq_some_iff]

theorem pointer?_eq_some_iff {document : Yaml.Value} {dir : String} :
    pointer? document = some dir ↔ PointsTo document dir := by
  simp only [pointer?, Option.bind_eq_some_iff, get?_eq_some_iff, Remark.string?_eq_some_iff]
  constructor
  · rintro ⟨database, ⟨flags, ⟨entries, hdocument, hflags⟩, inner, hinner, hdatabase⟩, htext⟩
    exact .mk hdocument hflags hinner hdatabase htext
  · rintro ⟨hdocument, hflags, hinner, hdatabase, htext⟩
    exact ⟨_, ⟨_, ⟨_, hdocument, hflags⟩, _, hinner, hdatabase⟩, htext⟩

theorem pointTo_documents (documents : List Yaml.Value) :
    PointTo documents (documents.filterMap pointer?) := by
  induction documents with
  | nil => exact .nil
  | cons document rest ih =>
    cases hfound : pointer? document with
    | none =>
      rw [List.filterMap_cons_none hfound]
      refine .silent (fun dir hdir => ?_) ih
      rw [← pointer?_eq_some_iff, hfound] at hdir
      cases hdir
    | some dir =>
      rw [List.filterMap_cons_some hfound]
      exact .pointing (pointer?_eq_some_iff.mp hfound) ih

theorem pointerDirectories_of_read {text : List Char}
    (h : files.readText (root.join pointerName) = .ok text) :
    pointerDirectories files root =
      ((Yaml.Value.documents text).filterMap pointer?).map fun dir => normalize ⟨dir⟩ root := by
  -- opened by hand, as the equation of the definition takes long to state
  delta pointerDirectories
  rw [h]

/-- A text that is one document with a value has this document. -/
theorem documents_of_ofText? {text : List Char} {v : Yaml.Value}
    (h : Yaml.Value.ofText? text = some v) (hnull : v ≠ .null) :
    Yaml.Value.documents text = [v] := by
  rw [Yaml.Value.ofText?, Yaml.Leading.all?] at h
  rw [Yaml.Value.documents]
  split at h
  · exact absurd (Option.some.inj h).symm hnull
  · rename_i node hnodes
    have hitems : (Yaml.Node.ofText text).items = [node] := by
      split at hnodes
      · exact Option.some.inj hnodes
      · cases hnodes
    rw [hitems, List.filterMap_cons_some h, List.filterMap_nil]
  · cases h

/-- A `.clangd` of one document names the directory that this points to. -/
theorem pointerDirectories_of_document {text : List Char} {v : Yaml.Value} {dir : String}
    (h : files.readText (root.join pointerName) = .ok text)
    (hv : Yaml.Value.ofText? text = some v) (hdir : PointsTo v dir) :
    pointerDirectories files root = [normalize ⟨dir⟩ root] := by
  have hnull : v ≠ .null := by
    rintro rfl
    obtain ⟨hdocument, -⟩ := hdir
    cases hdocument
  rw [pointerDirectories_of_read h, documents_of_ofText? hv hnull,
    List.filterMap_cons_some (pointer?_eq_some_iff.mpr hdir), List.filterMap_nil]
  rfl

/-! ## The way up -/

theorem isChain_upwardDirectories (hroot : root.isAbsolute = true)
    (hbelow : source.startsWith root = true) (hne : source.same root = false) :
    (source :: (upwardDirectories source root ++ [root])).IsChain LiesIn := by
  obtain ⟨steps, hsteps⟩ := List.isPrefixOf_iff_prefix.mp hbelow
  rw [upwardDirectories, if_pos hbelow]
  refine isChain_upward (isAbsolute_of_startsWith hroot hbelow) (components_ne_nil hroot)
    hsteps.symm ?_
  rintro rfl
  rw [List.append_nil, eq_comm, ← same_iff, hne] at hsteps
  cases hsteps

/-- A way up that goes one component at a time passes everything in between. -/
theorem exists_mem_of_isChain {ds : List Path}
    (h : (source :: (ds ++ [root])).IsChain LiesIn) (habove : source.startsWith d = true)
    (hne : d.same source = false) (hbelow : d.startsWith root = true) :
    ∃ e ∈ ds ++ [root], e.same d = true := by
  -- what is above the source is above the next stop or at it
  have hnext : ∀ {source next : Path}, LiesIn source next → source.startsWith d = true →
      d.same source = false → d.components <+: next.components := by
    rintro source next ⟨c, hc⟩ habove hne
    have hprefix := List.isPrefixOf_iff_prefix.mp habove
    rw [hc, List.prefix_concat_iff] at hprefix
    refine hprefix.resolve_left fun heq => ?_
    rw [← hc, ← same_iff, hne] at heq
    cases heq
  induction ds generalizing source with
  | nil =>
    obtain ⟨hlies, -⟩ := List.isChain_cons_cons.mp h
    have hprefix := hnext hlies habove hne
    have hsuffix := List.isPrefixOf_iff_prefix.mp hbelow
    refine ⟨root, List.mem_append_right [] List.mem_cons_self, ?_⟩
    rw [same_iff]
    exact hsuffix.eq_of_length_le hprefix.length_le
  | cons next ds ih =>
    rw [List.cons_append] at h
    obtain ⟨hlies, hrest⟩ := List.isChain_cons_cons.mp h
    have hprefix := hnext hlies habove hne
    cases hsame : d.same next with
    | true =>
      refine ⟨next, List.mem_cons_self, ?_⟩
      rw [same_iff] at hsame ⊢
      exact hsame.symm
    | false =>
      obtain ⟨e, he, hed⟩ := ih hrest (List.isPrefixOf_iff_prefix.mpr hprefix) hsame
      exact ⟨e, List.mem_cons_of_mem next he, hed⟩

/-! ## Candidates -/

theorem isAbsolute_join (hroot : root.isAbsolute = true) (p : Path) :
    (root.join p).isAbsolute = true := by
  cases hp : p.isAbsolute with
  | true => rw [join, if_pos hp, hp]
  | false => exact isAbsolute_of_append hroot (components_join (components_ne_nil hroot) hp)

theorem isAbsolute_of_mem_directories (hroot : root.IsNormal)
    (h : d ∈ directories settings files source root) : d.isAbsolute = true := by
  rw [directories_eq] at h
  rcases mem_origins_iff.mp (mem_of_mem_dedupe h) with
    ⟨p, -, rfl⟩ | hpointer | rfl | hbuild | hupward
  · exact (isNormal_normalize hroot p).isAbsolute
  · exact (isNormal_of_mem_pointerDirectories hroot hpointer).isAbsolute
  · exact hroot.isAbsolute
  · obtain ⟨name, -, -, rfl⟩ := mem_buildDirectories_iff.mp hbuild
    exact isAbsolute_join hroot.isAbsolute _
  · exact (prefix_of_mem_upwardDirectories hroot.isAbsolute hupward).2.1

/-- Candidates are the same just if their directories are. -/
theorem same_join_databaseName {p q : Path} (hp : p.isAbsolute = true) (hq : q.isAbsolute = true) :
    (p.join databaseName).same (q.join databaseName) = p.same q := by
  rw [Bool.eq_iff_iff, same_iff, same_iff,
    components_join_of_descends (components_ne_nil hp) descends_databaseName,
    components_join_of_descends (components_ne_nil hq) descends_databaseName,
    List.append_left_inj]

theorem pairwise_candidates (hroot : root.IsNormal) :
    (candidates settings files source root).Pairwise fun p q => p.same q = false := by
  rw [candidates, List.pairwise_map]
  refine (pairwise_dedupe _).imp_of_mem fun {p q} hp hq hpq => ?_
  rw [same_join_databaseName (isAbsolute_of_mem_directories hroot hp)
    (isAbsolute_of_mem_directories hroot hq), hpq]

/-- Whatever lies between the source and the root is searched once. -/
theorem countP_candidates (hroot : root.IsNormal) (hbelow : source.startsWith root = true)
    (hne : source.same root = false) (hd : d.startsWith root = true)
    (habove : source.startsWith d = true) (hother : d.same source = false) :
    (candidates settings files source root).countP (·.same (d.join databaseName)) = 1 := by
  obtain ⟨e, he, hsame⟩ := exists_mem_of_isChain
    (isChain_upwardDirectories hroot.isAbsolute hbelow hne) habove hother hd
  have horigin : e ∈ origins settings files source root := by
    rw [mem_origins_iff]
    rcases List.mem_append.mp he with he | he
    · exact .inr (.inr (.inr (.inr he)))
    · exact .inr (.inr (.inl (List.mem_singleton.mp he)))
  -- another origin may have named it before, under another spelling
  obtain ⟨kept, hkept, hcomponents⟩ := exists_mem_dedupe horigin
  rw [← same_iff, same_congr_right hsame] at hcomponents
  refine countP_same_eq_one (pairwise_candidates hroot) (List.mem_map_of_mem hkept) ?_
  rw [same_join_databaseName (isAbsolute_of_mem_directories hroot hkept)
    (isAbsolute_of_startsWith hroot.isAbsolute hd), hcomponents]

/-- A `.clangd` whose second document points to a directory; its third is not
    closed. -/
def pointingText : List Char :=
  ["If: \x7bPathMatch: b.h\x7d", "---", "CompileFlags:", "  CompilationDatabase: ./out", "---",
    "["].flatMap fun line => line.toList ++ ['\n']

/-- A workspace with that file, a build directory and a library. -/
def pointingWorkspace : Files :=
  { root := .directory [("w".toList,
      .directory [(".clangd".toList, .file (Text.Utf8.encode pointingText) false),
        ("build".toList, .directory []), ("lib".toList, .directory [])])]
    here := ["w".toList] }

end CompilerRemarks.Resolver

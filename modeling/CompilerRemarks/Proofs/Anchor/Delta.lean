/-
  CompilerRemarks.Proofs.Anchor.Delta

  Reading a dump undoes the way in which it is written. `Tree` is a syntax
  tree whose locations hold whole places; `Tree.dump` writes it as a compiler
  does, with the file and the line of a place only where they differ from
  those of the place written last. From the dump come the anchors that the
  tree itself has (`anchors_dump`).

  Writer and reader walk the locations in the same order, and at each of them
  the cursor of the reader holds the place written last (`cursorAt`): reading
  one location keeps this (`read_write`), and so does reading a tree
  (`visit_write`).
-/
import CompilerRemarks.Anchor.Dump
import CompilerRemarks.Proofs.Anchor.Order
import CompilerRemarks.Proofs.Remark.Encoding

namespace CompilerRemarks.Anchor.Dump

/-! ## Trees with whole places -/

/-- The names under which the parts of a location are read. -/
def locationNames : List String := ["spellingLoc", "expansionLoc", "file", "line", "col"]

/-- The names under which the parts of a node are read. -/
def nodeNames : List String := ["kind", "name", "isImplicit", "loc", "range", "inner"]

/-- Members of an object under other names than those. -/
structure Others (names : List String) where
  members : List (String × Json)
  unread : ∀ m ∈ members, m.1 ∉ names

/-- A place, and what else is written of it. -/
structure Spot where
  place : Place
  others : Others locationNames

/-- A location of a tree. -/
inductive Site where
  /-- A location that is written and has no place. -/
  | nowhere (others : Others locationNames)
  | plain (spot : Spot)
  /-- Text from a macro: where it is spelled, and where the macro is used. -/
  | expanded (spelling expansion : Spot) (others : Others locationNames)

/-- The place of a location: in a macro, that of its use. -/
def Site.place? : Site → Option Place
  | .nowhere _ => none
  | .plain spot => some spot.place
  | .expanded _ expansion _ => some expansion.place

/-- A syntax tree. -/
inductive Tree where
  | node (kind name : Option String) (isImplicit : Bool) (loc first last : Option Site)
    (others : Others nodeNames) (inner : List Tree)

/-! ## Writing -/

/-- A member that is left out if there is no value for it. -/
def member (name : String) (value : Option Json) : List (String × Json) :=
  (value.map fun v => (name, v)).toList

/-- A place after the one written last: the file and the line stand there only
    if they are others. -/
def Spot.write (previous : Option Place) (s : Spot) : Json :=
  let file := s.place.file
  let line := s.place.position.line
  .object (s.others.members ++
    (member "file" (if previous.map (·.file) = some file then none else some (.string file)) ++
    (member "line"
        (if previous.map (·.position.line) = some line then none else some (.word line)) ++
    member "col" (some (.word s.place.position.column)))))

/-- A location; of a macro, the spelling goes first. -/
def Site.write (previous : Option Place) : Site → Json
  | .nowhere others => .object others.members
  | .plain spot => spot.write previous
  | .expanded spelling expansion others =>
    .object (others.members ++ (member "spellingLoc" (some (spelling.write previous)) ++
      member "expansionLoc" (some (expansion.write (some spelling.place)))))

/-- The place written last after a location: its own, if there is one. -/
def after (previous : Option Place) (site : Option Site) : Option Place :=
  (site.bind Site.place?).or previous

/-- The two ends of a node. -/
def writeRange (previous : Option Place) (first last : Option Site) : Option Json :=
  if first.isNone && last.isNone then none
  else some (.object (member "begin" (first.map (·.write previous)) ++
    member "end" (last.map (·.write (after previous first)))))

mutual

/-- The place written last after a tree: its location, its two ends and the
    trees inside it are written in this order. -/
def Tree.after (previous : Option Place) : Tree → Option Place
  | .node _ _ _ loc first last _ inner =>
    Tree.afterAll (Dump.after (Dump.after (Dump.after previous loc) first) last) inner

/-- The place written last after some trees. -/
def Tree.afterAll (previous : Option Place) : List Tree → Option Place
  | [] => previous
  | t :: rest => Tree.afterAll (t.after previous) rest

end

mutual

/-- A tree after the place written last. -/
def Tree.write (previous : Option Place) : Tree → Json
  | .node kind name isImplicit loc first last others inner =>
    let atFirst := Dump.after previous loc
    let atInner := Dump.after (Dump.after atFirst first) last
    .object (others.members ++
      (member "kind" (kind.map .string) ++
      (member "loc" (loc.map (·.write previous)) ++
      (member "range" (writeRange atFirst first last) ++
      (member "isImplicit" (if isImplicit then some (.bool true) else none) ++
      (member "name" (name.map .string) ++
      member "inner"
        (if inner.isEmpty then none else some (.array (Tree.writeAll atInner inner)))))))))

/-- Some trees after the place written last. -/
def Tree.writeAll (previous : Option Place) : List Tree → List Json
  | [] => []
  | t :: rest => t.write previous :: Tree.writeAll (t.after previous) rest

end

/-- A tree as a compiler dumps it. -/
def Tree.dump (t : Tree) : Json :=
  t.write none

/-! ## The anchors of a tree -/

/-- The kind of a node. -/
def Tree.kind? : Tree → Option String
  | .node kind .. => kind

/-- Whether a node is of one of these kinds. -/
def Tree.isOf (kinds : List String) (t : Tree) : Bool :=
  t.kind?.any kinds.contains

/-- What a node is anchored as: loops, and functions with a body among the
    nodes inside them, unless the compiler made them up. -/
def Tree.anchorKind? (t : Tree) : Option Anchor.Kind :=
  match t with
  | .node _ _ isImplicit _ _ _ _ inner =>
    if isImplicit then none
    else if t.isOf loopKinds then some .loop
    else if t.isOf functionKinds && inner.any (Tree.isOf bodyKinds) then some .function
    else none

/-- The anchor of a node: both its ends have a place, in the file. -/
def Tree.anchor? (file : Path) (t : Tree) : Option Anchor :=
  match t with
  | .node _ name _ _ first last _ _ =>
    match t.anchorKind?, first.bind Site.place?, last.bind Site.place? with
    | some kind, some start, some stop =>
      if Remark.sameFile ⟨start.file⟩ file && Remark.sameFile ⟨stop.file⟩ file then
        some ⟨kind, name, ⟨start.position, stop.position⟩⟩
      else none
    | _, _, _ => none

mutual

/-- The nodes of a tree, each before those inside it. -/
def Tree.nodes : Tree → List Tree
  | .node kind name isImplicit loc first last others inner =>
    .node kind name isImplicit loc first last others inner :: Tree.nodesOf inner

/-- The nodes of some trees. -/
def Tree.nodesOf : List Tree → List Tree
  | [] => []
  | t :: rest => t.nodes ++ Tree.nodesOf rest

end

/-! ## Reading what is written -/

theorem Location.ofMembers_append {members : List (String × Json)}
    (h : ∀ m ∈ members, m.1 ∉ locationNames) (l : Location) (rest : List (String × Json)) :
    Location.ofMembers l (members ++ rest) = Location.ofMembers l rest := by
  induction members with
  | nil => rfl
  | cons m more ih =>
    have hm : m.1 ∉ locationNames := h m List.mem_cons_self
    have hmore := ih fun x hx => h x (List.mem_cons_of_mem m hx)
    obtain ⟨spelling, expansion, file, line, column⟩ := l
    simp only [locationNames, List.mem_cons, List.not_mem_nil, or_false, not_or] at hm
    rw [List.cons_append, Location.ofMembers]
    simp only [beq_iff_eq, hm, if_false]
    exact hmore

theorem Location.ofJson_spot (previous : Option Place) (s : Spot) :
    Location.ofJson (s.write previous) =
      .mk none none
        (if previous.map (·.file) = some s.place.file then none else some s.place.file)
        (if previous.map (·.position.line) = some s.place.position.line then none
          else some s.place.position.line)
        (some s.place.position.column) := by
  simp only [Spot.write, Location.ofJson, Location.ofMembers_append s.others.unread,
    Location.empty]
  split
  · split
    · simp [member, Location.ofMembers]
    · simp [member, Location.ofMembers]
  · split
    · simp [member, Location.ofMembers]
    · simp [member, Location.ofMembers]

/-- The cursor of a reader that has read up to the place written last. -/
def cursorAt : Option Place → Cursor
  | none => ⟨none, 0⟩
  | some p => ⟨some p.file, p.position.line⟩

theorem file_cursorAt {previous : Option Place} {file : String}
    (h : previous.map (·.file) = some file) : (cursorAt previous).file = some file := by
  obtain ⟨p, rfl, rfl⟩ := Option.map_eq_some_iff.mp h
  rfl

theorem line_cursorAt {previous : Option Place} {line : UInt32}
    (h : previous.map (·.position.line) = some line) : (cursorAt previous).line = line := by
  obtain ⟨p, rfl, rfl⟩ := Option.map_eq_some_iff.mp h
  rfl

/-- What is left out of a place stands in the cursor. -/
theorem read_spot (previous : Option Place) (s : Spot) :
    (cursorAt previous).read (Location.ofJson (s.write previous)) =
      (cursorAt (some s.place), some s.place) := by
  have hfile : (if previous.map (·.file) = some s.place.file then none
      else some s.place.file).orElse (fun _ => (cursorAt previous).file) = some s.place.file := by
    split
    · rename_i h
      exact file_cursorAt h
    · rfl
  have hline : (if previous.map (·.position.line) = some s.place.position.line then none
      else some s.place.position.line).getD (cursorAt previous).line =
        s.place.position.line := by
    split
    · rename_i h
      exact line_cursorAt h
    · rfl
  rw [Location.ofJson_spot, Cursor.read, Cursor.readOptional, Cursor.move, hfile, hline]
  rfl

/-- Reading a location gives its place, and leaves the cursor there. -/
theorem read_write (previous : Option Place) (site : Site) :
    (cursorAt previous).read (Location.ofJson (site.write previous)) =
      (cursorAt (after previous (some site)), site.place?) := by
  cases site with
  | nowhere others =>
    have hempty : Location.ofJson (.object others.members) = .empty := by
      have h := Location.ofMembers_append others.unread .empty []
      rwa [List.append_nil] at h
    rw [Site.write, hempty, Location.empty, Cursor.read, Cursor.readOptional]
    cases previous <;> rfl
  | plain spot => exact read_spot previous spot
  | expanded spelling expansion others =>
    have hexpanded : Location.ofJson (Site.write previous (.expanded spelling expansion others)) =
        .mk (some (Location.ofJson (spelling.write previous)))
          (some (Location.ofJson (expansion.write (some spelling.place)))) none none none := by
      simp only [Site.write, Location.ofJson, Location.ofMembers_append others.unread,
        Location.empty]
      simp [member, Location.ofMembers]
    -- the place of the spelling is the last one when the expansion is read
    rw [hexpanded, Cursor.read, Cursor.readOptional, read_spot, read_spot]
    rfl

theorem readOptional_write (previous : Option Place) (site : Option Site) :
    (cursorAt previous).readOptional (site.map fun s => Location.ofJson (s.write previous)) =
      (cursorAt (after previous site), site.bind Site.place?) := by
  cases site with
  | none => rfl
  | some s => exact read_write previous s

/-! ## Nodes -/

theorem Node.ofMembers_append {members : List (String × Json)}
    (h : ∀ m ∈ members, m.1 ∉ nodeNames) (n : Node) (rest : List (String × Json)) :
    Node.ofMembers n (members ++ rest) = Node.ofMembers n rest := by
  induction members with
  | nil => rfl
  | cons m more ih =>
    have hm : m.1 ∉ nodeNames := h m List.mem_cons_self
    have hmore := ih fun x hx => h x (List.mem_cons_of_mem m hx)
    obtain ⟨kind, name, isImplicit, loc, first, last, inner⟩ := n
    simp only [nodeNames, List.mem_cons, List.not_mem_nil, or_false, not_or] at hm
    rw [List.cons_append, Node.ofMembers]
    simp only [beq_iff_eq, hm, if_false]
    exact hmore

section Members

variable (kind name : Option String) (isImplicit : Bool) (loc first last : Option Location)
  (inner : List Node) (rest : List (String × Json))

theorem ofMembers_kind (value : Option String) :
    Node.ofMembers (.mk none name isImplicit loc first last inner)
        (member "kind" (value.map .string) ++ rest) =
      Node.ofMembers (.mk value name isImplicit loc first last inner) rest := by
  cases value <;> simp [member, Node.ofMembers]

theorem ofMembers_name (value : Option String) :
    Node.ofMembers (.mk kind none isImplicit loc first last inner)
        (member "name" (value.map .string) ++ rest) =
      Node.ofMembers (.mk kind value isImplicit loc first last inner) rest := by
  cases value <;> simp [member, Node.ofMembers]

theorem ofMembers_isImplicit (value : Bool) :
    Node.ofMembers (.mk kind name false loc first last inner)
        (member "isImplicit" (if value then some (.bool true) else none) ++ rest) =
      Node.ofMembers (.mk kind name value loc first last inner) rest := by
  cases value <;> simp [member, Node.ofMembers, Json.bool?]

theorem ofMembers_loc (previous : Option Place) (site : Option Site) :
    Node.ofMembers (.mk kind name isImplicit none first last inner)
        (member "loc" (site.map (·.write previous)) ++ rest) =
      Node.ofMembers (.mk kind name isImplicit
        (site.map fun s => Location.ofJson (s.write previous)) first last inner) rest := by
  cases site <;> simp [member, Node.ofMembers]

theorem ofMembers_range (previous : Option Place) (start stop : Option Site) :
    Node.ofMembers (.mk kind name isImplicit loc none none inner)
        (member "range" (writeRange previous start stop) ++ rest) =
      Node.ofMembers (.mk kind name isImplicit loc
        (start.map fun s => Location.ofJson (s.write previous))
        (stop.map fun s => Location.ofJson (s.write (after previous start))) inner) rest := by
  cases start <;> cases stop <;>
    simp [member, writeRange, Node.ofMembers, rangeEnd, Json.get?]

end Members

/-- A node is read as it was written. -/
theorem ofJson_write (previous : Option Place) (kind name : Option String) (isImplicit : Bool)
    (loc first last : Option Site) (others : Others nodeNames) (inner : List Tree) :
    Node.ofJson (Tree.write previous (.node kind name isImplicit loc first last others inner)) =
      let atFirst := after previous loc
      let atLast := after atFirst first
      .mk kind name isImplicit (loc.map fun s => Location.ofJson (s.write previous))
        (first.map fun s => Location.ofJson (s.write atFirst))
        (last.map fun s => Location.ofJson (s.write atLast))
        (Node.listOf (Tree.writeAll (after atLast last) inner)) := by
  rw [Tree.write, Node.ofJson, Node.ofMembers_append others.unread, Node.empty, ofMembers_kind,
    ofMembers_loc, ofMembers_range, ofMembers_isImplicit, ofMembers_name]
  cases inner with
  | nil => rfl
  | cons t rest => simp [member, Node.ofMembers, Node.innerOf]

theorem kind?_write (previous : Option Place) (t : Tree) :
    (Node.ofJson (t.write previous)).kind? = t.kind? := by
  cases t with
  | node => rw [ofJson_write]; rfl

theorem any_listOf_writeAll (kinds : List String) (previous : Option Place) (ts : List Tree) :
    (Node.listOf (Tree.writeAll previous ts)).any
        (fun n => (n.kind?.map kinds.contains).getD false) = ts.any (Tree.isOf kinds) := by
  induction ts generalizing previous with
  | nil => rfl
  | cons t rest ih =>
    have hkind : (t.kind?.map kinds.contains).getD false = t.isOf kinds := by
      rw [Tree.isOf]
      cases t.kind? <;> rfl
    rw [Tree.writeAll, Node.listOf, List.any_cons, List.any_cons, ih, kind?_write, hkind]

/-- What a node is anchored as does not depend on its places. -/
theorem anchorKind?_write (previous : Option Place) (t : Tree) :
    (Node.ofJson (t.write previous)).anchorKind? = t.anchorKind? := by
  cases t with
  | node kind name isImplicit loc first last others inner =>
    rw [ofJson_write]
    -- a node without a kind is no loop and no function either way
    cases kind with
    | none => cases isImplicit <;> rfl
    | some kind =>
      simp only [Node.anchorKind?, Node.hasBody, any_listOf_writeAll]
      rfl

theorem anchor?_write (file : Path) (previous : Option Place) (kind name : Option String)
    (isImplicit : Bool) (loc first last : Option Site) (others : Others nodeNames)
    (inner : List Tree) :
    let t := Tree.node kind name isImplicit loc first last others inner
    Node.anchor? file (Node.ofJson (t.write previous)) (first.bind Site.place?)
      (last.bind Site.place?) = t.anchor? file := by
  intro t
  have hkind : (Node.ofJson (t.write previous)).anchorKind? = t.anchorKind? :=
    anchorKind?_write previous t
  rw [ofJson_write] at hkind ⊢
  simp only [Tree.anchor?, ← hkind, Node.anchor?, t]
  generalize Node.anchorKind? _ = anchored
  generalize first.bind Site.place? = start
  generalize last.bind Site.place? = stop
  cases anchored with
  | none => cases start <;> cases stop <;> simp
  | some kind => cases start <;> cases stop <;> rfl

/-! ## The walk -/

mutual

/-- Reading a tree gives the anchors of its nodes, and leaves the cursor at the
    place written last. -/
theorem visit_write (file : Path) (previous : Option Place) : (t : Tree) →
    visit file (cursorAt previous) (Node.ofJson (t.write previous)) =
      (cursorAt (t.after previous), t.nodes.filterMap (Tree.anchor? file))
  | .node kind name isImplicit loc first last others inner => by
    have hanchor := anchor?_write file previous kind name isImplicit loc first last others inner
    have hinner := visitAll_write file (after (after (after previous loc) first) last) inner
    dsimp only at hanchor
    rw [ofJson_write] at hanchor ⊢
    simp only [visit, readOptional_write, hinner, hanchor, Tree.nodes, Tree.after,
      List.filterMap_cons]
    cases Tree.anchor? file (.node kind name isImplicit loc first last others inner) <;> rfl

theorem visitAll_write (file : Path) (previous : Option Place) : (ts : List Tree) →
    visitAll file (cursorAt previous) (Node.listOf (Tree.writeAll previous ts)) =
      (cursorAt (Tree.afterAll previous ts), (Tree.nodesOf ts).filterMap (Tree.anchor? file))
  | [] => rfl
  | t :: rest => by
    have ht := visit_write file previous t
    have hrest := visitAll_write file (t.after previous) rest
    simp only [Tree.writeAll, Node.listOf, visitAll, ht, hrest, Tree.afterAll, Tree.nodesOf,
      List.filterMap_append]

end

/-- The anchors read from the dump of a tree are those of its nodes: sorted by
    range, and those of one range in the order of the tree. -/
theorem anchors_dump (file : Path) (t : Tree) :
    let expected := t.nodes.filterMap (Tree.anchor? file)
    let found := anchors file t.dump
    found.Perm expected ∧
    found.Pairwise (fun a b => a.le b = true) ∧
    ∀ range : Range, found.filter (·.range == range) = expected.filter (·.range == range) := by
  intro expected found
  -- the reader starts where nothing is written yet
  have hfound : found = sorted expected := by
    have hvisit := visit_write file none t
    show sorted (visit file (cursorAt none) (Node.ofJson (t.write none))).2 = sorted expected
    rw [hvisit]
  rw [hfound]
  exact ⟨sorted_perm expected, pairwise_sorted expected, filter_sorted expected⟩

/-- Of a loop on one line, only the first end is written with its line. -/
example :
    let site (column : UInt32) : Site := .plain ⟨⟨"a.c", ⟨3, column⟩⟩, ⟨[], by simp⟩⟩
    (Tree.node (some "ForStmt") none false none (some (site 5)) (some (site 9))
        ⟨[], by simp⟩ []).dump =
      .object [("kind", .string "ForStmt"), ("range", .object
        [("begin", .object [("file", .string "a.c"), ("line", .word 3), ("col", .word 5)]),
          ("end", .object [("col", .word 9)])])] := by
  rfl

end CompilerRemarks.Anchor.Dump

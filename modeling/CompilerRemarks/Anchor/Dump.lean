/-
  CompilerRemarks.Anchor.Dump

  Finding functions and loops in the syntax tree that a compiler dumps as
  JSON. A dump writes the file and the line of a location only where they
  differ from those of the location before it, so all locations are read in
  order, whether or not their node is kept.
-/
import CompilerRemarks.Anchor.Basic
import CompilerRemarks.Remark.Stream
import CompilerRemarks.Command

namespace CompilerRemarks.Anchor.Dump

/-! ## The tree -/

/-- A location as it is written. One inside a macro has two places: where the
    text is spelled and where the macro is used. -/
inductive Location where
  | mk (spelling expansion : Option Location) (file : Option String) (line column : Option UInt32)
  deriving Repr

/-- Nothing written. -/
def Location.empty : Location := .mk none none none none none

mutual

/-- The location of a JSON value. -/
def Location.ofJson : Json → Location
  | .object members => Location.ofMembers .empty members
  | _ => .empty

/-- Reads the members of a location; a later one replaces an earlier one of
    the same name. -/
def Location.ofMembers : Location → List (String × Json) → Location
  | l, [] => l
  | .mk spelling expansion file line column, (name, value) :: rest =>
    if name == "spellingLoc" then
      Location.ofMembers (.mk (some (Location.ofJson value)) expansion file line column) rest
    else if name == "expansionLoc" then
      Location.ofMembers (.mk spelling (some (Location.ofJson value)) file line column) rest
    else if name == "file" then
      Location.ofMembers (.mk spelling expansion value.string? line column) rest
    else if name == "line" then
      Location.ofMembers (.mk spelling expansion file value.word32? column) rest
    else if name == "col" then
      Location.ofMembers (.mk spelling expansion file line value.word32?) rest
    else Location.ofMembers (.mk spelling expansion file line column) rest

end

/-- A node of the tree. -/
inductive Node where
  | mk (kind name : Option String) (isImplicit : Bool) (loc first last : Option Location)
    (inner : List Node)
  deriving Repr

/-- A node about which nothing is written. -/
def Node.empty : Node := .mk none none false none none none []

/-- A member of a range as a location. -/
def rangeEnd (range : Json) (name : String) : Option Location :=
  (range.get? name).map Location.ofJson

mutual

/-- The node of a JSON value. -/
def Node.ofJson : Json → Node
  | .object members => Node.ofMembers .empty members
  | _ => .empty

/-- Reads the members of a node; a later one replaces an earlier one of the
    same name. -/
def Node.ofMembers : Node → List (String × Json) → Node
  | n, [] => n
  | .mk kind label isImplicit loc first last inner, (name, value) :: rest =>
    if name == "kind" then
      Node.ofMembers (.mk value.string? label isImplicit loc first last inner) rest
    else if name == "name" then
      Node.ofMembers (.mk kind value.string? isImplicit loc first last inner) rest
    else if name == "isImplicit" then
      Node.ofMembers (.mk kind label (value.bool? == some true) loc first last inner) rest
    else if name == "loc" then
      Node.ofMembers (.mk kind label isImplicit (some (Location.ofJson value)) first last inner)
        rest
    else if name == "range" then
      Node.ofMembers (.mk kind label isImplicit loc (rangeEnd value "begin")
        (rangeEnd value "end") inner) rest
    else if name == "inner" then
      Node.ofMembers (.mk kind label isImplicit loc first last (Node.innerOf value)) rest
    else Node.ofMembers (.mk kind label isImplicit loc first last inner) rest

/-- The nodes inside a node. -/
def Node.innerOf : Json → List Node
  | .array items => Node.listOf items
  | _ => []

/-- The nodes of a list. -/
def Node.listOf : List Json → List Node
  | [] => []
  | item :: rest => Node.ofJson item :: Node.listOf rest

end

/-! ## Places -/

/-- The file and the line of the last location. -/
structure Cursor where
  file : Option String
  line : UInt32
  deriving DecidableEq, Repr

/-- A place with all its parts. -/
structure Place where
  file : String
  position : Position
  deriving DecidableEq, Repr

/-- Takes over the file and the line of a place, where they are written. -/
def Cursor.move (c : Cursor) (file : Option String) (line : Option UInt32) : Cursor :=
  ⟨file.orElse fun _ => c.file, line.getD c.line⟩

/-- The place at the cursor in a column. -/
def Cursor.place? (c : Cursor) (column : Option UInt32) : Option Place :=
  match c.file, column with
  | some file, some column => some ⟨file, ⟨c.line, column⟩⟩
  | _, _ => none

mutual

/-- Reads a location: its place is that of the macro's use, if it is in one. -/
def Cursor.read (c : Cursor) : Location → Cursor × Option Place
  | .mk spelling (some expansion) _ _ _ => (c.readOptional spelling).1.read expansion
  | .mk spelling none file line column =>
    let c := (c.readOptional spelling).1.move file line
    (c, c.place? column)

/-- Reads a location if there is one. -/
def Cursor.readOptional (c : Cursor) : Option Location → Cursor × Option Place
  | some l => c.read l
  | none => (c, none)

end

/-! ## Anchors -/

/-- The kinds of nodes that are loops. -/
def loopKinds : List String := ["ForStmt", "WhileStmt", "DoStmt", "CXXForRangeStmt"]

/-- The kinds of nodes that are functions. -/
def functionKinds : List String :=
  ["FunctionDecl", "CXXMethodDecl", "CXXConstructorDecl", "CXXDestructorDecl",
    "CXXConversionDecl", "LambdaExpr"]

/-- The kinds of nodes that are bodies. -/
def bodyKinds : List String := ["CompoundStmt", "CXXTryStmt"]

/-- The kind of a node. -/
def Node.kind? : Node → Option String
  | .mk kind .. => kind

/-- Whether a node has a body among the nodes inside it. -/
def Node.hasBody : Node → Bool
  | .mk _ _ _ _ _ _ inner => inner.any fun n => (n.kind?.map bodyKinds.contains).getD false

/-- What a node is anchored as: loops, and functions that have a body, unless
    the compiler made them up. -/
def Node.anchorKind? (n : Node) : Option Anchor.Kind :=
  match n with
  | .mk kind _ isImplicit _ _ _ _ =>
    match kind with
    | none => none
    | some kind =>
      if isImplicit then none
      else if loopKinds.contains kind then some .loop
      else if functionKinds.contains kind && n.hasBody then some .function
      else none

/-- The anchor of a node whose ends are at two places of the file. -/
def Node.anchor? (file : Path) (n : Node) (first last : Option Place) : Option Anchor :=
  match n, first, last with
  | .mk _ name .., some first, some last =>
    if Remark.sameFile ⟨first.file⟩ file && Remark.sameFile ⟨last.file⟩ file then
      n.anchorKind?.map fun kind => ⟨kind, name, ⟨first.position, last.position⟩⟩
    else none
  | _, _, _ => none

mutual

/-- The anchors of a node and of those inside it, in order. -/
def visit (file : Path) (c : Cursor) : Node → Cursor × List Anchor
  | .mk kind name isImplicit loc first last inner =>
    let node : Node := .mk kind name isImplicit loc first last inner
    let c := (c.readOptional loc).1
    let (c, start) := c.readOptional first
    let (c, stop) := c.readOptional last
    let (c, below) := visitAll file c inner
    (c, (node.anchor? file start stop).toList ++ below)

/-- The anchors of a list of nodes, in order. -/
def visitAll (file : Path) (c : Cursor) : List Node → Cursor × List Anchor
  | [] => (c, [])
  | n :: rest =>
    let (c, found) := visit file c n
    let (c, more) := visitAll file c rest
    (c, found ++ more)

end

/-- The anchors of a file in a dump. -/
def anchors (file : Path) (dump : Json) : List Anchor :=
  sorted (visit file ⟨none, 0⟩ (Node.ofJson dump)).2

/-! ## The compiler's arguments -/

/-- The flags that make a compiler dump its tree and nothing else. -/
def dumpFlags : List String := ["-fsyntax-only", "-Xclang", "-ast-dump=json"]

/-- Whether a word starts with a text. -/
def startsWith (start word : String) : Bool :=
  start.toList.isPrefixOf word.toList

/-- Whether a word asks for an output file or an optimization record. -/
def isOutputFlag (word : String) : Bool :=
  word == "-c" || startsWith "-o" word || startsWith "-fsave-optimization-record" word ||
    startsWith "-foptimization-record-file" word

/-- The words of a command without output options, without the value of a
    lone `-o`, and without those that `drops` names. -/
def keptWords (drops : String → Bool) : List String → List String
  | [] => []
  | [word] => if isOutputFlag word || drops word then [] else [word]
  | word :: next :: rest =>
    if word == "-o" then keptWords drops rest
    else if isOutputFlag word || drops word then keptWords drops (next :: rest)
    else word :: keptWords drops (next :: rest)

/-- The arguments for a dump of a file: the flags of its compile command, if
    one is known, and the file. -/
def arguments (command : Option Command) (file : Path) : List String :=
  let kept := match command with
    | some c => keptWords (fun word =>
        Remark.sameFile ⟨word⟩ c.file || (Path.mk word).same file) (c.arguments.drop 1)
    | none => []
  dumpFlags ++ kept ++ [file.text]

end CompilerRemarks.Anchor.Dump

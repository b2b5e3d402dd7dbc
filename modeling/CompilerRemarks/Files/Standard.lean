/-
  CompilerRemarks.Files.Standard

  The file tree of a plain system: devices, a few installed programs, an
  empty directory for temporary files, and the search path for programs.
-/
import CompilerRemarks.Files.Edit

namespace CompilerRemarks.Files

/-- The installed programs. -/
def installed : List String :=
  ["bash", "sh", "cat", "head", "printf", "echo", "sleep", "true", "false", "test", "["]

/-- The directory of programs. -/
def programs : Entry :=
  .directory (installed.map fun name => (name.toList, .program name))

/-- The directory of devices. -/
def devices : Entry :=
  .directory [
    ("null".toList, .device .null),
    ("stdin".toList, .device .input),
    ("stdout".toList, .device .output),
    ("stderr".toList, .device .errors)]

/-- A system without any files of its own, with the root as working directory. -/
def standard : Files :=
  { root := .directory [
      ("bin".toList, programs),
      ("dev".toList, devices),
      ("etc".toList, .directory []),
      ("home".toList, .directory []),
      ("root".toList, .directory []),
      ("tmp".toList, .directory []),
      ("usr".toList, .directory [("bin".toList, programs)]),
      ("var".toList, .directory [])]
    here := [] }

/-- Where programs without a directory in their name are looked for. -/
def searchPath : List Path :=
  [⟨"/usr/local/sbin"⟩, ⟨"/usr/local/bin"⟩, ⟨"/usr/sbin"⟩, ⟨"/usr/bin"⟩, ⟨"/sbin"⟩, ⟨"/bin"⟩]

end CompilerRemarks.Files

import NodeInventory.Command.Process

/-!
# Where files are found
-/

namespace NodeInventory.Command

inductive File
  | directory
  /-- A file that cannot be run. -/
  | document
  | device
  | program
  /-- A name for another path. -/
  | link (target : String)
  /-- What the process itself has open under a number. -/
  | descriptor (number : Nat)
deriving DecidableEq, Repr

/-- Known files by the components of their paths, and the directory that relative paths start in. -/
structure Files where
  entries : List (List String × File)
  working : List String
deriving Repr

namespace Files

variable (files : Files)

def file? (path : List String) : Option File :=
  (files.entries.find? fun entry => entry.1 = path).map (·.2)

/-- The components of a path. -/
def components (path : String) : List String :=
  (Text.split (· == '/') path.toList).map String.ofList

/-- Follows the components of a path, those of `place` already followed.  A link in the last place
stands for what it names unless the link itself is wanted. -/
def follow (linkItself : Bool) : Nat → (place : List String) → List String →
    Except SpawnError (List String)
  | _, place, [] => if (files.file? place).isSome then .ok place else .error .notFound
  | 0, _, _ :: _ => .error .notFound
  | fuel + 1, place, component :: rest =>
      match files.file? place with
      | none => .error .notFound
      | some .directory =>
          if component = "" || component = "." then follow linkItself fuel place rest
          else if component = ".." then follow linkItself fuel place.dropLast rest
          else if 255 < component.utf8ByteSize then .error .nameTooLong
          else
            let next := place ++ [component]
            match files.file? next with
            | some (.link target) =>
                if linkItself && rest = [] then .ok next
                else
                  let start := if target.startsWith "/" then [] else place
                  follow linkItself fuel start (components target ++ rest)
            | _ => follow linkItself fuel next rest
      | some _ => .error .notDirectory

def resolveWith (linkItself : Bool) (path : String) : Except SpawnError (List String) :=
  if path = "" then .error .notFound
  else if 4096 ≤ path.utf8ByteSize then .error .nameTooLong
  else
    let place := if path.startsWith "/" then [] else files.working
    let components := components path
    files.follow linkItself (components.length + 1000) place components

/-- The components of the file at a path, with none of them a link. -/
def resolve (path : String) : Except SpawnError (List String) := files.resolveWith false path

def fileAt? (path : String) : Option File :=
  match files.resolve path with
  | .ok place => files.file? place
  | .error _ => none

/-- Whether a path is that of a link. -/
def isLink (path : String) : Bool :=
  match files.resolveWith true path with
  | .ok place => (files.file? place matches some (.link _) | some (.descriptor _))
  | .error _ => false

/-- The program at a path. -/
def program (path : String) : Except SpawnError Unit := do
  match files.file? (← files.resolve path) with
  | some .program => return ()
  | _ => throw .permissionDenied

/-- Directories that are searched when no environment names any. -/
def usualPath : String := "/bin:/usr/bin"

/-- The path of the program of a name: the name itself if it has a slash, otherwise the first found
in the directories of the search path.  A directory without it does not end the search. -/
def lookUp (searchPath : String) (name : String) : Except SpawnError String :=
  let tried (path : String) : Except SpawnError String := (files.program path).map fun _ => path
  if name = "" then .error .notFound
  else if name.toList.contains '/' then tried name
  else if 255 < name.utf8ByteSize then .error .nameTooLong
  else
    let directories := (Text.split (· == ':') searchPath.toList).map String.ofList
    let found := directories.map fun directory =>
      tried (if directory = "" then name else directory ++ "/" ++ name)
    match found.find? (· matches .ok _) with
    | some path => path
    | none =>
        if found.any (· matches .error .permissionDenied) then .error .permissionDenied
        else (found.getLast?).getD (.error .notFound)

/-- The components of a path whose last component may be new. -/
def resolveNew (path : String) : Except SpawnError (List String) := do
  match files.resolve path with
  | .ok place => return place
  | .error _ =>
      let components := Text.split (· == '/') path.toList
      match components.getLast? with
      | none | some [] => throw .notFound
      | some last =>
          let directory := String.ofList (List.intercalate ['/'] components.dropLast)
          let place ← files.resolve (if 1 < components.length then directory ++ "/" else ".")
          match files.file? place with
          | some .directory => return place ++ [String.ofList last]
          | _ => throw .notDirectory

def add (path : List String) (file : File) : Files :=
  if (files.file? path).isSome then files
  else { files with entries := files.entries ++ [(path, file)] }

/-- The names in a directory, in order. -/
def names (place : List String) : List String :=
  let inside := files.entries.filterMap fun entry =>
    if entry.1 ≠ [] && entry.1.dropLast = place then entry.1.getLast? else none
  inside.mergeSort

/-- A small system. -/
def usual : Files where
  entries :=
    let directories := ["boot", "dev", "dev/pts", "dev/shm", "etc", "home", "media", "mnt", "opt",
      "proc", "proc/self", "proc/self/fd", "root", "run", "srv", "sys", "tmp", "usr", "usr/bin",
      "usr/include", "usr/lib", "usr/local", "usr/local/bin", "usr/local/lib", "usr/local/sbin",
      "usr/sbin", "usr/share", "usr/src", "var", "var/cache", "var/lib", "var/log", "var/spool",
      "var/tmp"]
    let links := [("bin", "usr/bin"), ("lib", "usr/lib"), ("sbin", "usr/sbin"),
      ("dev/fd", "/proc/self/fd"), ("dev/stdin", "/proc/self/fd/0"),
      ("dev/stdout", "/proc/self/fd/1"), ("dev/stderr", "/proc/self/fd/2"),
      ("etc/mtab", "../proc/self/mounts"), ("var/lock", "/run/lock"), ("var/run", "/run"),
      ("usr/bin/sh", "dash")]
    let devices := ["dev/full", "dev/null", "dev/random", "dev/tty", "dev/urandom", "dev/zero"]
    let documents := ["etc/fstab", "etc/group", "etc/hostname", "etc/hosts", "etc/nsswitch.conf",
      "etc/passwd", "etc/profile", "etc/resolv.conf", "etc/shadow", "proc/cmdline",
      "proc/cpuinfo", "proc/meminfo", "proc/self/mounts", "proc/version"]
    let programs := ["[", "cat", "dash", "echo", "env", "false", "printenv", "sleep", "test",
      "true"]
    let named (kind : File) (path : String) : List String × File := (components path, kind)
    ([], .directory) :: directories.map (named .directory)
      ++ links.map (fun link => named (.link link.2) link.1)
      ++ (List.range 10).map (fun n => named (.descriptor n) ("proc/self/fd/" ++ toString n))
      ++ devices.map (named .device) ++ documents.map (named .document)
      ++ programs.map fun name => named .program ("usr/bin/" ++ name)
  working := ["tmp"]

end Files

end NodeInventory.Command

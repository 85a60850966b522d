import NodeInventory.Command.Shell.Builtin
import NodeInventory.Command.Shell.Expansion

/-!
# Redirections

A redirection leads a descriptor elsewhere, or closes it.  Those of a command hold while it runs.
-/

namespace NodeInventory.Command.Shell

namespace Run

def setDescriptor (descriptor : Nat) (channel? : Option Channel) : Run Unit :=
  modify fun state => { state with
    descriptors := match channel? with
      | some channel => setEntry descriptor channel state.descriptors
      | none => state.descriptors.filter fun entry => entry.1 ≠ descriptor }

/-- A source of some texts. -/
def newSource (supply : Supply) : Run Channel := do
  let number ← newNumber
  modify fun state => { state with supplies := (number, supply) :: state.supplies }
  return .source number

def device (place : List String) : Channel :=
  match place with
  | ["dev", "full"] => .full
  | ["dev", "zero"] => .zeros
  | _ => .nothing

/-- Opens a file that is there. -/
def openHandle (place : List String) (atEnd : Bool) : Run Channel := do
  let number ← newNumber
  modify fun state => { state with handles := (number, ⟨place, 0, atEnd⟩) :: state.handles }
  return .file number

/-- Opens what is open already; a file is read or written from its start. -/
def again (channel : Channel) : Run Channel := do
  let state ← get
  match channel with
  | .file number =>
      match state.handles.lookup number with
      | some handle => openHandle handle.path handle.atEnd
      | none => return channel
  | _ => return channel

def refuseOpening (verb reason : String) (path : List Char) : Run Channel :=
  fail ("cannot ".toList ++ verb.toList ++ ' ' :: path ++ (": " ++ reason).toList)

def openToRead (path : List Char) : Run Channel := do
  let state ← get
  match state.here.resolve (String.ofList path) with
  | .error .nameTooLong => refuseOpening "open" "File name too long" path
  | .error _ => refuseOpening "open" "No such file" path
  | .ok place =>
      match state.files.file? place with
      | some .device =>
          if place = ["dev", "tty"] then refuseOpening "open" "No such device or address" path
          else return device place
      | some .directory => return .directory
      | some (.descriptor number) =>
          match state.channel? number with
          | some channel => again channel
          | none => refuseOpening "open" "No such file" path
      | _ => openHandle place false

def openToWrite (path : List Char) (kind : RedirectKind) : Run Channel := do
  let state ← get
  match state.here.resolveNew (String.ofList path) with
  | .error .nameTooLong => refuseOpening "create" "File name too long" path
  | .error _ => refuseOpening "create" "Directory nonexistent" path
  | .ok place =>
      match state.files.file? place with
      | some .device =>
          if place = ["dev", "tty"] then refuseOpening "create" "No such device or address" path
          else return device place
      | some (.descriptor number) =>
          match state.channel? number with
          | some channel => again channel
          | none => refuseOpening "create" "Directory nonexistent" path
      | some .directory => refuseOpening "create" "Is a directory" path
      | found? =>
          if kind == .write && found?.isSome && state.isOn "noclobber" then
            refuseOpening "create" "File exists" path
          else
            set { state with files := state.files.add place .document }
            if kind == .write || kind == .force then
              modify fun state => state.setContent place []
            openHandle place (kind == .append)

end Run

open Run

variable (capture : Option Node → Run (List Char))

/-- Fails because of a descriptor, at the line up to which the script has been read. -/
def failDescriptor {α : Type} : Run α := do
  modify fun state => { state with line := state.reached }
  fail "Syntax error: Bad fd number".toList

/-- What a redirection comes to, with its word expanded. -/
def opening : Redirect → Run (Nat × Opening)
  | .to descriptor kind word number => do
      match kind with
      | .document => return (descriptor, .document number)
      | .duplicateInput | .duplicateOutput =>
          match (← expandFields capture word).headD [] with
          | ['-'] => return (descriptor, .copy none)
          | [c] =>
              if !c.isDigit then failDescriptor
              return (descriptor, .copy (some (c.toNat - '0'.toNat)))
          | _ => failDescriptor
      | _ => return (descriptor, .path kind (← expandText capture .whole word))

/-- What redirections come to; a failure here is none of the command that they belong to. -/
def openingsOf (redirects : List Redirect) : Run (List (Nat × Opening)) :=
  redirects.mapM (opening capture)

/-- Leads a descriptor elsewhere. -/
def lead (descriptor : Nat) : Opening → Run Unit
  | .path .read path => do setDescriptor descriptor (some (← openToRead path))
  | .path kind path => do setDescriptor descriptor (some (← openToWrite path kind))
  | .copy none => setDescriptor descriptor none
  | .copy (some source) => do
      if source = descriptor then return
      match (← get).channel? source with
      | some channel => setDescriptor descriptor (some channel)
      | none => fail (toString source ++ ": Bad file descriptor").toList
  | .document number => do
      let word := ((← get).documents.lookup number).getD []
      let text ← expandText capture .quotes word
      let texts := if text.isEmpty then [] else [(0, text)]
      setDescriptor descriptor (some (← newSource ⟨texts, some 0⟩))

/-- Leads descriptors elsewhere, one after the other.  Where they are kept to be opened again, the
first copy closes standard error before it is made, so that nobody hears if it cannot be. -/
def leadAll (keeps : Bool) : List (Nat × Opening) → Run Unit
  | [] => return
  | (descriptor, opening) :: rest => do
      let copies : Bool := match opening with
        | .copy (some source) => source ≠ descriptor
        | _ => false
      if keeps && copies && descriptor = 2 then setDescriptor 2 none
      lead capture descriptor opening
      leadAll (keeps && descriptor ≠ 2) rest

/-- Redirects; tells whether a redirection has failed, which undoes those before it. -/
def leadOrUndo (openings : List (Nat × Opening)) : Run Bool := fun state =>
  match leadAll capture true openings state with
  | (.ok (), after) => (.ok false, after)
  | (.error .failed, after) => (.ok true, { after with descriptors := state.descriptors })
  | (.error reason, after) => (.error reason, after)

/-- Redirects for as long as a body runs, unless a redirection fails; tells whether one has. -/
def redirected (openings : List (Nat × Opening)) (body : Run Unit) : Run Bool := do
  if openings.isEmpty then
    body
    return false
  let before ← get
  let restore (state : State) : State :=
    { state with descriptors := before.descriptors, kept := before.kept }
  set { before with kept := before.descriptors :: before.kept }
  let failed ← leadOrUndo capture openings
  thenRestore restore (if failed then return else body)
  return failed

end NodeInventory.Command.Shell

import StubListing.Disk.Resolve
/-!
# Reading and changing a tree

The single calls to the system: each one looks a path up and reads or changes what is there, or
refuses and changes nothing. Only `makeDirectories` consists of several calls, so it may leave
directories behind when it fails.
-/
namespace StubListing.Disk

/-- Something new at the place that the path names, which has to be free. -/
def place (d : Disk) (p : Path) (e : Entry) : Except SystemError Disk := do
  match ← d.locate p with
  | none => .error .alreadyThere
  | some (directory, name) =>
    if (d.get? (directory ++ [name])).isSome then .error .alreadyThere
    else .ok (d.put (directory ++ [name]) e)

def makeDirectory (d : Disk) (p : Path) : Except SystemError Disk := d.place p .directory

/-- A new symbolic link, whatever its target. -/
def makeLink (d : Disk) (target : String) (p : Path) : Except SystemError Disk :=
  if target.toList.contains '\x00' then .error .nullInPath
  else if target = "" then .error .notFound
  else if pathLimit ≤ target.utf8ByteSize then .error .nameTooLong
  else if p.text.toList.getLast? = some '/' && (d.find p).toOption.isNone then .error .notFound
  else d.place p (.link target)

/-- Make directories so that the first path of the list becomes one. Each path is the parent of
the one before it. What needs no making is the empty path, the last of the list, and a directory
that somebody else has made meanwhile. -/
def makeChain : List Path → Disk → Except SystemError Unit × Disk
  | [], d => (.ok (), d)
  | p :: above, d =>
    if p.components = [] || above.isEmpty then (.ok (), d)
    else match d.makeDirectory p with
      | .ok d => (.ok (), d)
      | .error .notFound =>
        match makeChain above d with
        | (.error e, d) => (.error e, d)
        | (.ok (), d) =>
          match d.makeDirectory p with
          | .ok d => (.ok (), d)
          | .error .alreadyThere =>
            if d.isDirectory p then (.ok (), d) else (.error .alreadyThere, d)
          | .error e => (.error e, d)
      | .error .alreadyThere =>
        if d.isDirectory p then (.ok (), d) else (.error .alreadyThere, d)
      | .error e => (.error e, d)

/-- Make the directory and those above it, as far as they are missing. -/
def makeDirectories (d : Disk) (p : Path) : Except SystemError Unit × Disk :=
  makeChain p.ancestors d

/-- Open a file for writing: it is emptied, or made if it is missing. The place of the file is
given with the tree. -/
def create (d : Disk) (p : Path) : Except SystemError (Location × Disk) :=
  if p.text.toList.getLast? = some '/' then
    match d.locate p with
    | .ok _ => .error .isADirectory
    | .error e => .error e
  else do
    match ← d.resolve p with
    | .vacant _ _ true => .error .isADirectory
    | .vacant directory name false =>
      .ok (directory ++ [name], d.put (directory ++ [name]) (.file .empty))
    | .reached place =>
      match d.get? place with
      | some (.file _) => .ok (place, d.put place (.file .empty))
      | _ => .error .isADirectory

/-- Write into the file at the place, from its beginning. -/
def write (d : Disk) (place : Location) (content : ByteArray) : Disk :=
  match d.get? place with
  | some (.file old) =>
    d.put place (.file (content ++ old.extract content.size old.size))
  | _ => d

def content (d : Disk) (p : Path) : Except SystemError ByteArray := do
  match d.get? (← d.find p) with
  | some (.file bytes) => .ok bytes
  | _ => .error .isADirectory

def text (d : Disk) (p : Path) : Except SystemError String := do
  match String.fromUTF8? (← d.content p) with
  | some s => .ok s
  | none => .error .notText

/-- Remove a file or a link, not what it leads to. -/
def removeFile (d : Disk) (p : Path) : Except SystemError Disk := do
  match ← d.locate p with
  | none => .error .isADirectory
  | some (directory, name) =>
    match d.get? (directory ++ [name]) with
    | none => .error .notFound
    | some .directory => .error .isADirectory
    | some _ =>
      if p.text.toList.getLast? = some '/' then .error .notADirectory
      else .ok (d.drop (directory ++ [name]))

/-- Remove an empty directory. -/
def removeDirectory (d : Disk) (p : Path) : Except SystemError Disk := do
  match ← d.locate p with
  | none => .error .badRequest
  | some (directory, name) =>
    match d.get? (directory ++ [name]) with
    | none => .error .notFound
    | some .directory =>
      if (d.children (directory ++ [name])).isEmpty then .ok (d.drop (directory ++ [name]))
      else .error .notEmpty
    | some _ => .error .notADirectory

/-- Remove whatever is there, a directory with everything in it; a link is removed itself. -/
def removeAll (d : Disk) (p : Path) : Except SystemError Disk := do
  match ← d.locate p with
  | none => .error .badRequest
  | some (directory, name) =>
    match d.get? (directory ++ [name]) with
    | none => .error .notFound
    | some .directory => .ok (d.dropAll (directory ++ [name]))
    | some _ => .ok (d.drop (directory ++ [name]))

/-- Something new stands where nothing was. -/
theorem place_ok {d d' : Disk} {p : Path} {e : Entry} (h : d.place p e = .ok d') :
    ∃ directory name, d.locate p = .ok (some (directory, name)) ∧
      d.get? (directory ++ [name]) = none ∧ d' = d.put (directory ++ [name]) e := by
  unfold place at h
  cases hl : d.locate p with
  | error err => rw [hl] at h; cases h
  | ok spot =>
    rw [hl] at h
    cases spot with
    | none => cases h
    | some s =>
      obtain ⟨directory, name⟩ := s
      cases he : d.get? (directory ++ [name]) with
      | some x => simp [he, bind, Except.bind] at h
      | none =>
        simp [he, bind, Except.bind] at h
        exact ⟨directory, name, rfl, he, h.symm⟩

end StubListing.Disk

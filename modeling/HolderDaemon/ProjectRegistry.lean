import HolderDaemon.Json
import HolderDaemon.Loops
import HolderDaemon.Machine
import HolderDaemon.Rows

/-!
The registry of project roots (`platform/ProjectRegistry.cpp`): the file, its reading and
writing, and the operations of the daemon on it.
-/

set_option autoImplicit false

open Bytes

namespace HolderDaemon

namespace ProjectRegistry

structure Project where
  projectId : Bytes
  rootPath : Bytes
  deriving DecidableEq

/-- The maps are lists of pairs, in the order of their first insertion. -/
structure RegistryState where
  version : Int := 1
  projects : List (Bytes × Bytes) := []
  removed : List (Bytes × List Bytes) := []
  deriving DecidableEq

/-- A file that cannot be opened or parsed is kept as the text of the exception. -/
inductive RegistryFile where
  | missing
  | unreadable (what : Bytes)
  | json (body : Json)

def insertRoot (root : Bytes) (roots : List Bytes) : List Bytes :=
  if root ∈ roots then roots else roots ++ [root]

/-- `state.removed[id].insert(root)`. -/
def insertRemoved (removed : List (Bytes × List Bytes)) (id root : Bytes) :
    List (Bytes × List Bytes) :=
  Rows.put Prod.fst (id, insertRoot root ((Rows.get Prod.fst id removed).elim [] Prod.snd)) removed

/-- `value("version", 0)`; a floating-point version is not taken up. -/
def readVersion (body : Json) : Except Bytes Int :=
  match body with
  | .obj _ =>
    match body.field? (ascii "version") with
    | none => .ok 0
    | some (.int i) => .ok (Int32.ofInt i).toInt
    | some j => .error (Json.typeError "number" j)
  | j => .error (ascii "[json.exception.type_error.306] cannot use value() with " ++ j.typeName)

section File
variable (canonical : Bytes → Bytes) (path : Bytes)

def readEntry (item : Json) : Except Bytes (Bytes × Bytes) :=
  match item.field? (ascii "project_id"), item.field? (ascii "root_path") with
  | some (.str id), some (.str root) =>
    if id = [] ∨ root = [] then .error (ascii "invalid project registry entry: " ++ path)
    else .ok (id, canonical root)
  | _, _ => .error (ascii "invalid project registry entry: " ++ path)

def readProject (projects : List (Bytes × Bytes)) (item : Json) :
    Except Bytes (List (Bytes × Bytes)) :=
  (readEntry canonical path item).map fun entry => Rows.put Prod.fst entry projects

def readRemoved (removed : List (Bytes × List Bytes)) (item : Json) :
    Except Bytes (List (Bytes × List Bytes)) :=
  (readEntry canonical path item).map fun entry => insertRemoved removed entry.1 entry.2

/-- The array of removed projects that a version asks for. -/
def removedItems (version : Int) (body : Json) : Option (List Json) :=
  if version = 2 then
    match body.field? (ascii "removed_projects") with
    | some (.arr items) => some items
    | _ => none
  else some []

def loadRegistry : RegistryFile → Except Bytes RegistryState
  | .missing => .ok {}
  | .unreadable what => .error what
  | .json body => do
    let version ← readVersion body
    if version ≠ 1 ∧ version ≠ 2 then
      .error (ascii "unsupported project registry format: " ++ path)
    else
      match body.field? (ascii "projects"), removedItems version body with
      | some (.arr items), some removedList =>
        let projects ← items.foldlM (readProject canonical path) []
        let removed ← removedList.foldlM (readRemoved canonical path) []
        .ok ⟨version, projects, removed⟩
      | _, _ => .error (ascii "unsupported project registry format: " ++ path)

def entryJson (entry : Bytes × Bytes) : Json :=
  .object [(ascii "project_id", .str entry.1), (ascii "root_path", .str entry.2)]

def removedEntries (removed : List (Bytes × List Bytes)) : List (Bytes × Bytes) :=
  removed.flatMap fun e => e.2.map fun root => (e.1, root)

/-- The body that `save_registry` dumps. -/
def registryJson (s : RegistryState) : Json :=
  .object ([(ascii "version", .int s.version),
      (ascii "projects", .arr (s.projects.map entryJson))] ++
    if s.version = 2 then
      [(ascii "removed_projects", .arr ((removedEntries s.removed).map entryJson))]
    else [])

/-- How the writing of the temporary file and its renaming end. -/
inductive Write where
  | done
  | fails (what : Bytes)
  | failsAfterRename (what : Bytes)

/-- The file left behind is part of the answer also where the call throws. -/
def saveRegistry (file : RegistryFile) (s : RegistryState) (w : Write) :
    RegistryFile × Except Bytes Unit :=
  if (registryJson s).encodable then
    match w with
    | .done => (.json (registryJson s), .ok ())
    | .fails what => (file, .error what)
    | .failsAfterRename what => (.json (registryJson s), .error what)
  else (file, .error (ascii "[json.exception.type_error.316] invalid UTF-8"))

/-! Operations -/

def validateProject (p : Project) : Except Bytes Unit :=
  if p.projectId = [] ∨ p.rootPath = [] then
    .error (ascii "project registry requires project_id and root_path")
  else .ok ()

def rememberOne (s : RegistryState) (p : Project) : Except Bytes RegistryState := do
  validateProject p
  if (Rows.get Prod.fst p.projectId s.removed).isSome ∧
      (Rows.get Prod.fst p.projectId s.projects).isNone then .ok s
  else
    .ok { s with projects := Rows.put Prod.fst (p.projectId, canonical p.rootPath) s.projects }

def remember (s : RegistryState) (projects : List Project) : Except Bytes RegistryState :=
  projects.foldlM (rememberOne canonical) s

def forget (s : RegistryState) (p : Project) : Except Bytes RegistryState := do
  validateProject p
  let removed := insertRemoved s.removed p.projectId (canonical p.rootPath)
  match Rows.get Prod.fst p.projectId s.projects with
  | none => .ok ⟨2, s.projects, removed⟩
  | some previous =>
    .ok ⟨2, Rows.drop Prod.fst p.projectId s.projects,
      insertRemoved removed p.projectId previous.2⟩

def restore (s : RegistryState) (p : Project) : Except Bytes RegistryState := do
  validateProject p
  .ok { s with projects := Rows.put Prod.fst (p.projectId, canonical p.rootPath) s.projects }

inductive Call where
  | remember (projects : List Project)
  | forget (project : Project)
  | restore (project : Project)

def Call.change (s : RegistryState) : Call → Except Bytes RegistryState
  | .remember projects => ProjectRegistry.remember canonical s projects
  | .forget p => ProjectRegistry.forget canonical s p
  | .restore p => ProjectRegistry.restore canonical s p

/-- A call under `registry_mutex`. -/
def Call.attempt (file : RegistryFile) (c : Call) (w : Write) :
    RegistryFile × Except Bytes Unit :=
  match loadRegistry canonical path file with
  | .error what => (file, .error what)
  | .ok s =>
    match c.change canonical s with
    | .error what => (file, .error what)
    | .ok t => saveRegistry file t w

def step (file : RegistryFile) (l : Call × Write) : Option RegistryFile :=
  some (l.1.attempt canonical path file l.2).1

/-! Queries -/

/-- The file system as one query meets it; a metadata file that does not parse reads as null. -/
structure Layout where
  isDirectory : Bytes → Bool
  exist : Bytes → Bool
  entries : Bytes → List Bytes
  read : Bytes → Option Json

def looksLikeProject (layout : Layout) (root : Bytes) : Bool :=
  layout.isDirectory root &&
    ["/cards", "/trash/cards", "/ai_messages", "/resources", "/locations",
      "/.holder/privacy.json", "/.holder/project.json"].any fun name =>
        layout.exist (root ++ ascii name)

def metadataId (body : Json) : Option Bytes :=
  match body.field? (ascii "project_id") with
  | some (.str id) => if id = [] then none else some id
  | _ => none

/-- None is the empty string of the code. -/
def projectIdentity (layout : Layout) (root : Bytes) : Option Bytes :=
  ["/.holder/project.json", "/.holder/privacy.json"].findSome? fun name =>
    (layout.read (root ++ ascii name)).bind metadataId

def removedRoot (layout : Layout) (s : RegistryState) (root : Bytes) : Bool :=
  let path := canonical root
  let listed := s.removed.any fun e => decide (path ∈ e.2)
  match projectIdentity layout root with
  | none => listed
  | some id =>
    if Rows.get Prod.fst id s.projects = some (id, path) then false
    else (Rows.get Prod.fst id s.removed).isSome || listed

/-- The set of registered roots, without its order. -/
def roots (s : RegistryState) : List Bytes := (s.projects.map Prod.snd).dedup

def candidates (layout : Layout) (managedRoot : Bytes) (s : RegistryState) : List Bytes :=
  (s.projects.map Prod.snd ++
    if layout.isDirectory managedRoot then
      ((layout.entries managedRoot).filter (looksLikeProject layout)).map canonical
    else []).dedup

def discoverRoots (layout : Layout) (managedRoot : Bytes) (s : RegistryState) : List Bytes :=
  (candidates canonical layout managedRoot s).filter fun root => !removedRoot canonical layout s root

end File

end ProjectRegistry

end HolderDaemon

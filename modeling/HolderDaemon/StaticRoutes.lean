import HolderDaemon.Bytes
import HolderDaemon.FsPath

/-!
The routes that are served without a token (`api/routes/StaticRoutes.cpp`), and the guard of the
docs route, `is_safe_relpath` (`api/support/PathDiscovery.cpp`).
-/

set_option autoImplicit false

open Bytes FsPath

namespace HolderDaemon

namespace StaticRoutes

universe u

/-- The part of the target before its query. -/
def requestPath (target : Bytes) : Bytes := target.takeWhile fun b => b ≠ 63

structure Response where
  status : Nat
  body : Bytes
  contentType : Bytes
  deriving DecidableEq

inductive Handled where
  | fallsThrough
  | threw
  | answered (res : Response)
  deriving DecidableEq

def textPlain : Bytes := ascii "text/plain; charset=utf-8"

def toLower (b : UInt8) : UInt8 := if 65 ≤ b ∧ b ≤ 90 then b + 32 else b

def contentTypes : List (String × String) :=
  [(".html", "text/html; charset=utf-8"), (".css", "text/css; charset=utf-8"),
    (".js", "application/javascript"), (".json", "application/json"),
    (".yaml", "application/yaml"), (".yml", "application/yaml"), (".svg", "image/svg+xml"),
    (".png", "image/png"), (".ico", "image/x-icon"), (".txt", "text/plain; charset=utf-8")]

def contentTypeForExtension (ext : Bytes) : Bytes :=
  match contentTypes.find? fun t => ascii t.1 = ext.map toLower with
  | some t => ascii t.2
  | none => ascii "application/octet-stream"

/-- What the handler finds: the files of the other routes, the contents of files, the extension of
a path as a narrow string unless that throws, and a YAML text as JSON unless it does not parse. -/
structure StaticFiles (α : Type u) where
  openapi : Option (List α)
  aiCatalog : Option (List α)
  gitProviders : Option (List α)
  readFile : List α → Option Bytes
  extension : List α → Option Bytes
  yamlToJson : Bytes → Option Bytes

section Handler
variable {α : Type u} (files : StaticFiles α)

def serveFile (path : Option (List α)) (missing : String) : Handled :=
  match path with
  | none => .answered ⟨404, ascii missing, textPlain⟩
  | some path =>
    match files.readFile path with
    | none => .answered ⟨404, ascii missing, textPlain⟩
    | some content =>
      match files.extension path with
      | none => .threw
      | some ext => .answered ⟨200, content, contentTypeForExtension ext⟩

def serveYamlAsJson (path : Option (List α)) (missing : String) : Handled :=
  match path.bind files.readFile with
  | none => .answered ⟨404, ascii missing, textPlain⟩
  | some content =>
    match files.yamlToJson content with
    | none => .answered ⟨500, ascii "Failed to parse YAML.", textPlain⟩
    | some json => .answered ⟨200, json, ascii "application/json"⟩

def fixedRoutes : List String :=
  ["/openapi.yaml", "/ai_catalog.yaml", "/ai_catalog.json", "/git_providers.yaml",
    "/git_providers.json"]

def isFixed (path : Bytes) : Bool := fixedRoutes.any fun route => path = ascii route

def isDocs (path : Bytes) : Bool :=
  path = ascii "/docs" || (ascii "/docs/").isPrefixOf path

/-- The path below `docs_root` that a docs request asks for. -/
def docsRel (path : Bytes) : Bytes :=
  if (ascii "/docs/").isPrefixOf path && path.length ≠ 6 then path.drop 6
  else ascii "index.html"

variable [DecidableEq α] (rules : Rules α)

def isSafeRelpath (path : List α) : Bool :=
  !rules.isAbsolute path && (rules.elements path).all fun part => part ≠ rules.dotdot

variable (toNative : Bytes → Option (List α))

/-- A request's answer; `toNative` is how a narrow string becomes a path, unless that throws. -/
def handleStaticRoutes (docsRoot : Option (List α)) (path : Bytes) (isGet : Bool) : Handled :=
  if !(isFixed path || isDocs path) then .fallsThrough
  else if !isGet then .answered ⟨405, ascii "Method not allowed.", textPlain⟩
  else if path = ascii "/openapi.yaml" then
    serveFile files files.openapi "openapi.yaml not found."
  else if path = ascii "/ai_catalog.yaml" then
    serveFile files files.aiCatalog "ai_catalog.yaml not found."
  else if path = ascii "/ai_catalog.json" then
    serveYamlAsJson files files.aiCatalog "ai_catalog.yaml not found."
  else if path = ascii "/git_providers.yaml" then
    serveFile files files.gitProviders "git_providers.yaml not found."
  else if path = ascii "/git_providers.json" then
    serveYamlAsJson files files.gitProviders "git_providers.yaml not found."
  else
    match docsRoot with
    | none => .answered ⟨404, ascii "Docs assets not found.", textPlain⟩
    | some docsRoot =>
      match toNative (docsRel path) with
      | none => .threw
      | some rel =>
        if isSafeRelpath rules rel then
          serveFile files (some (rules.append docsRoot rel)) "Not found."
        else .answered ⟨404, ascii "Not found.", textPlain⟩

end Handler

/-! Confinement -/

section Confined
variable {α : Type u} [DecidableEq α] (rules : Rules α) (toNative : Bytes → Option (List α))

/-- Whatever files there are, the request is refused or answered with a file inside `docs_root`. -/
def Confined (docsRoot : List α) (path : Bytes) : Prop :=
  ∀ (files : StaticFiles α) (isGet : Bool) (res : Response),
    handleStaticRoutes files rules toNative (some docsRoot) path isGet = .answered res →
      res.status = 404 ∨ res.status = 405 ∨
        ∃ file, rules.Inside docsRoot file ∧ files.readFile file = some res.body

variable {rules toNative}

theorem isFixed_of_isDocs {path : Bytes} (h : isDocs path = true) : isFixed path = false := by
  unfold isDocs at h
  rw [Bool.or_eq_true, decide_eq_true_eq] at h
  rcases h with rfl | h
  · decide +kernel
  · obtain ⟨rest, rfl⟩ := List.isPrefixOf_iff_prefix.mp h
    have hother : ∀ route ∈ fixedRoutes,
        (ascii "/docs/").take 6 ≠ (ascii route).take 6 := by decide +kernel
    rw [isFixed, List.any_eq_false]
    intro route hroute heq
    rw [decide_eq_true_eq] at heq
    have hhead := congrArg (List.take 6) heq
    rw [List.take_append_of_le_length (by decide)] at hhead
    exact hother route hroute hhead

/-- The answer to a request for docs. -/
theorem handle_docs (files : StaticFiles α) {path : Bytes} (h : isDocs path = true)
    (docsRoot : List α) :
    handleStaticRoutes files rules toNative (some docsRoot) path true =
      match toNative (docsRel path) with
      | none => .threw
      | some rel =>
        if isSafeRelpath rules rel then
          serveFile files (some (rules.append docsRoot rel)) "Not found."
        else .answered ⟨404, ascii "Not found.", textPlain⟩ := by
  have hfixed := isFixed_of_isDocs h
  have hne : ∀ route ∈ fixedRoutes, path ≠ ascii route := by
    intro route hroute heq
    have hnone := List.any_eq_false.mp hfixed route hroute
    exact hnone (decide_eq_true heq)
  simp only [handleStaticRoutes, hfixed, h, Bool.or_true, Bool.not_true, Bool.false_eq_true,
    if_false, hne "/openapi.yaml" (by decide), hne "/ai_catalog.yaml" (by decide),
    hne "/ai_catalog.json" (by decide), hne "/git_providers.yaml" (by decide),
    hne "/git_providers.json" (by decide)]

theorem confined_iff {path : Bytes} (h : isDocs path = true) (docsRoot : List α) :
    Confined rules toNative docsRoot path ↔
      ∀ rel, toNative (docsRel path) = some rel → isSafeRelpath rules rel = true →
        rules.Inside docsRoot (rules.append docsRoot rel) := by
  constructor
  · intro hconfined rel hrel hsafe
    -- a file system with this one file
    let files : StaticFiles α :=
      { openapi := none, aiCatalog := none, gitProviders := none,
        readFile := fun p => if p = rules.append docsRoot rel then some [] else none,
        extension := fun _ => some [], yamlToJson := fun _ => none }
    have hanswer : handleStaticRoutes files rules toNative (some docsRoot) path true =
        .answered ⟨200, [], contentTypeForExtension []⟩ := by
      simp [handle_docs files h, hrel, hsafe, serveFile, files]
    rcases hconfined files true _ hanswer with hstatus | hstatus | ⟨file, hinside, hread⟩
    · cases hstatus
    · cases hstatus
    · have hfile : file = rules.append docsRoot rel := by
        by_contra hne
        simp [files, hne] at hread
      exact hfile ▸ hinside
  · intro hinside files isGet res hanswer
    cases isGet with
    | false =>
      simp only [handleStaticRoutes, h, Bool.or_true, Bool.not_true, Bool.false_eq_true, if_false,
        Bool.not_false, if_true, Handled.answered.injEq] at hanswer
      exact .inr (.inl (hanswer ▸ rfl))
    | true =>
      rw [handle_docs files h] at hanswer
      split at hanswer
      next => cases hanswer
      next rel hrel =>
        split at hanswer
        next hsafe =>
          simp only [serveFile] at hanswer
          split at hanswer
          next => exact .inl (by cases hanswer; rfl)
          next content hread =>
            split at hanswer
            next => cases hanswer
            next =>
              cases hanswer
              exact .inr (.inr ⟨_, hinside rel hrel hsafe, hread⟩)
        next => exact .inl (by cases hanswer; rfl)

end Confined

theorem isSafeRelpath_iff {α : Type u} [DecidableEq α] {rules : Rules α} {rel : List α} :
    isSafeRelpath rules rel = true ↔
      rules.isAbsolute rel = false ∧ rules.dotdot ∉ rules.elements rel := by
  rw [isSafeRelpath, Bool.and_eq_true, Bool.not_eq_true', List.all_eq_true]
  refine and_congr_right fun _ => ⟨fun h hmem => ?_, fun h part hpart => ?_⟩
  · simpa using h _ hmem
  · exact decide_eq_true fun heq => h (heq ▸ hpart)

/-- A request for docs is confined to `docs_root` under the POSIX rules; under the Windows rules
exactly when the part of the target that the guard lets through names no root of its own. Targets
that are no route fall through. -/
theorem docs_confined_iff (target : Bytes) :
    (isDocs (requestPath target) = true →
      (∀ docsRoot, Confined posixRules some docsRoot (requestPath target)) ∧
        ∀ (widen : Bytes → Option (List UInt16)) (docsRoot : List UInt16),
          Confined windowsRules widen docsRoot (requestPath target) ↔
            ∀ rel, widen (docsRel (requestPath target)) = some rel →
              isSafeRelpath windowsRules rel = true → windowsRules.Below docsRoot rel) ∧
      (isDocs (requestPath target) = false → isFixed (requestPath target) = false →
        ∀ (α : Type) [DecidableEq α] (files : StaticFiles α) (rules : Rules α)
          (toNative : Bytes → Option (List α)) (docsRoot : Option (List α)) (isGet : Bool),
          handleStaticRoutes files rules toNative docsRoot (requestPath target) isGet =
            .fallsThrough) := by
  refine ⟨fun hdocs => ⟨fun docsRoot => ?_, fun widen docsRoot => ?_⟩, ?_⟩
  · refine (confined_iff hdocs docsRoot).mpr fun rel _ hsafe => ?_
    obtain ⟨hrelative, hdots⟩ := isSafeRelpath_iff.mp hsafe
    exact posix_inside_append hrelative hdots
  · rw [confined_iff hdocs]
    refine forall_congr' fun rel => forall_congr' fun _ => forall_congr' fun hsafe => ?_
    obtain ⟨hrelative, hdots⟩ := isSafeRelpath_iff.mp hsafe
    exact Rules.inside_append_iff hrelative hdots
  · intro hdocs hfixed α _ files rules toNative docsRoot isGet
    simp [handleStaticRoutes, hdocs, hfixed]

/-- Narrow strings of ASCII as paths. -/
def wide (s : Bytes) : List UInt16 := s.map UInt8.toUInt16

def holderDocs : List UInt16 := wide (ascii "C:\\holder\\docs")

theorem docs_confined_index : Confined windowsRules (fun s => some (wide s)) holderDocs
    (requestPath (ascii "/docs")) := by
  refine (((docs_confined_iff (ascii "/docs")).1 (by decide +kernel)).2 _ _).mpr ?_
  intro rel hrel _
  obtain rfl : wide (ascii "index.html") = rel := Option.some.inj hrel
  have hdir : windowsRules.hasRootDirectory (wide (ascii "index.html")) = false := by
    decide +kernel
  refine ⟨by decide +kernel, rootName_written_of_hasDrive (by decide +kernel) _, fun h => ?_⟩
  rw [hdir] at h
  cases h

def fontsFile : List UInt16 := wide (ascii "C:/Windows/win.ini")

def onlyFonts : StaticFiles UInt16 where
  openapi := none
  aiCatalog := none
  gitProviders := none
  readFile p := if p = fontsFile then some (ascii "[fonts]") else none
  extension _ := some (ascii ".ini")
  yamlToJson _ := none

/-- A second slash is a root directory of the drive. -/
theorem docs_leave_root :
    handleStaticRoutes onlyFonts windowsRules (fun s => some (wide s)) (some holderDocs)
        (requestPath (ascii "/docs//Windows/win.ini")) true =
      .answered ⟨200, ascii "[fonts]", ascii "application/octet-stream"⟩ ∧
    ¬ windowsRules.Inside holderDocs fontsFile ∧
    ¬ Confined windowsRules (fun s => some (wide s)) holderDocs
        (requestPath (ascii "/docs//Windows/win.ini")) := by
  have hanswer : handleStaticRoutes onlyFonts windowsRules (fun s => some (wide s))
      (some holderDocs) (requestPath (ascii "/docs//Windows/win.ini")) true =
      .answered ⟨200, ascii "[fonts]", ascii "application/octet-stream"⟩ := by decide +kernel
  have houtside : ¬ windowsRules.Inside holderDocs fontsFile := by
    intro h
    obtain ⟨below, hnames, -⟩ := h.names
    have hprefix : windowsRules.names holderDocs <+: windowsRules.names fontsFile :=
      ⟨below, hnames.symm⟩
    revert hprefix
    decide +kernel
  refine ⟨hanswer, houtside, fun hconfined => ?_⟩
  rcases hconfined onlyFonts true _ hanswer with hstatus | hstatus | ⟨file, hinside, hread⟩
  · cases hstatus
  · cases hstatus
  · have hfile : file = fontsFile := by
      by_contra hne
      simp [onlyFonts, hne] at hread
    exact houtside (hfile ▸ hinside)

end StaticRoutes

end HolderDaemon

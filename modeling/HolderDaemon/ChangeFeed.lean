import HolderDaemon.Assoc
import HolderDaemon.EventJournal

/-!
The change feed (`api/support/ChangeFeed.cpp`): fingerprints of committed snapshots, and the
events of what differs between two of them.
-/

set_option autoImplicit false

open Bytes

namespace HolderDaemon

namespace ChangeFeed

/-- Kind, id, project. -/
abbrev Key := Bytes × Bytes × Bytes

abbrev Snapshot := List (Key × Bytes)

/-- The object of `read_revisions`: a head or null for each project. -/
abbrev Revisions := List (Bytes × Option Bytes)

structure Query where
  kind : Bytes
  sql : Bytes
  optionalTable : Option Bytes := none

def query (kind sql : String) : Query := ⟨ascii kind, ascii sql, none⟩

def kQueries : List Query := [
  query "project" "SELECT project_id, project_id, * FROM projects ORDER BY project_id",
  query "card" "SELECT card_id, project_id, * FROM cards ORDER BY card_id",
  query "card" "SELECT card_id, project_id, * FROM cards_fts ORDER BY card_id, rowid",
  query "card" "SELECT card_id, project_id, * FROM card_tags ORDER BY card_id, tag",
  query "card" "SELECT card_id, project_id, * FROM milestones ORDER BY card_id, milestone_id",
  query "project" "SELECT project_id, project_id, * FROM card_links ORDER BY project_id, from_card_id, to_card_id, to_type, kind",
  { query "project" "SELECT project_id, project_id, * FROM project_sync_state ORDER BY project_id"
    with optionalTable := some (ascii "project_sync_state") },
  query "thread" "SELECT thread_id, project_id, * FROM ai_threads ORDER BY thread_id",
  query "message" "SELECT m.message_id, t.project_id, m.* FROM ai_messages m JOIN ai_threads t USING(thread_id) ORDER BY m.message_id",
  query "run" "SELECT run_id, COALESCE(project_id, ''), * FROM ai_runs ORDER BY run_id",
  query "resource" "SELECT resource_id, project_id, * FROM resources ORDER BY resource_id",
  query "resource" "SELECT m.resource_id, r.project_id, m.* FROM resource_metadata m JOIN resources r USING(resource_id) ORDER BY m.resource_id, property, value_index",
  query "resource" "SELECT resource_id, project_id, * FROM assets ORDER BY resource_id, asset_id",
  query "resource" "SELECT a.resource_id, a.project_id, p.* FROM asset_placements p JOIN assets a USING(asset_id) ORDER BY a.resource_id, p.placement_id",
  query "location" "SELECT location_id, project_id, * FROM storage_locations ORDER BY location_id",
  query "project" "SELECT project_id, project_id, * FROM ai_nudges ORDER BY project_id, nudge_id"]

/-- A row: the two key columns, and the columns from the third on. -/
structure Row where
  id : Json
  project : Json
  columns : List Json

/-- One committed content: which tables exist, and what each query answers. -/
structure Content where
  hasTable : Bytes → Bool
  rows : Bytes → List Row

/-- One row fed to its key's digest. -/
def digestRow (query : Query) (digests : List (Key × Bytes)) (row : Row) :
    Except Json.Error (List (Key × Bytes)) := do
  let id ← row.id.getText
  let project ← row.project.getText
  let encoded ← (Json.arr (.str query.sql :: row.columns)).dump
  let key : Key := (query.kind, id, project)
  .ok (Assoc.set key ((digests.lookup key).getD [] ++ encoded) digests)

def digestQuery (content : Content) (digests : List (Key × Bytes)) (query : Query) :
    Except Json.Error (List (Key × Bytes)) :=
  if query.optionalTable.all content.hasTable then
    (content.rows query.sql).foldlM (digestRow query) digests
  else .ok digests

/-- The bytes each key's digest is updated with. -/
def digests (content : Content) : Except Json.Error (List (Key × Bytes)) :=
  kQueries.foldlM (digestQuery content) []

def snapshot (sha256 : Bytes → Bytes) (content : Content) : Except Json.Error Snapshot := do
  let all ← digests content
  .ok (all.map fun e => (e.1, sha256 e.2))

/-- `std::tuple`'s order over strings. -/
def keyLt (a b : Key) : Bool :=
  decide (a.1 < b.1 ∨ (a.1 = b.1 ∧ (a.2.1 < b.2.1 ∨ (a.2.1 = b.2.1 ∧ a.2.2 < b.2.2))))

def projectKey (project : Bytes) : Key := (ascii "project", project, project)

/-- The keys `poll` inserts in `changed`: new or different, gone, and moved heads. -/
def candidates (previous current : Snapshot) (revisions currentRevisions : Revisions) : List Key :=
  (current.filter fun e => previous.lookup e.1 ≠ some e.2).map Prod.fst ++
    (previous.filter fun e => current.lookup e.1 = none).map Prod.fst ++
    (currentRevisions.filter fun r => revisions.lookup r.1 ≠ some r.2).map
      fun r => projectKey r.1

/-- The set `changed`, in its order. -/
def changed (previous current : Snapshot) (revisions currentRevisions : Revisions) : List Key :=
  (candidates previous current revisions currentRevisions).dedup.insertionSort
    fun a b => !keyLt b a

def optionalText : Option Bytes → Json
  | none => .null
  | some s => .str s

/-- The call made for one changed key. -/
def changeCall (current : Snapshot) (currentRevisions : Revisions) (key : Key) : AppendCall where
  name := key.1 ++ ascii ".changed"
  data := Json.object [
    (ascii "entity", .str key.1),
    (ascii "entity_id", .str key.2.1),
    (ascii "project_id", if key.2.2 = [] then .null else .str key.2.2),
    (ascii "deleted", .bool (current.lookup key).isNone),
    (ascii "git_revision", optionalText ((currentRevisions.lookup key.2.2).getD none))]

/-! What is reported -/

theorem mem_changed {previous current : Snapshot} {revisions currentRevisions : Revisions}
    {key : Key} : key ∈ changed previous current revisions currentRevisions ↔
      key ∈ candidates previous current revisions currentRevisions := by
  unfold changed
  rw [(List.perm_insertionSort _ _).mem_iff, List.mem_dedup]

theorem nodup_changed (previous current : Snapshot) (revisions currentRevisions : Revisions) :
    (changed previous current revisions currentRevisions).Nodup :=
  (List.perm_insertionSort _ _).nodup_iff.mpr (List.nodup_dedup _)

theorem changed_of_differs {previous current : Snapshot} {key : Key}
    (h : previous.lookup key ≠ current.lookup key) (revisions currentRevisions : Revisions) :
    key ∈ changed previous current revisions currentRevisions := by
  rw [mem_changed, candidates, List.mem_append, List.mem_append]
  left
  cases hc : current.lookup key with
  | some f =>
    rw [hc] at h
    refine .inl (List.mem_map.mpr ⟨(key, f), List.mem_filter.mpr ⟨?_, ?_⟩, rfl⟩)
    · exact Assoc.mem_of_lookup hc
    · exact decide_eq_true h
  | none =>
    rw [hc] at h
    obtain ⟨f, hp⟩ := Option.ne_none_iff_exists'.mp h
    refine .inr (List.mem_map.mpr ⟨(key, f), List.mem_filter.mpr ⟨?_, ?_⟩, rfl⟩)
    · exact Assoc.mem_of_lookup hp
    · exact decide_eq_true hc

theorem changed_of_revision {revisions currentRevisions : Revisions} {project : Bytes}
    {revision : Option Bytes} (h : currentRevisions.lookup project = some revision)
    (hne : revisions.lookup project ≠ some revision) (previous current : Snapshot) :
    projectKey project ∈ changed previous current revisions currentRevisions := by
  rw [mem_changed, candidates, List.mem_append]
  refine .inr (List.mem_map.mpr ⟨(project, revision), List.mem_filter.mpr ⟨?_, ?_⟩, rfl⟩)
  · exact Assoc.mem_of_lookup h
  · exact decide_eq_true hne

theorem changeCall_fields (current : Snapshot) (revisions : Revisions) (key : Key) :
    (changeCall current revisions key).data = .obj [
      (ascii "deleted", .bool (current.lookup key).isNone),
      (ascii "entity", .str key.1),
      (ascii "entity_id", .str key.2.1),
      (ascii "git_revision", optionalText ((revisions.lookup key.2.2).getD none)),
      (ascii "project_id", if key.2.2 = [] then .null else .str key.2.2)] := rfl

end ChangeFeed

end HolderDaemon

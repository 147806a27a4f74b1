import HolderDaemon.AiDurability
import HolderDaemon.Effects
import HolderDaemon.MilestoneEdits

/-!
Links and milestones (`api/routes/CardRoutes.cpp`, `api/routes/MilestoneRoutes.cpp`,
`api/routes/ai/messages/AiMessageLinkRoutes.cpp`): a handler changes rows, and then has the card
store or the message repository write them to the owner's file. Any call may throw.

The repositories are not part of the daemon's sources. What is relied on of them is that an edit
leaves the rows of other owners alone.
-/

set_option autoImplicit false

open Bytes

namespace HolderDaemon

namespace Links

open AiDurability (givenString)
open Milestones (Milestone newMilestone toLongLong)

universe u v

structure CardLink where
  projectId : Bytes
  fromCardId : Bytes
  toCardId : Bytes
  toType : Bytes
  kind : Bytes
  createdAt : Int
  label : Option Bytes
  deriving DecidableEq

/-- `LinkRepo` over the table of links. -/
structure LinkRepo (T : Type u) where
  listOutgoing : T → Bytes → Bytes → List CardLink
  upsertLinks : T → Bytes → Bytes → List CardLink → T
  deleteLink : T → Bytes → Bytes → Bytes → Option Bytes → Option Bytes → T
  deleteLinksFrom : T → Bytes → Bytes → T
  upsert_frame : ∀ t p o links q o', (q, o') ≠ (p, o) →
    listOutgoing (upsertLinks t p o links) q o' = listOutgoing t q o'
  deleteLink_frame : ∀ t p o target toType kind q o', (q, o') ≠ (p, o) →
    listOutgoing (deleteLink t p o target toType kind) q o' = listOutgoing t q o'
  deleteLinksFrom_frame : ∀ t p o q o', (q, o') ≠ (p, o) →
    listOutgoing (deleteLinksFrom t p o) q o' = listOutgoing t q o'

/-- `MilestoneRepo` over the table of milestones. -/
structure MilestoneRepo (M : Type v) where
  listForCard : M → Bytes → Bytes → List Milestone
  replaceForCard : M → Bytes → Bytes → List Milestone → M
  replace_frame : ∀ m p c milestones q c', (q, c') ≠ (p, c) →
    listForCard (replaceForCard m p c milestones) q c' = listForCard m q c'

structure Card where
  projectId : Bytes
  deleted : Bool := false

/-- The rows that the handlers look up: cards, the projects of resources and of threads, and the
threads of messages. -/
structure Directory where
  card : Bytes → Option Card := fun _ => none
  resource : Bytes → Option Bytes := fun _ => none
  thread : Bytes → Option Bytes := fun _ => none
  message : Bytes → Option Bytes := fun _ => none

/-- The tables, and what the files of cards and messages hold, by project and owner. -/
structure State (T : Type u) (M : Type v) where
  links : T
  milestones : M
  linkFiles : Bytes → Bytes → List CardLink
  milestoneFiles : Bytes → Bytes → List Milestone

/-! Bodies -/

/-- The text of a field, where it is not missing or empty. -/
def textOr (default : String) (text : Option Bytes) : Bytes :=
  if text.getD [] = [] then ascii default else text.getD []

/-- `created_at`; `truncate` is what a floating-point number is as an integer. -/
def createdAt (truncate : Bytes → Int) (now : Int) (body : Json) : Except Bytes Int :=
  match body.field? (ascii "created_at") with
  | none => .ok now
  | some .null => .ok now
  | some (.int i) => .ok (toLongLong i)
  | some (.float text) => .ok (truncate text)
  | some (.bool b) => .ok (if b then 1 else 0)
  | some j => .error (Json.typeError "number" j)

/-- The link of a POST body that has a `to_card_id`. -/
def readLink (truncate : Bytes → Int) (now : Int) (projectId fromCardId : Bytes)
    (target body : Json) :
    Except Bytes CardLink := do
  let toCardId ← target.getString
  let toType ← givenString body "to_type"
  let kind ← givenString body "kind"
  let label ← givenString body "label"
  let createdAt ← createdAt truncate now body
  .ok { projectId, fromCardId, toCardId, toType := textOr "card" toType,
        kind := textOr "ref" kind, createdAt, label }

/-- `validate_link_target`: the text of its error. -/
def validateLinkTarget (d : Directory) (projectId toId toType : Bytes) : Option Bytes :=
  let within (target : Option Bytes) (missing elsewhere : String) : Option Bytes :=
    match target with
    | none => some (ascii missing)
    | some owner => if owner = projectId then none else some (ascii elsewhere)
  if toId = [] then some (ascii "Missing to_card_id.")
  else if toType = ascii "card" then
    within ((d.card toId).map Card.projectId) "Target card not found."
      "Target card is in a different project."
  else if toType = ascii "ai_thread" then
    within (d.thread toId) "Target ai thread not found."
      "Target ai thread is in a different project."
  else if toType = ascii "resource" then
    within (d.resource toId) "Target resource not found."
      "Target resource is in a different project."
  else if toType = ascii "ai_message" then
    match d.message toId with
    | none => some (ascii "Target ai message not found.")
    | some threadId =>
      within (d.thread threadId) "Target ai message thread not found."
        "Target ai message is in a different project."
  else some (ascii "Unsupported to_type.")

/-! Requests -/

inductive Edit where
  | upsertLink (link : CardLink)
  | deleteLink (projectId fromCardId toCardId : Bytes) (toType kind : Option Bytes)
  | deleteLinksFrom (projectId fromCardId : Bytes)
  | replaceMilestones (projectId cardId : Bytes) (milestones : List Milestone)

inductive Reply where
  | linked (link : CardLink)
  | unlinked (owner : Bytes)
  | resource (outcome : Bytes) (changed : Bool)
  | created (milestone : Milestone)
  | removed (milestoneId : Bytes) (removed : Bool)
  | rejected (status : Nat) (code message : Bytes)
  /-- The error of an exception. -/
  | threw
  deriving DecidableEq

def Reply.isError : Reply → Bool
  | .rejected _ _ _ => true
  | .threw => true
  | _ => false

/-- The calls of a request that passed its checks: reads, and then an edit and the writing of the
owner's file. -/
structure Plan where
  reads : Nat
  edit : Option Edit
  reply : Reply
  success : reply.isError = false

inductive Request where
  | linkCard (cardId : Bytes) (body : Except Bytes Json)
  /-- The body is none where it is empty. -/
  | unlinkCard (cardId : Bytes) (body : Option (Except Bytes Json))
  | resource (attaching : Bool) (cardId : Bytes) (body : Except Bytes Json)
  | addMilestone (cardId uuid : Bytes) (body : Except Bytes Json)
  | removeMilestone (cardId milestoneId : Bytes)
  | linkMessage (messageId : Bytes) (body : Except Bytes Json)
  | unlinkMessage (messageId : Bytes) (body : Option (Except Bytes Json))

def badRequest (message : Bytes) : Reply := .rejected 400 (ascii "bad_request") message

def notFound (message : String) : Reply := .rejected 404 (ascii "not_found") (ascii message)

/-- POST of a link, once its owner is known. -/
def planLink (d : Directory) (truncate : Bytes → Int) (now : Int) (reads : Nat)
    (projectId owner : Bytes) (body : Except Bytes Json) : Except Reply Plan := do
  let json ← body.mapError badRequest
  match json.field? (ascii "to_card_id") with
  | none => .error (badRequest (ascii "Missing to_card_id."))
  | some target =>
    let link ← (readLink truncate now projectId owner target json).mapError badRequest
    match validateLinkTarget d projectId link.toCardId link.toType with
    | some message => .error (badRequest message)
    | none =>
      .ok { reads := reads + 1, edit := some (.upsertLink link), reply := .linked link,
            success := rfl }

/-- DELETE of links, once their owner is known. -/
def planUnlink (reads : Nat) (projectId owner : Bytes) (body : Option (Except Bytes Json)) :
    Except Reply Plan :=
  let plan (edit : Edit) : Plan :=
    { reads, edit := some edit, reply := .unlinked owner, success := rfl }
  match body with
  | none => .ok (plan (.deleteLinksFrom projectId owner))
  | some body => do
    let json ← body.mapError badRequest
    let toCardId ← (givenString json "to_card_id").mapError badRequest
    let toType ← (givenString json "to_type").mapError badRequest
    let kind ← (givenString json "kind").mapError badRequest
    match toCardId with
    | some target => .ok (plan (.deleteLink projectId owner target toType kind))
    | none => .ok (plan (.deleteLinksFrom projectId owner))

variable {T : Type u} {M : Type v} (links : LinkRepo T) (milestones : MilestoneRepo M)

def attachment (projectId cardId resourceId : Bytes) (now : Int) : CardLink where
  projectId := projectId
  fromCardId := cardId
  toCardId := resourceId
  toType := ascii "resource"
  kind := ascii "attachment"
  createdAt := now
  label := none

def isAttachment (resourceId : Bytes) (link : CardLink) : Bool :=
  link.toCardId = resourceId && link.toType = ascii "resource" && link.kind = ascii "attachment"

def attachOutcome (attaching changed : Bool) : Bytes :=
  match attaching, changed with
  | true, true => ascii "attached"
  | true, false => ascii "already_attached"
  | false, true => ascii "detached"
  | false, false => ascii "not_attached"

/-- POST and DELETE /cards/{id}/resources. -/
def planResource (d : Directory) (t : T) (now : Int) (attaching : Bool) (cardId : Bytes)
    (body : Except Bytes Json) : Except Reply Plan := do
  let json ← body.mapError badRequest
  let projectId ← (json.atKey "project_id" >>= Json.getString).mapError badRequest
  let resourceId ← (json.atKey "resource_id" >>= Json.getString).mapError badRequest
  if projectId = [] ∨ resourceId = [] then
    .error (badRequest (ascii "project_id and resource_id are required."))
  else
    match d.card cardId with
    | none => .error (notFound "Live card not found.")
    | some card =>
      if card.deleted then .error (notFound "Live card not found.")
      else
        match d.resource resourceId with
        | none => .error (notFound "Resource not found.")
        | some owner =>
          if card.projectId ≠ projectId ∨ owner ≠ projectId then
            .error (.rejected 422 (ascii "cross_project_resource_forbidden")
              (ascii "Card and resource must belong to the selected project."))
          else
            let present := (links.listOutgoing t projectId cardId).any (isAttachment resourceId)
            let changed := attaching ≠ present
            let edit : Edit :=
              if attaching then .upsertLink (attachment projectId cardId resourceId now)
              else .deleteLink projectId cardId resourceId (some (ascii "resource"))
                (some (ascii "attachment"))
            .ok { reads := 3, edit := if changed then some edit else none,
                  reply := .resource (attachOutcome attaching changed) changed, success := rfl }

def planAddMilestone (d : Directory) (m : M) (now : Int) (cardId uuid : Bytes)
    (body : Except Bytes Json) : Except Reply Plan :=
  match d.card cardId with
  | none => .error (notFound "Card not found.")
  | some card =>
    if card.deleted then .error (notFound "Card not found.")
    else do
      let json ← body.mapError badRequest
      let milestone ← (newMilestone uuid card.projectId cardId now json).mapError badRequest
      let listed := milestones.listForCard m card.projectId cardId
      .ok { reads := 2, edit := some (.replaceMilestones card.projectId cardId (listed ++ [milestone])),
            reply := .created milestone, success := rfl }

def planRemoveMilestone (d : Directory) (m : M) (cardId milestoneId : Bytes) :
    Except Reply Plan :=
  match d.card cardId with
  | none => .error (notFound "Card not found.")
  | some card =>
    if card.deleted then .error (notFound "Card not found.")
    else
      let listed := milestones.listForCard m card.projectId cardId
      let kept := listed.filter fun milestone => milestone.milestoneId ≠ milestoneId
      let removed := kept.length ≠ listed.length
      .ok { reads := 2,
            edit := if removed then some (.replaceMilestones card.projectId cardId kept) else none,
            reply := .removed milestoneId removed, success := rfl }

/-- The project of a message, by its thread. -/
def messageProject (d : Directory) (messageId : Bytes) : Except Reply Bytes :=
  match d.message messageId with
  | none => .error (notFound "AI message not found.")
  | some threadId =>
    match d.thread threadId with
    | none => .error (badRequest (ascii "Thread not found."))
    | some projectId => .ok projectId

def cardProject (d : Directory) (cardId : Bytes) : Except Reply Bytes :=
  match d.card cardId with
  | none => .error (notFound "Card not found.")
  | some card => .ok card.projectId

/-- What a request is answered after its checks, or what it does. -/
def plan (d : Directory) (truncate : Bytes → Int) (now : Int) (s : State T M) :
    Request → Except Reply Plan
  | .linkCard cardId body => do planLink d truncate now 1 (← cardProject d cardId) cardId body
  | .unlinkCard cardId body => do planUnlink 1 (← cardProject d cardId) cardId body
  | .resource attaching cardId body => planResource links d s.links now attaching cardId body
  | .addMilestone cardId uuid body => planAddMilestone milestones d s.milestones now cardId uuid body
  | .removeMilestone cardId milestoneId =>
    planRemoveMilestone milestones d s.milestones cardId milestoneId
  | .linkMessage messageId body => do
    planLink d truncate now 2 (← messageProject d messageId) messageId body
  | .unlinkMessage messageId body => do planUnlink 2 (← messageProject d messageId) messageId body

def Edit.apply (s : State T M) : Edit → State T M
  | .upsertLink link =>
    { s with links := links.upsertLinks s.links link.projectId link.fromCardId [link] }
  | .deleteLink projectId fromCardId toCardId toType kind =>
    { s with links := links.deleteLink s.links projectId fromCardId toCardId toType kind }
  | .deleteLinksFrom projectId fromCardId =>
    { s with links := links.deleteLinksFrom s.links projectId fromCardId }
  | .replaceMilestones projectId cardId listed =>
    { s with milestones := milestones.replaceForCard s.milestones projectId cardId listed }

/-- `update_links` of the card store and of the message repository. -/
def rewriteLinks (s : State T M) (projectId owner : Bytes) : State T M :=
  { s with
    linkFiles := Function.update s.linkFiles projectId
      (Function.update (s.linkFiles projectId) owner (links.listOutgoing s.links projectId owner)) }

/-- `update_milestones`. -/
def rewriteMilestones (s : State T M) (projectId cardId : Bytes) : State T M :=
  { s with
    milestoneFiles := Function.update s.milestoneFiles projectId
      (Function.update (s.milestoneFiles projectId) cardId
        (milestones.listForCard s.milestones projectId cardId)) }

/-- The writing of the file that goes with an edit. -/
def Edit.rewrite (s : State T M) : Edit → State T M
  | .upsertLink link => rewriteLinks links s link.projectId link.fromCardId
  | .deleteLink projectId fromCardId _ _ _ => rewriteLinks links s projectId fromCardId
  | .deleteLinksFrom projectId fromCardId => rewriteLinks links s projectId fromCardId
  | .replaceMilestones projectId cardId _ => rewriteMilestones milestones s projectId cardId

inductive Call where
  | read
  | edit (e : Edit)
  | rewrite (e : Edit)

def Call.apply (s : State T M) : Call → State T M
  | .read => s
  | .edit e => e.apply links milestones s
  | .rewrite e => e.rewrite links milestones s

def Plan.calls (p : Plan) : List Call :=
  List.replicate p.reads .read ++
    match p.edit with
    | some e => [.edit e, .rewrite e]
    | none => []

/-- A request with what it looks up and draws. -/
structure Sent where
  request : Request
  directory : Directory
  truncate : Bytes → Int := fun _ => 0
  now : Int
  /-- The call that throws. -/
  fault : Option Nat

/-- The reply, and the state that the request leaves. -/
def handle (s : State T M) (r : Sent) : Reply × State T M :=
  match plan links milestones r.directory r.truncate r.now s r.request with
  | .error reply => (reply, s)
  | .ok p =>
    let done := Effects.run (fun t c => some (Call.apply links milestones t c)) r.fault p.calls s
    (if done.1 then p.reply else .threw, done.2)

end Links

end HolderDaemon

import Proctor.Fallible.Basic
import Proctor.Keyed.Table
import Proctor.Workspace.Paths

/-! # The store of one Attempt Workspace

Model of `exam_attempt_workspace_store.go` and `exam_attempt_workspace_cleanup_store.go`: the rows of
one Workspace, the operations on them, each one transaction, and the journal. The locks and checks
that decide whether a Candidate may write are one input of an operation, together with the database
time, the identifiers that other Workspaces use and the order in which a Go map is ranged over. A
command whose outcome is recorded already is answered from the record and does not come here. -/
namespace Proctor.Workspace

open Json (size)
open Keyed

abbrev Instant := Nat

def stageLifetime : Instant := 3600 * 10 ^ 6

def reclaimSafetyWindow : Instant := 24 * 3600 * 10 ^ 6

def cleanupClaimLease : Instant := 5 * 60 * 10 ^ 6

def journalRetention : Nat := 4096

def journalReadMaximum : Nat := 200

def maximumFileBytes : Nat := 100 * 2 ^ 20

inductive Fault where
  | invalidInput (entity field : String)
  | conflict (entity reason : String)
  | notFound (entity : String) (id : Text)
  /-- A check outside the Workspace, or a statement that the database refused. -/
  | refused
  deriving DecidableEq, Repr

/-! ## Rows -/

inductive EntryKind where
  | file | directory
  deriving DecidableEq, Repr

structure Entry where
  id : Text
  kind : EntryKind
  path : Text
  objectID : Option Text
  deriving DecidableEq, Repr

structure Content where
  version : Text
  mediaType : Text
  sizeBytes : Nat
  sha256 : Text
  deriving DecidableEq, Repr

inductive Origin where
  | starter | attempt
  deriving DecidableEq, Repr

inductive ObjectState where
  | staged (expiresAt : Instant)
  | current
  | reclaimable (reclaimAfter : Instant) (retiredBy : Option Text)
  | claimed (reclaimAfter claimedAt : Instant) (token : Text) (retiredBy : Option Text)
  deriving DecidableEq, Repr

structure Object where
  id : Text
  origin : Origin
  state : ObjectState
  content : Option Content
  updatedAt : Instant
  deriving DecidableEq, Repr

def Object.markCurrent (o : Object) (now : Instant) : Object := { o with state := .current, updatedAt := now }

/-- `SET state='reclaimable'` on a current object. -/
def Object.retire (o : Object) (now : Instant) (retiredBy : Option Text) : Object :=
  { o with state := .reclaimable (now + reclaimSafetyWindow) retiredBy, updatedAt := now }

inductive MutationKind where
  | createFile | createDirectory | replaceFile | moveEntry | deleteEntry
  deriving DecidableEq, Repr

structure Change where
  cursor : Nat
  entryID : Text
  entryKind : EntryKind
  operation : MutationKind
  oldPath : Text
  newPath : Text
  version : Text
  changedAt : Instant
  recursive : Bool
  deriving DecidableEq, Repr

structure Capacity where
  maximumEntries : Nat
  maximumFileBytes : Nat
  maximumTotalBytes : Nat
  deriving DecidableEq, Repr

structure Outcome where
  auditEventID : Text
  protectedIDs : List Text
  deriving DecidableEq, Repr

structure Store where
  capacity : Capacity
  entries : Table Entry.id
  objects : Table Object.id
  cursor : Nat
  journal : List Change
  outcomes : List Outcome
  /-- The attempt objects of the submission manifest. -/
  manifest : List Text
  deriving DecidableEq

/-- `^[A-Za-z0-9_-]{26}$`. -/
def validVersion (version : Text) : Bool :=
  version.length = 26 && version.all fun c => c.isAlphanum || c == '_' || c == '-'

/-- `AttemptWorkspaceContent.Validate`, with the version. -/
def Content.valid (c : Content) : Bool :=
  validVersion c.version && c.mediaType ≠ [] && trimSpace c.mediaType = c.mediaType && size c.mediaType ≤ 255 &&
    c.sizeBytes ≤ maximumFileBytes && c.sha256.length = 64 &&
    c.sha256.all fun d => ('0' ≤ d && d ≤ '9') || ('a' ≤ d && d ≤ 'f')

def validPath (path : Text) : Bool := (normalizePath path).isSome

/-- `AttemptWorkspaceJournalEntry.Validate`. -/
def Change.valid (c : Change) : Bool :=
  1 ≤ c.cursor && isValidOpaqueID c.entryID &&
    !(c.recursive && (c.operation ≠ .deleteEntry || c.entryKind ≠ .directory)) &&
    match c.operation with
    | .createFile => c.entryKind = .file && c.oldPath = [] && validPath c.newPath && validVersion c.version
    | .createDirectory => c.entryKind = .directory && c.oldPath = [] && validPath c.newPath && c.version = []
    | .replaceFile => c.entryKind = .file && validPath c.oldPath && c.newPath = c.oldPath && validVersion c.version
    | .moveEntry => validPath c.oldPath && validPath c.newPath && c.oldPath ≠ c.newPath &&
        (c.entryKind = .directory || validVersion c.version) && (c.entryKind = .file || c.version = [])
    | .deleteEntry => validPath c.oldPath && c.newPath = [] && c.version = []

/-! ## Reads -/

namespace Store

variable (w : Store)

def objectOf (e : Entry) : Option Object := e.objectID.bind w.objects.find

def contentOf (e : Entry) : Option Content := (w.objectOf e).bind (·.content)

def usageBytes : Nat := (w.entries.rows.map fun e => ((w.contentOf e).map (·.sizeBytes)).getD 0).sum

def ensureParent (path : Text) : Except Fault Unit :=
  match parentPath path with
  | none => .ok ()
  | some parent =>
    if w.entries.rows.any fun e => e.path = parent && e.kind = .directory then .ok ()
    else .error (.conflict "attempt_workspace_entry" "attempt_workspace_path")

def ensureCapacity (entryDelta : Nat) (byteDelta : Int) : Except Fault Unit :=
  if w.capacity.maximumEntries < w.entries.rows.length + entryDelta then
    .error (.conflict "attempt_workspace" "attempt_workspace_entry_limit")
  else if (w.capacity.maximumTotalBytes : Int) < w.usageBytes + byteDelta then
    .error (.conflict "attempt_workspace" "attempt_workspace_size_limit")
  else .ok ()

def loadEntry (id : Text) : Except Fault Entry :=
  match w.entries.find id with
  | some e => .ok e
  | none => .error (.conflict "attempt_workspace_entry" "attempt_workspace_entry")

/-! ## Objects -/

def setObject (o : Object) : Store := { w with objects := w.objects.set o }

def consumeObject (id : Text) (now : Instant) : Except Fault (Store × Content) :=
  match w.objects.find id with
  | none => .error (.notFound "attempt_workspace_object" id)
  | some o => match o.origin, o.state, o.content with
    | .attempt, .staged expiresAt, some content =>
      if now < expiresAt ∧ o.updatedAt ≤ now then
        .ok (w.setObject (o.markCurrent now), content)
      else .error (.conflict "attempt_workspace_object" "attempt_workspace_object_state")
    | _, _, _ => .error (.conflict "attempt_workspace_object" "attempt_workspace_object_state")

/-- An `UPDATE` that retires objects; the guard on the table refuses a time before the last change of
a row. -/
def retireWhere (selected : Object → Bool) (retiredBy : Option Text) (now : Instant) : Except Fault Store :=
  if w.objects.rows.any fun o => selected o && now < o.updatedAt then .error .refused
  else .ok { w with
    objects := w.objects.mapRows (fun o => if selected o then o.retire now retiredBy else o)
      fun o => by split <;> rfl }

def retireObject (id : Text) (now : Instant) : Except Fault Store := do
  let selected := fun o : Object => o.id = id && o.origin = .attempt && o.state = .current
  let retired ← w.retireWhere selected none now
  if (w.objects.rows.filter selected).length ≠ 1 then
    .error (.conflict "attempt_workspace_object" "attempt_workspace_object_state")
  else pure retired

/-- Retire the object that an entry leaves, where the Attempt owns it. -/
def leaveObject (e : Entry) (now : Instant) : Except Fault (Store × List Text) :=
  match w.objectOf e with
  | none => .ok (w, [])
  | some o =>
    if o.origin = .attempt then (w.retireObject o.id now).map fun w' => (w', [o.id]) else .ok (w, [])

end Store

/-! ## Mutations -/

structure Mutation where
  operation : MutationKind
  entryID : Text
  expectedPath : Text
  destinationPath : Text
  expectedVersion : Text
  objectID : Text
  recursive : Bool
  expectedCursor : Option Int
  auditEventID : Text
  deriving DecidableEq, Repr

structure Shuffle where
  run : List (Text × Text) → List (Text × Text)
  perm : ∀ moves, (run moves).Perm moves

structure Environment where
  access : Except Fault Unit
  now : Instant
  taken : Text → Bool
  shuffle : Shuffle

structure Effect where
  kind : EntryKind
  oldPath : Text
  newPath : Text
  version : Text
  protectedIDs : List Text

def Mutation.change (m : Mutation) (effect : Effect) (cursor : Nat) (now : Instant) : Change :=
  ⟨cursor, m.entryID, effect.kind, m.operation, effect.oldPath, effect.newPath, effect.version, now, m.recursive⟩

def invalidMutation (field : String) : Except Fault Unit := .error (.invalidInput "attempt_workspace" field)

/-- `prepareAttemptWorkspaceMutation`. -/
def Mutation.prepare (m : Mutation) : Except Fault Unit :=
  if !isValidOpaqueID m.entryID || !isValidOpaqueID m.auditEventID then invalidMutation "mutation"
  else if m.recursive && (m.operation ≠ .deleteEntry || !(m.expectedCursor.any fun c => 0 ≤ c) ||
      m.expectedVersion ≠ []) || !m.recursive && m.expectedCursor.isSome then invalidMutation "recursive_delete"
  else match m.operation with
    | .createFile =>
      if !validPath m.destinationPath || m.expectedPath ≠ [] || m.expectedVersion ≠ [] ||
          !isValidOpaqueID m.objectID then invalidMutation "create_file"
      else .ok ()
    | .createDirectory =>
      if !validPath m.destinationPath || m.expectedPath ≠ [] || m.expectedVersion ≠ [] ||
          m.objectID ≠ [] then invalidMutation "create_directory"
      else .ok ()
    | .replaceFile =>
      if !validPath m.expectedPath || m.destinationPath ≠ [] || !validVersion m.expectedVersion ||
          !isValidOpaqueID m.objectID then invalidMutation "replace_file"
      else .ok ()
    | .moveEntry =>
      if !validPath m.expectedPath || !validPath m.destinationPath || m.expectedPath = m.destinationPath ||
          m.expectedVersion ≠ [] || m.objectID ≠ [] then invalidMutation "move_entry"
      else .ok ()
    | .deleteEntry =>
      if !validPath m.expectedPath || m.destinationPath ≠ [] || m.objectID ≠ [] ||
          m.expectedVersion ≠ [] && !validVersion m.expectedVersion then invalidMutation "delete_entry"
      else .ok ()

namespace Store

variable (w : Store)

/-- An `INSERT` under the two unique keys. -/
def insertEntry (taken : Text → Bool) (e : Entry) : Except Fault Store :=
  if taken e.id then .error .refused
  else match w.entries.insert e with
    | none => .error .refused
    | some entries =>
      if w.entries.rows.any (·.path = e.path) then
        .error (.conflict "attempt_workspace_entry" "attempt_workspace_path")
      else .ok { w with entries := entries }

def createFile (env : Environment) (m : Mutation) : Except Fault (Store × Effect) := do
  w.ensureParent m.destinationPath
  w.ensureCapacity 1 0
  let consumed ← w.consumeObject m.objectID env.now
  consumed.1.ensureCapacity 0 consumed.2.sizeBytes
  let created ← consumed.1.insertEntry env.taken ⟨m.entryID, .file, m.destinationPath, some m.objectID⟩
  pure (created, ⟨.file, [], m.destinationPath, consumed.2.version, [m.objectID]⟩)

def createDirectory (env : Environment) (m : Mutation) : Except Fault (Store × Effect) := do
  w.ensureParent m.destinationPath
  w.ensureCapacity 1 0
  let created ← w.insertEntry env.taken ⟨m.entryID, .directory, m.destinationPath, none⟩
  pure (created, ⟨.directory, [], m.destinationPath, [], []⟩)

def replaceFile (env : Environment) (m : Mutation) : Except Fault (Store × Effect) := do
  let e ← w.loadEntry m.entryID
  match w.contentOf e with
  | none => .error (.conflict "attempt_workspace_entry" "attempt_workspace_content_version")
  | some old =>
    if e.kind ≠ .file ∨ e.path ≠ m.expectedPath ∨ old.version ≠ m.expectedVersion then
      .error (.conflict "attempt_workspace_entry" "attempt_workspace_content_version")
    else do
      let consumed ← w.consumeObject m.objectID env.now
      consumed.1.ensureCapacity 0 (consumed.2.sizeBytes - old.sizeBytes)
      let pointed := { consumed.1 with
        entries := consumed.1.entries.set { e with objectID := some m.objectID } }
      let left ← pointed.leaveObject e env.now
      pure (left.1, ⟨.file, e.path, e.path, consumed.2.version, left.2 ++ [m.objectID]⟩)

def moving (root destination : Text) : List (Text × Text) :=
  (w.entries.rows.filter fun e => inSubtree root e.path).map fun e => (e.id, movedPath root destination e.path)

def occupied (moves : List (Text × Text)) (move : Text × Text) : Bool :=
  w.entries.rows.any fun e => e.path = move.2 && e.id ≠ move.1 && !(moves.map Prod.fst).contains e.id

/-- One `UPDATE` of a path, under its unique key. -/
def updatePath (move : Text × Text) : Except Fault Store :=
  if w.entries.rows.any fun e => e.path = move.2 && e.id ≠ move.1 then
    .error (.conflict "attempt_workspace_entry" "attempt_workspace_path")
  else .ok { w with
    entries := w.entries.mapRows (fun e => if e.id = move.1 then { e with path := move.2 } else e)
      fun e => by split <;> rfl }

def checkMove (root destination : Text) : Except Fault Unit := do
  w.ensureParent destination
  let moves := w.moving root destination
  if moves = [] ∨ below root destination then
    .error (.conflict "attempt_workspace_entry" "attempt_workspace_path")
  else if moves.any fun move => !validPath move.2 || w.occupied moves move then
    .error (.conflict "attempt_workspace_entry" "attempt_workspace_path")
  else .ok ()

/-- `moveAttemptWorkspaceEntry`. -/
def moveSubtree (shuffle : Shuffle) (root destination : Text) : Except Fault Store := do
  w.checkMove root destination
  (shuffle.run (w.moving root destination)).foldlM updatePath w

def moveEntry (env : Environment) (m : Mutation) : Except Fault (Store × Effect) := do
  let e ← w.loadEntry m.entryID
  if e.path ≠ m.expectedPath then .error (.conflict "attempt_workspace_entry" "attempt_workspace_entry")
  else do
    let moved ← w.moveSubtree env.shuffle e.path m.destinationPath
    match e.kind, w.contentOf e with
    | .directory, _ => pure (moved, ⟨.directory, e.path, m.destinationPath, [], []⟩)
    | .file, some content => pure (moved, ⟨.file, e.path, m.destinationPath, content.version, []⟩)
    | .file, none => .error .refused

/-- `deleteAttemptWorkspaceSubtree`. -/
def deleteSubtree (path auditEventID : Text) (now : Instant) : Except Fault Store := do
  let deleted := fun e : Entry => e.path = path || descendantLike path e.path
  let retired ← w.retireWhere (fun o => o.origin = .attempt && o.state = .current &&
    w.entries.rows.any fun e => e.objectID = some o.id && deleted e) (some auditEventID) now
  pure { retired with entries := retired.entries.keep fun e => !deleted e }

def deleteEntry (env : Environment) (m : Mutation) : Except Fault (Store × Effect) := do
  let e ← w.loadEntry m.entryID
  if e.path ≠ m.expectedPath then .error (.conflict "attempt_workspace_entry" "attempt_workspace_entry")
  else match e.kind with
    | .directory =>
      if m.expectedVersion ≠ [] then
        .error (.conflict "attempt_workspace_entry" "attempt_workspace_content_version")
      else if w.entries.rows.any (fun d => descendantLike e.path d.path) ∧ !m.recursive then
        .error (.conflict "attempt_workspace_entry" "attempt_workspace_not_empty")
      else if m.recursive then do
        let deleted ← w.deleteSubtree e.path m.auditEventID env.now
        pure (deleted, ⟨.directory, e.path, [], [], []⟩)
      else pure ({ w with entries := w.entries.keep fun d => d.id ≠ m.entryID }, ⟨.directory, e.path, [], [], []⟩)
    | .file =>
      if m.recursive then .error (.invalidInput "attempt_workspace" "recursive_delete")
      else match w.contentOf e with
        | none => .error (.conflict "attempt_workspace_entry" "attempt_workspace_content_version")
        | some content =>
          if !validVersion m.expectedVersion || content.version ≠ m.expectedVersion then
            .error (.conflict "attempt_workspace_entry" "attempt_workspace_content_version")
          else do
            let left ← w.leaveObject e env.now
            pure ({ left.1 with entries := left.1.entries.keep fun d => d.id ≠ m.entryID },
              ⟨.file, e.path, [], [], left.2⟩)

/-- `appendAttemptWorkspaceJournal`. -/
def appendJournal (m : Mutation) (effect : Effect) (now : Instant) : Except Fault Store :=
  if (m.change effect (w.cursor + 1) now).valid then
    .ok { w with
      cursor := w.cursor + 1
      journal := (w.journal ++ [m.change effect (w.cursor + 1) now]).filter fun c =>
        w.cursor + 1 < c.cursor + journalRetention }
  else .error (.invalidInput "attempt_workspace_journal" "change")

def operate (env : Environment) (m : Mutation) : Except Fault (Store × Effect) :=
  match m.operation with
  | .createFile => w.createFile env m
  | .createDirectory => w.createDirectory env m
  | .replaceFile => w.replaceFile env m
  | .moveEntry => w.moveEntry env m
  | .deleteEntry => w.deleteEntry env m

/-- `ApplyMutation`, with the outcome that the command records. -/
def applyMutation (env : Environment) (m : Mutation) : Except Fault Store := do
  m.prepare
  env.access
  if m.recursive ∧ m.expectedCursor ≠ some (w.cursor : Int) then
    .error (.conflict "attempt_workspace" "attempt_workspace_cursor")
  else do
    let done ← w.operate env m
    let appended ← done.1.appendJournal m done.2 env.now
    pure { appended with outcomes := appended.outcomes ++ [⟨m.auditEventID, done.2.protectedIDs⟩] }

/-! ## The journal -/

structure Page where
  currentCursor : Nat
  entries : List Change
  refreshRequired : Bool
  hasMore : Bool
  deriving DecidableEq, Repr

def listJournal (after : Int) (limit : Nat) : Except Fault Page :=
  if after < 0 ∨ limit < 1 ∨ journalReadMaximum < limit then
    .error (.invalidInput "attempt_workspace" "journal_options")
  else if (w.cursor : Int) < after then .ok ⟨w.cursor, [], true, false⟩
  else if (w.journal.map Change.cursor).min?.any fun first : Nat => after < (first : Int) - 1 then
    .ok ⟨w.cursor, [], true, false⟩
  else
    let rows := (w.journal.filter fun c => after < c.cursor ∧ c.cursor ≤ w.cursor).mergeSort
      fun a b => a.cursor ≤ b.cursor
    .ok ⟨w.cursor, rows.take limit, false, limit < rows.length⟩

/-! ## Staging and cleanup -/

def reserveObject (env : Environment) (id : Text) : Except Fault Store := do
  if !isValidOpaqueID id then .error (.invalidInput "attempt_workspace_object" "reservation")
  else do
    env.access
    match w.objects.find id with
    | some o => match o.origin, o.state with
      | .attempt, .staged expiresAt =>
        if env.now < expiresAt then pure w
        else .error (.conflict "attempt_workspace_object" "attempt_workspace_object_state")
      | _, _ => .error (.conflict "attempt_workspace_object" "attempt_workspace_object_state")
    | none =>
      if env.taken id then .error (.conflict "attempt_workspace_object" "attempt_workspace_object_state")
      else match w.objects.insert ⟨id, .attempt, .staged (env.now + stageLifetime), none, env.now⟩ with
        | none => .error .refused
        | some objects => pure { w with objects := objects }

def markObjectReady (env : Environment) (id : Text) (content : Content) : Except Fault Store := do
  if !isValidOpaqueID id || !content.valid then .error (.invalidInput "attempt_workspace_object" "ready")
  else do
    env.access
    if w.capacity.maximumFileBytes < content.sizeBytes then
      .error (.conflict "attempt_workspace" "attempt_workspace_size_limit")
    else match w.objects.find id with
      | none => .error (.notFound "attempt_workspace_object" id)
      | some o => match o.state with
        | .staged expiresAt =>
          if expiresAt ≤ env.now then
            .error (.conflict "attempt_workspace_object" "attempt_workspace_object_state")
          else match o.content with
            | some old =>
              if old = content then pure w
              else .error (.conflict "attempt_workspace_object" "attempt_workspace_object_state")
            | none =>
              if env.now < o.updatedAt then .error (.invalidInput "attempt_workspace_object" "content")
              -- the column takes canonical identifiers only
              else if !isValidOpaqueID content.version then .error .refused
              else pure (w.setObject { o with content := some content, updatedAt := env.now })
        | _ => .error (.conflict "attempt_workspace_object" "attempt_workspace_object_state")

def unreferenced (o : Object) (retiredBy : Option Text) : Bool :=
  !(w.entries.rows.any fun e => e.objectID = some o.id) && !w.manifest.contains o.id &&
    !(w.outcomes.any fun outcome => outcome.protectedIDs.contains o.id) &&
    !(w.outcomes.any fun outcome => some outcome.auditEventID = retiredBy)

def markObjectReclaimable (now : Instant) (id : Text) : Except Fault Store :=
  if !isValidOpaqueID id then .error (.invalidInput "attempt_workspace_object" "reclaim")
  else match w.objects.find id with
    | none => .error (.conflict "attempt_workspace_object" "attempt_workspace_object_state")
    | some o => match o.origin, o.state with
      | .attempt, .staged _ =>
        if w.unreferenced o none then .ok (w.setObject { o with
          state := .reclaimable (now + reclaimSafetyWindow) none, updatedAt := max o.updatedAt now })
        else .error (.conflict "attempt_workspace_object" "attempt_workspace_object_state")
      | _, _ => .error (.conflict "attempt_workspace_object" "attempt_workspace_object_state")

/-- When an object comes up for cleanup, what `COALESCE` orders it by, and its retirement. -/
structure Due where
  instant : Instant
  orderedBy : Instant
  retiredBy : Option Text

def due (o : Object) : Option Due :=
  match o.origin, o.state with
  | .attempt, .staged expiresAt => some ⟨expiresAt + reclaimSafetyWindow, expiresAt, none⟩
  | .attempt, .reclaimable reclaimAfter retiredBy => some ⟨reclaimAfter, reclaimAfter, retiredBy⟩
  | .attempt, .claimed reclaimAfter claimedAt _ retiredBy =>
    some ⟨claimedAt + cleanupClaimLease, reclaimAfter, retiredBy⟩
  | _, _ => none

def isDue (now : Instant) (o : Object) : Bool :=
  (due o).any fun d => d.instant ≤ now && w.unreferenced o d.retiredBy

/-- `ORDER BY COALESCE(reclaim_after,expires_at,claimed_at),id`. -/
def dueBefore (a b : Object) : Bool :=
  let order (o : Object) : Instant := ((due o).map (·.orderedBy)).getD 0
  order a < order b || order a = order b && !(b.id < a.id)

def claimed (now : Instant) (token : Text) (o : Object) : Object :=
  let claimedAt := max o.updatedAt now
  let claim (reclaimAfter : Instant) (retiredBy : Option Text) : Object :=
    { o with state := .claimed reclaimAfter claimedAt token retiredBy, updatedAt := claimedAt }
  match o.state with
  | .reclaimable reclaimAfter retiredBy => claim reclaimAfter retiredBy
  | .claimed reclaimAfter _ _ retiredBy => claim reclaimAfter retiredBy
  | _ => claim now none

theorem claimed_id (now : Instant) (token : Text) (o : Object) : (claimed now token o).id = o.id := by
  unfold claimed
  cases o.state <;> rfl

def validClaimToken (token : Text) : Bool := trimSpace token ≠ [] && trimSpace token = token && size token ≤ 128

/-- `ClaimObjectsForCleanup`; rows that another worker has locked, or that objects of other
Workspaces leave no room for, are skipped. -/
def claimObjectsForCleanup (now : Instant) (limit : Nat) (token : Text) (locked : Text → Bool) :
    Except Fault Store :=
  if limit < 1 || 200 < limit || !validClaimToken token then
    .error (.invalidInput "attempt_workspace_object" "cleanup_claim")
  else
    let candidates :=
      ((w.objects.rows.filter fun o => w.isDue now o && !locked o.id).mergeSort dueBefore).take limit
    .ok { w with
      objects := w.objects.mapRows (fun o => if candidates.contains o then claimed now token o else o)
        fun o => by
          split
          · exact claimed_id now token o
          · rfl }

def completeObjectCleanup (id token : Text) : Except Fault Store :=
  if !isValidOpaqueID id || !validClaimToken token then
    .error (.invalidInput "attempt_workspace_object" "cleanup_completion")
  else match w.objects.find id with
    | none => .ok w
    | some o => match o.origin, o.state with
      | .attempt, .claimed _ _ holder retiredBy =>
        if holder = token ∧ w.unreferenced o retiredBy then
          .ok { w with objects := w.objects.keep fun x => x.id ≠ id }
        else .error (.conflict "attempt_workspace_object" "attempt_workspace_cleanup_claim")
      | _, _ => .error (.conflict "attempt_workspace_object" "attempt_workspace_cleanup_claim")

def releaseObjectCleanup (now : Instant) (id token : Text) : Except Fault Store :=
  if !isValidOpaqueID id || !validClaimToken token then
    .error (.invalidInput "attempt_workspace_object" "cleanup_release")
  else match w.objects.find id with
    | none => .error (.conflict "attempt_workspace_object" "attempt_workspace_cleanup_claim")
    | some o => match o.origin, o.state with
      | .attempt, .claimed reclaimAfter _ holder retiredBy =>
        if holder = token then .ok (w.setObject { o with
          state := .reclaimable reclaimAfter retiredBy, updatedAt := max o.updatedAt now })
        else .error (.conflict "attempt_workspace_object" "attempt_workspace_cleanup_claim")
      | _, _ => .error (.conflict "attempt_workspace_object" "attempt_workspace_cleanup_claim")

end Store

/-! ## Admission -/

/-- An entry of the Starter Workspace, with the identifiers it gets; files have content. -/
structure Starter where
  entryID : Text
  objectID : Text
  path : Text
  content : Option Content
  deriving DecidableEq, Repr

def insertStarter (taken : Text → Bool) (now : Instant) (w : Store) (s : Starter) : Except Fault Store :=
  match s.content with
  | none => w.insertEntry taken ⟨s.entryID, .directory, s.path, none⟩
  | some content =>
    if taken s.objectID then .error .refused
    else match w.objects.insert ⟨s.objectID, .starter, .current, some content, now⟩ with
      | none => .error .refused
      | some objects =>
        { w with objects := objects }.insertEntry taken ⟨s.entryID, .file, s.path, some s.objectID⟩

/-- `insertAttemptWorkspaceFromStarter`. -/
def insertFromStarter (capacity : Capacity) (taken : Text → Bool) (now : Instant) (starter : List Starter) :
    Except Fault Store :=
  starter.foldlM (insertStarter taken now) ⟨capacity, .empty, .empty, 0, [], [], []⟩

/-! ## Runs -/

inductive Operation where
  | applyMutation (env : Environment) (m : Mutation)
  | reserveObject (env : Environment) (id : Text)
  | markObjectReady (env : Environment) (id : Text) (content : Content)
  | markObjectReclaimable (now : Instant) (id : Text)
  | claimObjectsForCleanup (now : Instant) (limit : Nat) (token : Text) (locked : Text → Bool)
  | completeObjectCleanup (id token : Text)
  | releaseObjectCleanup (now : Instant) (id token : Text)
  /-- What other stores do: a Submission gets its manifest, recorded outcomes expire. -/
  | elsewhere (outcomes : List Outcome) (manifest : List Text)

def perform (operation : Operation) (w : Store) : Except Fault Store :=
  match operation with
  | .applyMutation env m => w.applyMutation env m
  | .reserveObject env id => w.reserveObject env id
  | .markObjectReady env id content => w.markObjectReady env id content
  | .markObjectReclaimable now id => w.markObjectReclaimable now id
  | .claimObjectsForCleanup now limit token locked => w.claimObjectsForCleanup now limit token locked
  | .completeObjectCleanup id token => w.completeObjectCleanup id token
  | .releaseObjectCleanup now id token => w.releaseObjectCleanup now id token
  | .elsewhere outcomes manifest => .ok { w with outcomes := outcomes, manifest := manifest }

def Steps (w w' : Store) : Prop := ∃ operation, perform operation w = .ok w'

def Runs : Store → Store → Prop := Relation.ReflTransGen Steps

theorem runs_of_foldlM (operations : List Operation) {w w' : Store}
    (h : operations.foldlM (fun w operation => perform operation w) w = .ok w') : Runs w w' := by
  induction operations generalizing w with
  | nil => exact Except.ok.inj h ▸ .refl
  | cons operation rest ih =>
    rw [List.foldlM_cons] at h
    cases hStep : perform operation w with
    | error fault => rw [hStep] at h; exact nomatch h
    | ok next => rw [hStep] at h; exact .head ⟨operation, hStep⟩ (ih h)

end Proctor.Workspace

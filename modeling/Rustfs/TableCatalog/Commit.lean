import Rustfs.Library.KeyMap
import Mathlib.Algebra.Ring.Nat
import Mathlib.Data.String.Basic
import Mathlib.Data.Prod.Lex

/-!
# Locations and commits of a table

The checks of `table_catalog/identifier.rs`, `iceberg/validation.rs` and `maintenance/recovery.rs`
that decide whether a table may point to a metadata file or use a warehouse location. Paths are
lists of characters; a byte of a control character or of an ASCII letter is such a character, so
the checks on bytes are checks on characters.

`apply_commit_locked` of `table_catalog/store/strong.rs` with what it calls, and the history index
of `table_catalog/iceberg/commit.rs`. The generated version token is an argument. `Json` is the
type of the commit requirements, which are only compared. Names, properties and views of the
catalog, which a commit neither reads nor writes, are left out.
-/

namespace Rustfs.TableCatalog

open Library

inductive TableCatalogStoreError
  | notFound (text : String)
  | conflict (text : String)
  | invalid (text : String)
  | internal (text : String)
  deriving DecidableEq

def stripStart (start text : List Char) : Option (List Char) :=
  if start.isPrefixOf text then some (text.drop start.length) else none

def stripEnd (ending text : List Char) : Option (List Char) :=
  if ending.isSuffixOf text then some (text.take (text.length - ending.length)) else none

/-- `split_once`: the text before and after the first occurrence. -/
def splitOnce (separator : List Char) : List Char → Option (List Char × List Char)
  | [] => if separator.isEmpty then some ([], []) else none
  | char :: rest =>
    if separator.isPrefixOf (char :: rest) then some ([], (char :: rest).drop separator.length)
    else (splitOnce separator rest).map fun parts => (char :: parts.1, parts.2)

/-- `rsplit_once`: the text before and after the last occurrence. -/
def rsplitOnce (separator text : List Char) : Option (List Char × List Char) :=
  (splitOnce separator.reverse text.reverse).map fun parts => (parts.2.reverse, parts.1.reverse)

def containsText (part text : List Char) : Bool := text.tails.any fun rest => part.isPrefixOf rest

def isAsciiControl (char : Char) : Bool := char.val < 0x20 || char.val = 0x7F

def byteLength (text : List Char) : Nat := (text.map Char.utf8Size).sum

def isLowerAsciiAlnum (char : Char) : Bool := char.isLower || char.isDigit

def hasAlnumBoundary (text : List Char) : Bool :=
  text.head?.any isLowerAsciiAlnum && text.getLast?.any isLowerAsciiAlnum

def identifierMaxLen : Nat := 64

/-- `validate_identifier_segment` accepts the text. -/
def isIdentifierSegment (text : List Char) : Bool :=
  !text.isEmpty && byteLength text ≤ identifierMaxLen &&
    !(text = ".".toList || text = "..".toList || text.contains '%' || text.contains '/' ||
      text.contains '\\') &&
    hasAlnumBoundary text && text.all fun char => isLowerAsciiAlnum char || char = '_' || char = '-'

def namespaceMaxLen : Nat := 512

/-- `Namespace::from_segments` accepts the segments. -/
def isNamespace (segments : List (List Char)) : Bool :=
  !segments.isEmpty && segments.length - 1 + (segments.map byteLength).sum ≤ namespaceMaxLen &&
    segments.all isIdentifierSegment

def tableReservedText : String := ".rustfs-table"

def isReservedTableObjectKey (objectKey : List Char) : Bool :=
  objectKey = tableReservedText.toList ||
    (stripStart tableReservedText.toList objectKey).any fun rest => "/".toList.isPrefixOf rest

def defaultNamespaceRoot : List Char := (tableReservedText ++ "/warehouses/default/namespaces/").toList

def tableMetadataFileNameMaxLen : Nat := 128

def isValidTableMetadataFileName (name : List Char) : Bool :=
  !name.isEmpty && byteLength name ≤ tableMetadataFileNameMaxLen &&
    (".json".toList.isSuffixOf name || ".json.gz".toList.isSuffixOf name) &&
    !containsText "..".toList name && !name.contains '%' && !name.contains '/' &&
    !name.contains '\\' && !name.any isAsciiControl && hasAlnumBoundary name &&
    name.all fun char => isLowerAsciiAlnum char || char = '.' || char = '_' || char = '-'

def tableCatalogObjectKeyFromLocation (tableBucket location : List Char) : Option (List Char) := do
  let object ←
    match stripStart "s3://".toList location with
    | some location => do
        let (bucket, object) ← splitOnce "/".toList location
        if bucket = tableBucket then some object else none
    | none => some location
  if object.isEmpty || "/".toList.isPrefixOf object || containsText "..".toList object ||
      object.contains '\\' || object.any isAsciiControl then none
  else some object

def tableMetadataDirFromObjectKey (objectKey : List Char) : Option (List Char) := do
  let relative ← stripStart defaultNamespaceRoot objectKey
  let (namespaceStorageId, tablePath) ← rsplitOnce "/tables/".toList relative
  if isNamespace (namespaceStorageId.splitOn '/') then
    let (tableName, metadataFileName) ← splitOnce "/metadata/".toList tablePath
    if isIdentifierSegment tableName && isValidTableMetadataFileName metadataFileName then
      some (defaultNamespaceRoot ++ namespaceStorageId ++ "/tables/".toList ++ tableName ++
        "/metadata".toList)
    else none
  else none

/-- `table_metadata_dir_path_for_entry`, without the text of its error. -/
def tableMetadataDirPath (tableBucket metadataLocation : List Char) : Option (List Char) := do
  let objectKey ← tableCatalogObjectKeyFromLocation tableBucket metadataLocation
  match tableMetadataDirFromObjectKey objectKey with
  | some metadataDir => some metadataDir
  | none =>
    if isReservedTableObjectKey objectKey then none
    else
      let (metadataDir, metadataFileName) ← rsplitOnce "/".toList objectKey
      match stripEnd "/metadata".toList metadataDir with
      | some (_ :: _) =>
        if isValidTableMetadataFileName metadataFileName then some metadataDir else none
      | _ => none

/-- `is_valid_table_metadata_location_for_entry` for a table with the bucket and the
current metadata location. -/
def isValidTableMetadataLocation (tableBucket current metadataLocation : String) : Bool :=
  match tableMetadataDirPath tableBucket.toList current.toList,
    tableCatalogObjectKeyFromLocation tableBucket.toList metadataLocation.toList with
  | some metadataDir, some objectKey =>
    (stripStart (metadataDir ++ "/".toList) objectKey).any isValidTableMetadataFileName
  | _, _ => false

def warehouseIndexMaxDepth : Nat := 64

def withoutSlash (text : List Char) : List Char := (stripEnd "/".toList text).getD text

def normalizeWarehouseObject (object : List Char) : Except TableCatalogStoreError String :=
  let object := withoutSlash object
  if object.isEmpty then .error (.invalid "table warehouse location must include an object prefix")
  else if object.contains '\\' then
    .error (.invalid "table warehouse location contains an invalid path separator")
  else if (object.splitOn '/').any fun segment =>
      segment.isEmpty || segment = ".".toList || segment = "..".toList then
    .error (.invalid "table warehouse location contains an invalid path segment")
  else if warehouseIndexMaxDepth < (object.splitOn '/').length then
    .error (.invalid "table warehouse location exceeds the maximum prefix depth")
  else .ok (String.ofList (object ++ "/".toList))

/-- `table_warehouse_object_prefix` of a table with the bucket and the warehouse location. -/
def tableWarehouseObject (tableBucket warehouseLocation : String) :
    Except TableCatalogStoreError String :=
  match stripStart "s3://".toList warehouseLocation.toList with
  | none => .error (.invalid "table warehouse location must be an s3 URI")
  | some location =>
    match splitOnce "/".toList location with
    | none => .error (.invalid "table warehouse location must include an object prefix")
    | some (bucket, object) =>
      if bucket ≠ tableBucket.toList then
        .error (.invalid "table warehouse location must be inside the table bucket")
      else if isReservedTableObjectKey (withoutSlash object) then
        .error (.invalid "table warehouse location overlaps the reserved table catalog prefix")
      else normalizeWarehouseObject object

def warehouseObjectsOverlap (left right : String) : Bool :=
  right.toList.isPrefixOf left.toList || left.toList.isPrefixOf right.toList

inductive TableCatalogEntryState
  | active
  | renaming
  | deleting
  | deleted
  deriving DecidableEq

structure TableEntry where
  tableBucket : String
  tableId : String
  formatVersion : Nat
  warehouseLocation : String
  metadataLocation : String
  versionToken : String
  generation : Nat
  state : TableCatalogEntryState
  deriving DecidableEq

inductive CommitLogStatus
  | staged
  | committed
  | failed
  deriving DecidableEq

structure CommitLogEntry (Json : Type) where
  version : Nat
  commitId : String
  idempotencyKey : Option String
  tableId : String
  operation : String
  expectedVersionToken : String
  newVersionToken : String
  previousMetadataLocation : String
  newMetadataLocation : String
  requirements : List Json
  status : CommitLogStatus
  writer : Option String
  createdAt : Option String
  updatedAt : Option String
  deriving DecidableEq

structure TableCommitRequest (Json : Type) where
  tableBucket : String
  namespace_ : String
  table : String
  commitId : String
  idempotencyKey : Option String
  operation : String
  expectedVersionToken : String
  expectedMetadataLocation : String
  newMetadataLocation : String
  requirements : List Json
  writer : Option String
  deriving DecidableEq

structure TableCommitResult (Json : Type) where
  table : TableEntry
  commitLog : CommitLogEntry Json

structure TableMetadataCommitState where
  warehouseLocation : Option String
  formatVersion : Option Nat

abbrev StrongResourceKey := String ×ₗ String ×ₗ String

abbrev StrongCommitKey := String ×ₗ String ×ₗ String

structure StrongTableCatalogState (Json : Type) where
  tables : KeyMap StrongResourceKey TableEntry
  commits : KeyMap StrongCommitKey (CommitLogEntry Json)
  idempotency : KeyMap StrongCommitKey (CommitLogEntry Json)
  warehouseIndex : KeyMap String (KeyMap String StrongResourceKey)
  identifierCollisions : List StrongResourceKey

def tableCatalogEntryVersion : Nat := 1

def tableKey (tableBucket namespaceName table : String) : StrongResourceKey :=
  toLex (tableBucket, toLex (namespaceName, table))

def commitKey (tableBucket tableId commitId : String) : StrongCommitKey :=
  toLex (tableBucket, toLex (tableId, commitId))

def idempotencyKey (tableBucket tableId key : String) : StrongCommitKey :=
  toLex (tableBucket, toLex (tableId, key))

variable {Json : Type} [DecidableEq Json]

def commitLogMatchesRequest (commitLog : CommitLogEntry Json) (request : TableCommitRequest Json)
    (tableId : String) : Bool :=
  commitLog.version = tableCatalogEntryVersion &&
    commitLog.commitId = request.commitId &&
    commitLog.idempotencyKey = request.idempotencyKey &&
    commitLog.tableId = tableId &&
    commitLog.operation = request.operation &&
    commitLog.expectedVersionToken = request.expectedVersionToken &&
    commitLog.previousMetadataLocation = request.expectedMetadataLocation &&
    commitLog.newMetadataLocation = request.newMetadataLocation &&
    commitLog.requirements = request.requirements &&
    commitLog.writer = request.writer

def commitLogsShareRecoveryPayload (left right : CommitLogEntry Json) : Bool :=
  left.version = right.version &&
    left.commitId = right.commitId &&
    left.idempotencyKey = right.idempotencyKey &&
    left.tableId = right.tableId &&
    left.operation = right.operation &&
    left.expectedVersionToken = right.expectedVersionToken &&
    left.newVersionToken = right.newVersionToken &&
    left.previousMetadataLocation = right.previousMetadataLocation &&
    left.newMetadataLocation = right.newMetadataLocation &&
    left.requirements = right.requirements &&
    left.writer = right.writer

/-- A metadata location with a version token. -/
abbrev PointerState := String ×ₗ String

def TableEntry.pointer (table : TableEntry) : PointerState :=
  toLex (table.metadataLocation, table.versionToken)

namespace CommitLogEntry

def newState (commitLog : CommitLogEntry Json) : PointerState :=
  toLex (commitLog.newMetadataLocation, commitLog.newVersionToken)

def previousState (commitLog : CommitLogEntry Json) : PointerState :=
  toLex (commitLog.previousMetadataLocation, commitLog.expectedVersionToken)

end CommitLogEntry

def tableMatchesCommittedLog (table : TableEntry) (commitLog : CommitLogEntry Json) : Bool :=
  table.tableId = commitLog.tableId && table.pointer = commitLog.newState

def tableMatchesStagedBase (table : TableEntry) (commitLog : CommitLogEntry Json) : Bool :=
  table.tableId = commitLog.tableId && table.pointer = commitLog.previousState

structure TableCommitHistoryIndex where
  tableId : String
  reachableStates : List PointerState
  ambiguousStates : List PointerState
  cycleDetected : Bool

namespace TableCommitHistoryIndex

/-- The state before a new state; `none` once two commits lead to it. -/
abbrev ByNewState := KeyMap PointerState (Option PointerState)

def record (index : ByNewState × List PointerState) (commit : CommitLogEntry Json) :
    ByNewState × List PointerState :=
  match index.1.get commit.newState with
  | some _ => (index.1.insert commit.newState none, commit.newState :: index.2)
  | none => (index.1.insert commit.newState (some commit.previousState), index.2)

/-- The walk back from a state: the states it goes through, and whether it comes to one
of them again. A walk longer than the fuel does not end. -/
def walk (byNewState : ByNewState) : (fuel : Nat) → PointerState → List PointerState →
    Option (List PointerState × Bool)
  | 0, _, _ => none
  | fuel + 1, state, reachable =>
    if state ∈ reachable then some (reachable, true)
    else
      match byNewState.get state with
      | some (some previous) => walk byNewState fuel previous (state :: reachable)
      | _ => some (state :: reachable, false)

def new (table : TableEntry) (commits : List (CommitLogEntry Json)) : TableCommitHistoryIndex :=
  let own := commits.filter fun commit =>
    commit.tableId = table.tableId && commit.status ≠ CommitLogStatus.failed
  let (byNewState, ambiguousStates) := own.foldl record (KeyMap.empty, [])
  let (reachableStates, cycleDetected) :=
    (walk byNewState (byNewState.entries.length + 2) table.pointer []).getD ([], true)
  ⟨table.tableId, reachableStates, ambiguousStates, cycleDetected⟩

def provesCommitted (index : TableCommitHistoryIndex) (target : CommitLogEntry Json) : Bool :=
  !index.cycleDetected && index.tableId = target.tableId &&
    target.status ≠ CommitLogStatus.failed &&
    target.newState ∉ index.ambiguousStates && target.newState ∈ index.reachableStates

end TableCommitHistoryIndex

namespace StrongTableCatalogState

/-- The range of the commits from the first possible key of the table on. -/
def tableCommitsLocked (state : StrongTableCatalogState Json) (tableBucket tableId : String) :
    List (CommitLogEntry Json) :=
  ((state.commits.entries.dropWhile fun entry => entry.1 < commitKey tableBucket tableId "").takeWhile
    fun entry => (ofLex entry.1).1 = tableBucket && (ofLex (ofLex entry.1).2).1 = tableId).map Prod.snd

def notFoundText (request : TableCommitRequest Json) : String :=
  s!"table {request.tableBucket}/{request.namespace_}/{request.table}"

/-- A staged commit that is neither the next nor the last one of the table, but in its
history. -/
def historicallyCommitted (state : StrongTableCatalogState Json) (tableBucket : String)
    (current : TableEntry) (existing : CommitLogEntry Json) : Bool :=
  existing.status = CommitLogStatus.staged && !tableMatchesStagedBase current existing &&
    !tableMatchesCommittedLog current existing &&
    (TableCommitHistoryIndex.new current
      (state.tableCommitsLocked tableBucket current.tableId)).provesCommitted existing

/-- The checks of a request whose commit id is recorded. -/
def validateExistingCommit (state : StrongTableCatalogState Json)
    (request : TableCommitRequest Json) (current : TableEntry) (existing : CommitLogEntry Json) :
    Except TableCatalogStoreError TableEntry :=
  if !commitLogMatchesRequest existing request current.tableId then
    .error (.conflict s!"commit id already exists: {request.commitId}")
  else if existing.status = .failed then
    .error (.conflict "failed commit record cannot be replayed")
  else if existing.status = .committed && tableMatchesStagedBase current existing then
    .error (.conflict "committed record still matches the pre-commit table state")
  else if existing.status = .committed || (existing.status = .staged &&
      (tableMatchesCommittedLog current existing ||
        state.historicallyCommitted request.tableBucket current existing)) then
    .ok current
  else .error (.conflict "existing commit record does not match current table state")

/-- The checks of a request whose commit id is new. -/
def validateTableBase (request : TableCommitRequest Json) (current : TableEntry) :
    Except TableCatalogStoreError TableEntry :=
  if current.versionToken ≠ request.expectedVersionToken then
    .error (.conflict "current table version token does not match expected token")
  else if current.metadataLocation ≠ request.expectedMetadataLocation then
    .error (.conflict "current table metadata location does not match expected location")
  else if !isValidTableMetadataLocation current.tableBucket current.metadataLocation
      request.newMetadataLocation then
    .error (.invalid "new metadata location must be inside the table metadata directory")
  else .ok current

def existingIdempotencyCommit (state : StrongTableCatalogState Json)
    (request : TableCommitRequest Json) (current : TableEntry) : Option (CommitLogEntry Json) :=
  request.idempotencyKey.bind fun key =>
    state.idempotency.get (idempotencyKey request.tableBucket current.tableId key)

/-- What the commit record and the idempotency index say about a request. -/
def validateRecords (request : TableCommitRequest Json) (current : TableEntry) :
    Option (CommitLogEntry Json) → Option (CommitLogEntry Json) → Option TableCatalogStoreError
  | some existing, some indexed =>
    if !commitLogsShareRecoveryPayload existing indexed then
      some (.conflict "commit record and idempotency index contain different payloads")
    else if !commitLogMatchesRequest indexed request current.tableId then
      some (.conflict "idempotency key already exists")
    else none
  | none, some indexed =>
    if !commitLogMatchesRequest indexed request current.tableId then
      some (.conflict "idempotency key already exists")
    else some (.conflict "idempotency key exists without a recoverable commit record")
  | _, none => none

def validateNewTableCommitLocked (state : StrongTableCatalogState Json) (key : StrongResourceKey)
    (request : TableCommitRequest Json) : Except TableCatalogStoreError TableEntry :=
  if key ∈ state.identifierCollisions then
    .error (.internal (s!"legacy table/view identifier collision requires operator cleanup: " ++
      s!"{(ofLex key).1}/{(ofLex (ofLex key).2).1}/{(ofLex (ofLex key).2).2}"))
  else
    match state.tables.get key with
    | none => .error (.notFound (notFoundText request))
    | some current =>
      if current.state ≠ .active then .error (.notFound (notFoundText request))
      else
        let existingCommit :=
          state.commits.get (commitKey request.tableBucket current.tableId request.commitId)
        match validateRecords request current existingCommit
            (state.existingIdempotencyCommit request current) with
        | some error => .error error
        | none =>
          match existingCommit with
          | some existing => state.validateExistingCommit request current existing
          | none => validateTableBase request current

def recordCommitted (state : StrongTableCatalogState Json) (tableBucket tableId : String)
    (committed : CommitLogEntry Json) : StrongTableCatalogState Json :=
  { state with
    commits := state.commits.insert (commitKey tableBucket tableId committed.commitId) committed
    idempotency :=
      match committed.idempotencyKey with
      | some key => state.idempotency.insert (idempotencyKey tableBucket tableId key) committed
      | none => state.idempotency }

/-- The result of a commit that has taken effect before. -/
def committedExistingResultLocked (state : StrongTableCatalogState Json)
    (request : TableCommitRequest Json) (current : TableEntry) :
    Option (StrongTableCatalogState Json × TableCommitResult Json) :=
  match state.commits.get (commitKey request.tableBucket current.tableId request.commitId) with
  | none => none
  | some existing =>
    if !commitLogMatchesRequest existing request current.tableId then none
    else if existing.status = .failed ||
        (existing.status = .committed && tableMatchesStagedBase current existing) ||
        (existing.status ≠ .committed && !tableMatchesCommittedLog current existing &&
          !state.historicallyCommitted request.tableBucket current existing) then none
    else
      let committed := { existing with status := .committed }
      some (state.recordCommitted request.tableBucket current.tableId committed,
        ⟨current, committed⟩)

def ensureTableWarehouseAvailableLocked (state : StrongTableCatalogState Json)
    (candidate : TableEntry) (candidateKey : StrongResourceKey) : Except TableCatalogStoreError Unit :=
  if candidate.state ≠ .active then .ok ()
  else
    match tableWarehouseObject candidate.tableBucket candidate.warehouseLocation with
    | .error error => .error error
    | .ok location =>
      match state.warehouseIndex.get candidate.tableBucket with
      | none => .ok ()
      | some bucketIndex =>
        let others := bucketIndex.entries.filter fun entry => entry.2 ≠ candidateKey
        let predecessor := (others.filter fun entry => entry.1 ≤ location).getLast?
        let successor := (others.filter fun entry => location ≤ entry.1).head?
        if (predecessor.toList ++ successor.toList).any fun entry =>
            warehouseObjectsOverlap entry.1 location then
          .error (.conflict s!"table warehouse location overlaps an active table: {location}")
        else .ok ()

def maxGeneration : Nat := 2 ^ 64 - 1

/-- The log of a commit that takes effect now. -/
def newCommitLog (request : TableCommitRequest Json) (current : TableEntry) (newVersionToken : String) :
    CommitLogEntry Json where
  version := tableCatalogEntryVersion
  commitId := request.commitId
  idempotencyKey := request.idempotencyKey
  tableId := current.tableId
  operation := request.operation
  expectedVersionToken := request.expectedVersionToken
  newVersionToken := newVersionToken
  previousMetadataLocation := current.metadataLocation
  newMetadataLocation := request.newMetadataLocation
  requirements := request.requirements
  status := .committed
  writer := request.writer
  createdAt := none
  updatedAt := none

/-- The table after the commit, still with its old token and generation. -/
def movedTable (current : TableEntry) (commitLog : CommitLogEntry Json)
    (nextMetadataState : TableMetadataCommitState) : TableEntry :=
  { current with
    metadataLocation := commitLog.newMetadataLocation
    warehouseLocation := nextMetadataState.warehouseLocation.getD current.warehouseLocation
    formatVersion := nextMetadataState.formatVersion.getD current.formatVersion }

def applyCommitLocked (state : StrongTableCatalogState Json) (request : TableCommitRequest Json)
    (namespaceName table : String) (nextMetadataState : TableMetadataCommitState)
    (newVersionToken : String) :
    StrongTableCatalogState Json × Except TableCatalogStoreError (TableCommitResult Json) :=
  let key := tableKey request.tableBucket namespaceName table
  match state.validateNewTableCommitLocked key request with
  | .error error => (state, .error error)
  | .ok current =>
    match state.committedExistingResultLocked request current with
    | some (state, result) => (state, .ok result)
    | none =>
      let commitLog := newCommitLog request current newVersionToken
      let moved := movedTable current commitLog nextMetadataState
      match state.ensureTableWarehouseAvailableLocked moved key with
      | .error error => (state, .error error)
      | .ok () =>
        let next := { moved with
          versionToken := commitLog.newVersionToken
          generation := min (moved.generation + 1) maxGeneration }
        let recorded := state.recordCommitted request.tableBucket next.tableId commitLog
        ({ recorded with tables := recorded.tables.insert key next }, .ok ⟨next, commitLog⟩)

end StrongTableCatalogState

end Rustfs.TableCatalog

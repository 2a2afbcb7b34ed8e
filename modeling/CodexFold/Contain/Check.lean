import CodexFold.Fold.Fold
import CodexFold.Foundation.Matching

/- Whether one rollout is contained in another (`internal/contain`).

   The records of the contained rollout are reduced to fingerprints, and the
   container is searched for that sequence of fingerprints. A full match is then
   compared byte by byte; when the bytes differ the search goes on from the border
   of the needle.

   The hash is any function of the record's bytes: nothing below asks it to be free
   of collisions. `envelopeType` stands for `json.Unmarshal` into the envelope and
   gives the `type` field of a record that decodes. The files do not change during a
   call; every read, and every look at the context, can fail. -/
namespace CodexFold.Contain
open Foundation

def firstRecordCaptureLimit : Nat := 8 * 1024 * 1024

/-- The size of the buffers in `equalFileRanges`. -/
def compareBufferBytes : Nat := 1024 * 1024

abbrev Disk : Type := Files String Bytes

structure Input where
  id : String
  path : String
  deriving DecidableEq, Repr

structure Options where
  ignoreSessionMeta : Bool
  deriving DecidableEq, Repr

structure Result where
  containedID : String
  containerID : String
  containedPath : String
  containerPath : String
  ignoredSessionMeta : Bool
  contained : Bool
  verifiedExact : Bool
  containedRecords : Nat
  containedBytes : Nat
  containerStartRecord : Nat
  containerEndRecord : Nat
  containerStartByte : Nat
  containerEndByte : Nat
  deriving DecidableEq, Repr

/-- `recordFingerprint`; `sameFingerprint` is equality. -/
structure RecordFingerprint (Digest : Type) where
  digest : Digest
  size : Nat
  deriving DecidableEq, Repr

/-- `recordInfo`; `stop` is the source's `end`. -/
structure RecordInfo (Digest : Type) where
  index : Nat
  start : Nat
  stop : Nat
  fingerprint : RecordFingerprint Digest
  deriving DecidableEq, Repr

/-! ## Reading records -/

structure Reading where
  hashed : Bytes
  size : Nat
  capture : Bytes
  captureComplete : Bool
  hasData : Bool
  offset : Nat
  deriving DecidableEq, Repr

def newReading (offset : Nat) : Reading := ⟨[], 0, [], true, false, offset⟩

def Reading.take (r : Reading) (first : Bool) (fragment : Bytes) : Reading :=
  if fragment = [] then r
  else
    let next := { r with
      hashed := r.hashed ++ fragment
      size := r.size + fragment.length
      hasData := true
      offset := r.offset + fragment.length }
    if first && r.captureComplete then
      if r.capture.length + fragment.length ≤ firstRecordCaptureLimit then
        { next with capture := r.capture ++ fragment }
      else { next with capture := [], captureComplete := false }
    else next

/-- The inner loop of `scanRecords`: fragments up to the end of a record or of the
    file. Every round but the last consumes at least one byte. -/
def readRecord (first : Bool) : Nat → Reading → Bytes → Prog Disk String (Reading × Bool × Bytes)
  | 0, _, _ => throw "out of fuel"
  | fuel + 1, r, rest =>
    let (fragment, status, rest) := Fold.readSlice rest
    let r := r.take first fragment
    match status with
    | .delim => pure (r, false, rest)
    | .bufferFull => do
      point "context canceled"
      readRecord first fuel r rest
    | .eof => pure (r, true, rest)

/-- What a visit says: go on, or `errContainmentFound`. -/
inductive Visited (β : Type) where
  | next (b : β)
  | found (b : β)

/-- `bytes.TrimSuffix` of a newline. -/
def trimNewline (record : Bytes) : Bytes :=
  if record.getLast? = some Fold.newline then record.dropLast else record

section
variable {Digest β : Type} [DecidableEq Digest] (sha256 : Bytes → Digest) (envelopeType : Bytes → Option String)

def isSessionMeta (record : Bytes) : Bool :=
  decide (envelopeType (trimNewline record) = some "session_meta")

def visitRecord (ignoreSessionMeta : Bool) (visit : β → RecordInfo Digest → Prog Disk String (Visited β))
    (b : β) (index start : Nat) (r : Reading) : Prog Disk String (Visited β) :=
  if ignoreSessionMeta && decide (index = 0) && r.captureComplete && isSessionMeta envelopeType r.capture then
    pure (.next b)
  else visit b ⟨index, start, r.offset, ⟨sha256 r.hashed, r.size⟩⟩

/-- The outer loop of `scanRecords`. -/
def scanLoop (ignoreSessionMeta : Bool) (visit : β → RecordInfo Digest → Prog Disk String (Visited β)) :
    Nat → β → Nat → Nat → Bytes → Prog Disk String β
  | 0, _, _, _, _ => throw "out of fuel"
  | fuel + 1, b, index, offset, rest => do
    point "context canceled"
    let (r, reachedEOF, rest) ← readRecord (decide (index = 0)) (rest.length + 1) (newReading offset) rest
    if !r.hasData then pure b
    else do
      let visited ← visitRecord sha256 envelopeType ignoreSessionMeta visit b index offset r
      match visited with
      | .found b => pure b
      | .next b => if reachedEOF then pure b else scanLoop ignoreSessionMeta visit fuel b (index + 1) r.offset rest

/-- `os.Open` and the bytes behind it. -/
def openFile (path : String) : Prog Disk String Bytes := do
  point "open"
  let found ← read (fun disk => disk.get path)
  match found with
  | none => throw "file does not exist"
  | some data => pure data

def scanRecords (path : String) (ignoreSessionMeta : Bool)
    (visit : β → RecordInfo Digest → Prog Disk String (Visited β)) (b : β) : Prog Disk String β := do
  let data ← openFile path
  scanLoop sha256 envelopeType ignoreSessionMeta visit (data.length + 1) b 0 0 data

/-! ## Comparing -/

/-- `io.ReadFull` of a section. -/
def readFull (data : Bytes) (offset size : Nat) : Except String Bytes :=
  let got := (data.drop offset).take size
  if got.length = size then .ok got else .error "unexpected EOF"

/-- The loop of `equalFileRanges`. -/
def compareRanges (left right : Bytes) : Nat → Nat → Nat → Nat → Prog Disk String Bool
  | 0, _, _, _ => throw "out of fuel"
  | fuel + 1, leftOffset, rightOffset, remaining =>
    if remaining = 0 then pure true
    else do
      point "context canceled"
      let chunk := min compareBufferBytes remaining
      point "read"
      let leftBytes ← ofExcept (readFull left leftOffset chunk)
      point "read"
      let rightBytes ← ofExcept (readFull right rightOffset chunk)
      if leftBytes = rightBytes then
        compareRanges left right fuel (leftOffset + chunk) (rightOffset + chunk) (remaining - chunk)
      else pure false

def equalFileRanges (leftPath : String) (leftOffset : Nat) (rightPath : String) (rightOffset size : Nat) :
    Prog Disk String Bool := do
  let left ← openFile leftPath
  let right ← openFile rightPath
  compareRanges left right (size + 1) leftOffset rightOffset size

/-! ## The search -/

structure Needle (Digest : Type) where
  fingerprints : List (RecordFingerprint Digest)
  start : Option Nat
  stop : Nat

def collect (needle : Needle Digest) (record : RecordInfo Digest) : Prog Disk String (Visited (Needle Digest)) :=
  pure (.next {
    fingerprints := needle.fingerprints ++ [record.fingerprint]
    start := some (needle.start.getD record.start)
    stop := record.stop })

def buildPrefixTable (records : List (RecordFingerprint Digest)) : List Nat := borderTable records

structure Search where
  matched : Nat
  result : Result

def searchRecord (needle : List (RecordFingerprint Digest)) (table : List Nat) (needleStart : Nat)
    (search : Search) (record : RecordInfo Digest) : Prog Disk String (Visited Search) :=
  let matched := advance needle table record.fingerprint search.matched
  if matched ≠ needle.length then pure (.next { search with matched })
  else do
    let startByte := record.stop - search.result.containedBytes
    let exact ← equalFileRanges search.result.containedPath needleStart search.result.containerPath startByte
      search.result.containedBytes
    if exact then
      pure (.found { matched, result := { search.result with
        contained := true
        verifiedExact := true
        containerStartRecord := record.index + 1 - needle.length
        containerEndRecord := record.index
        containerStartByte := startByte
        containerEndByte := record.stop } })
    else pure (.next { search with matched := table.getD (matched - 1) 0 })

def newResult (contained container : Input) (options : Options) (records bytes : Nat) : Result where
  containedID := contained.id
  containerID := container.id
  containedPath := contained.path
  containerPath := container.path
  ignoredSessionMeta := options.ignoreSessionMeta
  contained := false
  verifiedExact := false
  containedRecords := records
  containedBytes := bytes
  containerStartRecord := 0
  containerEndRecord := 0
  containerStartByte := 0
  containerEndByte := 0

def wrapped {α : Type} (message : String) (x : Prog Disk String α) : Prog Disk String α := do
  let r ← attempt x
  ofExcept (r.mapError (fun e => message ++ e))

def check (contained container : Input) (options : Options) : Prog Disk String Result := do
  ensure (!decide (contained.path = "") && !decide (container.path = ""))
    "both contained and container rollout paths are required"
  let needle ← wrapped "scan contained rollout: "
    (scanRecords sha256 envelopeType contained.path options.ignoreSessionMeta collect ⟨[], none, 0⟩)
  ensure (!needle.fingerprints.isEmpty) "contained rollout has no comparable JSONL records"
  let needleStart := needle.start.getD 0
  let result := newResult contained container options needle.fingerprints.length (needle.stop - needleStart)
  let search ← wrapped "scan container rollout: "
    (scanRecords sha256 envelopeType container.path options.ignoreSessionMeta
      (searchRecord needle.fingerprints (buildPrefixTable needle.fingerprints) needleStart) ⟨0, result⟩)
  pure search.result

end

end CodexFold.Contain

import CodexFold.Foundation.Lines
import CodexFold.Mount.Disk

/- Native append transactions.

   Writes at the end of a native session file are staged in memory, as segments beyond
   the size the file had, until a commit writes them behind a journal as one tail. The
   functions are those of the append state; a method that touches the file runs on the
   state together with the disk. `json.Valid` is a parameter. -/
namespace CodexFold.Mount
open Foundation

def maxInt64 : Nat := 2 ^ 63 - 1

def errNativeAppendGap : String := "native append transaction contains an unfilled offset gap"

def errNativeAppendPending : String := "native append transaction has pending writes"

def errConflictingOverlap : String := "native append segments contain conflicting overlap"

/-! ## Complete JSONL -/

def newline : UInt8 := 10

def continuation (b : UInt8) : Bool := 0x80 ≤ b && b ≤ 0xBF

def second3 (a b : UInt8) : Bool :=
  (if a = 0xE0 then 0xA0 else 0x80) ≤ b && b ≤ (if a = 0xED then 0x9F else 0xBF)

def second4 (a b : UInt8) : Bool :=
  (if a = 0xF0 then 0x90 else 0x80) ≤ b && b ≤ (if a = 0xF4 then 0x8F else 0xBF)

/-- `utf8.Valid`. -/
def utf8Valid : Bytes → Bool
  | [] => true
  | a :: rest =>
    if a < 0x80 then utf8Valid rest
    else
      match rest with
      | [] => false
      | b :: rest =>
        if 0xC2 ≤ a && a ≤ 0xDF then continuation b && utf8Valid rest
        else
          match rest with
          | [] => false
          | c :: rest =>
            if 0xE0 ≤ a && a ≤ 0xEF then second3 a b && continuation c && utf8Valid rest
            else
              match rest with
              | [] => false
              | d :: rest =>
                0xF0 ≤ a && a ≤ 0xF4 && second4 a b && continuation c && continuation d && utf8Valid rest

/-- `completeJSONL`: every line is valid JSON, not empty, and ends with a newline. -/
def completeJSONL (jsonValid : Bytes → Bool) (data : Bytes) : Bool :=
  !data.isEmpty && data.getLast? == some newline && utf8Valid data &&
    (cutAfter newline data).all fun line => 1 < line.length && jsonValid line.dropLast

/-! ## Segments -/

/-- `nativeAppendSegment`. -/
abbrev Segment : Type := Extent UInt8

/-- The loop of `stageSegmentLocked` over the sorted segments; `last` is the last of the
    normalized ones. -/
def normalizeFrom (last : Segment) : List Segment → Except String (List Segment)
  | [] => .ok [last]
  | segment :: rest =>
    if last.finish < segment.offset then do
      let normalized ← normalizeFrom segment rest
      .ok (last :: normalized)
    else
      let overlap := min last.finish segment.finish - segment.offset
      if (last.data.drop (segment.offset - last.offset)).take overlap = segment.data.take overlap then
        normalizeFrom (last.extend segment) rest
      else .error errConflictingOverlap

/-- `stageSegmentLocked`: the segments with `data` at `offset` among them. -/
def stageSegmentLocked (segments : List Segment) (offset : Nat) (data : Bytes) : Except String (List Segment) :=
  match (segments ++ [Extent.mk offset data]).insertionSort (fun a b => a.offset ≤ b.offset) with
  | [] => .ok []
  | first :: rest => normalizeFrom first rest

structure NativeAppendState where
  path : Path
  baseSize : Nat
  visibleEnd : Nat
  segments : List Segment
  deriving DecidableEq

namespace NativeAppendState

variable (s : NativeAppendState)

def clearPendingLocked : NativeAppendState := { s with segments := [], visibleEnd := s.baseSize }

def resized (size : Nat) : NativeAppendState := { s with baseSize := size, visibleEnd := size }

def hasPending : Bool := !s.segments.isEmpty

def overlap (data : Bytes) (offset : Nat) : Nat :=
  min (offset + data.length) s.baseSize - offset

/-- The decision of `Stage` once it has read the committed bytes that `data` overlaps; an
    error drops what is pending. -/
def stageLocked (committed data : Bytes) (offset : Nat) : Except String NativeAppendState := do
  require (committed == data.take (s.overlap data offset)) "native append conflicts with committed bytes"
  if (data.drop (s.overlap data offset)).isEmpty then .ok s
  else do
    require (offset + data.length - s.baseSize ≤ maxNativeAppendPendingBytes)
      "native append transaction exceeds the pending byte limit"
    let segments ← stageSegmentLocked s.segments (offset + s.overlap data offset) (data.drop (s.overlap data offset))
    .ok { s with segments := segments, visibleEnd := max s.visibleEnd (offset + data.length) }

/-- One byte of the loop of `assembleLocked`. Its arrays `tail` and `covered` are one list
    here, with `none` where nothing is covered. -/
def cover (cells : List (Option UInt8)) (value : UInt8) (position : Nat) : Except String (List (Option UInt8)) :=
  match cells[position]? with
  | some (some other) => if other = value then .ok (cells.set position (some value)) else .error errConflictingOverlap
  | _ => .ok (cells.set position (some value))

/-- One segment of the loop of `assembleLocked`. -/
def coverSegment (baseSize : Nat) (cells : List (Option UInt8)) (segment : Segment) :
    Except String (List (Option UInt8)) := do
  require (baseSize ≤ segment.offset && segment.offset - baseSize + segment.data.length ≤ cells.length)
    "native append segment lies outside the transaction range"
  (segment.data.zipIdx (segment.offset - baseSize)).foldlM (fun cells e => cover cells e.1 e.2) cells

def assembleLocked : Except String Bytes := do
  require (s.baseSize ≤ s.visibleEnd && s.visibleEnd - s.baseSize ≤ maxNativeAppendPendingBytes)
    "native append transaction has an invalid visible range"
  let cells ← (s.segments.insertionSort (fun a b => a.offset ≤ b.offset)).foldlM (coverSegment s.baseSize)
    (List.replicate (s.visibleEnd - s.baseSize) none)
  require (cells.all Option.isSome) errNativeAppendGap
  .ok (cells.filterMap id)

def contiguousFrom (finish : Nat) : List Segment → Nat
  | [] => finish
  | segment :: rest =>
    if finish < segment.offset then finish else contiguousFrom (max finish segment.finish) rest

def contiguousEndLocked : Nat := contiguousFrom s.baseSize s.segments

def visibleSizeForBacking (backingSize : Nat) : Nat :=
  if s.segments.isEmpty then backingSize else s.contiguousEndLocked

/-- `ReadAt` of `size` bytes at `offset` of a file that holds `content`: the committed bytes
    with the pending segments over them, as far as they are visible. -/
def readAt (content : Bytes) (offset size : Nat) : Bytes :=
  let limit := min size (s.contiguousEndLocked - offset)
  let committed := min limit (s.baseSize - offset)
  let start := readZeroed (readZeroed content offset committed) 0 limit
  s.segments.foldl (fun visible segment =>
    let first := max offset segment.offset
    let last := min (offset + limit) segment.finish
    overlay 0 visible (first - offset) ((segment.data.drop (first - segment.offset)).take (last - first))) start

end NativeAppendState

/-! ## The methods that touch the file -/

structure Appending where
  state : NativeAppendState
  disk : Disk

abbrev AppendProg (α : Type) : Type := Prog Appending String α

def onDisk {α : Type} (x : DiskProg α) : AppendProg α := onPart Appending.disk (fun a d => { a with disk := d }) x

def clearPending : AppendProg Unit := modify fun a => { a with state := a.state.clearPendingLocked }

def setSize (size : Nat) : AppendProg Unit := modify fun a => { a with state := a.state.resized size }

def readCommitted (s : NativeAppendState) (data : Bytes) (offset : Nat) : DiskProg Bytes :=
  if offset < s.baseSize then do
    let object ← openPath s.path
    point "read"
    point "close"
    let content ← read (·.contents object)
    pure (readZeroed content offset (s.overlap data offset))
  else pure []

def stage (data : Bytes) (offset : Int) : AppendProg Nat := do
  ensure (0 ≤ offset) "negative native append offset"
  if data.isEmpty then pure 0
  else do
    ensure (offset.toNat + data.length ≤ maxInt64) "native append offset overflow"
    let s ← read (·.state)
    let committed ← onDisk (readCommitted s data offset.toNat)
    match s.stageLocked committed data offset.toNat with
    | .ok staged => do
      modify fun a => { a with state := staged }
      pure data.length
    | .error e => do
      clearPending
      throw e

def commitTail (jsonValid : Bytes → Bool) (strict : Bool) (s : NativeAppendState) (tail : Bytes) : AppendProg Unit :=
  if tail.getLast? != some newline then
    if !strict then pure ()
    else do
      clearPending
      throw "native append transaction ends with an incomplete JSONL record"
  else if !(utf8Valid tail) || !(completeJSONL jsonValid tail) then do
    clearPending
    throw "native append transaction is not complete valid JSONL"
  else do
    onFailure clearPending (onDisk (commitNativeAppend s.path s.baseSize tail))
    setSize (s.baseSize + tail.length)
    clearPending

def commit (jsonValid : Bytes → Bool) (strict : Bool) : AppendProg Unit := do
  let s ← read (·.state)
  if s.segments.isEmpty then onDisk (syncNativePath s.path)
  else
    match s.assembleLocked with
    | .error e =>
      if !strict && e == errNativeAppendGap then pure ()
      else do
        clearPending
        throw e
    | .ok tail => commitTail jsonValid strict s tail

def truncate (size : Int) : AppendProg Unit := do
  ensure (0 ≤ size) "negative native truncate size"
  let s ← read (·.state)
  ensure s.segments.isEmpty "cannot truncate a native append transaction with pending writes"
  onDisk (truncatePath s.path size.toNat)
  onDisk (syncNativePath s.path)
  setSize size.toNat

/-- `WriteAt` through the descriptor of a file object; nothing can be written through one
    that was opened for reading. -/
def writeAt (object : Nat) (writable : Bool) (data : Bytes) (offset : Int) : AppendProg Nat := do
  ensure (0 ≤ offset) "invalid native positional write"
  let s ← read (·.state)
  ensure s.segments.isEmpty errNativeAppendPending
  ensure (writable || data.isEmpty) "bad file descriptor"
  onDisk (writeFileAt object offset.toNat data)
  onDisk (point "stat")
  let size ← read fun a => (a.disk.contents object).length
  setSize size
  pure data.length

def refreshIfIdle : AppendProg Unit := do
  let s ← read (·.state)
  if !s.segments.isEmpty then pure ()
  else do
    let object ← onDisk (openPath s.path)
    let size ← read fun a => (a.disk.contents object).length
    setSize size

def relocate (newPath : Path) : AppendProg Unit := do
  let s ← read (·.state)
  onDisk (change fun d => d.rename s.path newPath)
  modify fun a => { a with state := { a.state with path := newPath } }

end CodexFold.Mount
